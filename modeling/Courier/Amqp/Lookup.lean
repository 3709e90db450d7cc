import Courier.Amqp.Value
import Courier.Amqp.Show

/-!
Looking a key up in a map. Keys compare by kind and value: byte strings by their bytes, floats
as numbers (so NaN matches nothing and the two zeros match), lists, maps, arrays and described
values never. Two keys of a kind that has no equality at all (text-keyed maps, lists of texts)
cannot be compared, and the lookup fails there.
-/

set_option autoImplicit false

namespace Courier.Amqp

/-- Two keys of a kind without equality met; the kind's name. -/
structure Uncomparable where
  kind : String

/-- The text of the failure. -/
def Uncomparable.message (u : Uncomparable) : String :=
  "runtime error: comparing uncomparable type " ++ u.kind

/-- Whether single-precision bits stand for NaN. -/
def isNaN32 (b : UInt32) : Bool := b &&& 0x7f800000 == 0x7f800000 && b &&& 0x007fffff != 0

/-- Whether double-precision bits stand for NaN. -/
def isNaN64 (b : UInt64) : Bool :=
  b &&& 0x7ff0000000000000 == 0x7ff0000000000000 && b &&& 0x000fffffffffffff != 0

/-- Numeric equality of single-precision bits. -/
def floatEq32 (a b : UInt32) : Bool :=
  !(isNaN32 a || isNaN32 b) && (a == b || (a &&& 0x7fffffff == 0 && b &&& 0x7fffffff == 0))

/-- Numeric equality of double-precision bits. -/
def floatEq64 (a b : UInt64) : Bool :=
  !(isNaN64 a || isNaN64 b) &&
    (a == b || (a &&& 0x7fffffffffffffff == 0 && b &&& 0x7fffffffffffffff == 0))

namespace Value

/-- Whether a key of this kind never matches: lists, maps, arrays and described values. -/
def neverMatches : Value → Bool
  | .list _ | .map _ | .array .. | .described .. | .describedRef .. | .nullRef => true
  | _ => false

/-- Equality of two keys that are neither byte strings nor kinds that never match. -/
def plainEq : Value → Value → Bool
  | .null, .null => true
  | .bool a, .bool b => a == b
  | .ubyte a, .ubyte b => a == b
  | .ushort a, .ushort b => a == b
  | .uint a, .uint b => a == b
  | .ulong a, .ulong b => a == b
  | .byte a, .byte b => a == b
  | .short a, .short b => a == b
  | .int a, .int b => a == b
  | .long a, .long b => a == b
  | .float a, .float b => floatEq32 a b
  | .double a, .double b => floatEq64 a b
  | .decimal32 a, .decimal32 b => a.bytes == b.bytes
  | .decimal64 a, .decimal64 b => a.bytes == b.bytes
  | .decimal128 a, .decimal128 b => a.bytes == b.bytes
  | .char a, .char b => a == b
  | .timestamp a, .timestamp b => a == b
  | .uuid a, .uuid b => a.bytes == b.bytes
  | .string a, .string b => a == b
  | .symbol a, .symbol b => a == b
  | .foreign (.int a), .foreign (.int b) => a == b
  | .foreign (.uint a), .foreign (.uint b) => a == b
  | .foreign .unit, .foreign .unit => true
  | _, _ => false

/-- Whether the key `a` of an entry matches the key `b` looked up. -/
def keyMatches (a b : Value) : Except Uncomparable Bool :=
  match a, b with
  | .binary x, .binary y => .ok (x == y)
  | .binary _, _ => .ok false
  | .textMap _, .textMap _ => .error ⟨a.kindName⟩
  | .foreign (.texts _), .foreign (.texts _) => .error ⟨a.kindName⟩
  | a, b =>
    if a.neverMatches || b.neverMatches then .ok false
    else match b with
      | .binary _ => .ok false
      | _ => .ok (plainEq a b)

end Value

/-- The value of the first entry whose key matches, if any. -/
def lookup (entries : List (Value × Value)) (key : Value) : Except Uncomparable (Option Value) :=
  match entries with
  | [] => .ok none
  | (k, v) :: rest => do
    if ← k.keyMatches key then pure (some v) else lookup rest key

end Courier.Amqp
