/-!
Values of the AMQP 1.0 type system as the codec sees them. Besides the wire types the codec
accepts a map keyed by text (written with its keys in order), a described value held through a
reference (possibly an absent one), and host values it has no encoding for, which it refuses
by naming their kind.
-/

set_option autoImplicit false

namespace Courier.Amqp

/-- Exactly `n` bytes: the fixed-width decimals and UUIDs. -/
structure Octets (n : Nat) where
  bytes : List UInt8
  length_eq : bytes.length = n

/-- A host value of a kind the codec cannot write. -/
inductive Foreign where
  /-- A machine integer. -/
  | int (n : Int)
  /-- An unsigned machine integer. -/
  | uint (n : Nat)
  /-- A record without fields. -/
  | unit
  /-- A list of texts. -/
  | texts (items : List String)

/-- A value the codec reads or writes. -/
inductive Value where
  | null
  | bool (b : Bool)
  | ubyte (n : UInt8)
  | ushort (n : UInt16)
  | uint (n : UInt32)
  | ulong (n : UInt64)
  | byte (n : Int8)
  | short (n : Int16)
  | int (n : Int32)
  | long (n : Int64)
  /-- A single-precision float, by its bits. -/
  | float (bits : UInt32)
  /-- A double-precision float, by its bits. -/
  | double (bits : UInt64)
  | decimal32 (d : Octets 4)
  | decimal64 (d : Octets 8)
  | decimal128 (d : Octets 16)
  /-- A code point, not checked. -/
  | char (c : UInt32)
  /-- Milliseconds since the epoch. -/
  | timestamp (ms : Int64)
  | uuid (u : Octets 16)
  | binary (bytes : List UInt8)
  /-- Text as its bytes, which need not be valid UTF-8. -/
  | string (bytes : List UInt8)
  | symbol (bytes : List UInt8)
  | list (items : List Value)
  /-- Entries in the order they are written. -/
  | map (entries : List (Value × Value))
  /-- A map keyed by text; it is written with its keys in ascending order. -/
  | textMap (entries : List (String × Value))
  /-- An array: an optional descriptor, the element constructor (0 lets the writer choose
  the narrowest that fits every item) and the items. -/
  | array (descriptor : Option Value) (element : UInt8) (items : List Value)
  | described (descriptor value : Value)
  /-- A described value held through a reference; the decoder yields these. -/
  | describedRef (descriptor value : Value)
  /-- A reference to a described value that is absent; it is written as null. -/
  | nullRef
  | foreign (f : Foreign)

namespace Value

/-- Text as a string value. -/
def ofText (s : String) : Value := .string s.toUTF8.toList

end Value

end Courier.Amqp
