import Courier.Amqp.Code
import Courier.Amqp.Error
import Courier.Bytes.BigEndian

/-!
Writing values. Every value goes under the narrowest constructor that holds it: zero and small
integers in their short forms, variable-width values and compounds with one-byte size fields
when they fit. An array whose element constructor is not given takes the widest member of the
family that all its items share. `Value.encode` is the writer; `Value.elementBody` writes a
value's body under a given constructor, as an array's elements are written.
-/

set_option autoImplicit false

namespace Courier.Amqp

open Courier.Bytes

/-- What writing gives: bytes, or why the value cannot be written. -/
abbrev Written := Except CodecError (List UInt8)

/-- Whether a compound body of `len` bytes with `count` items fits one-byte size and count
fields: the size field counts itself out but the count field in. -/
def fitsShort (len count : Nat) : Bool := len + 1 ≤ 255 && count ≤ 255

/-- Size and count fields, then the body: one byte each when `short`, else four. The size
covers the count field and the body. -/
def compound (short : Bool) (body : List UInt8) (count : Nat) : List UInt8 :=
  if short then (body.length + 1).toUInt8 :: count.toUInt8 :: body
  else bigEndian 4 (body.length + 4) ++ bigEndian 4 count ++ body

/-- A compound under a constructor of fixed width, refused when a one-byte width cannot hold
it. -/
def sized (code : UInt8) (short : Bool) (body : List UInt8) (count : Nat) : Written :=
  if short && !fitsShort body.length count then
    .error (.invalidValue (.compoundTooLarge body.length count code))
  else .ok (compound short body count)

/-- A compound under the narrower of its two constructors that holds it. -/
def narrowest (narrow wide : Code) (body : List UInt8) (count : Nat) : List UInt8 :=
  let s := fitsShort body.length count
  (if s then narrow else wide).toByte :: compound s body count

/-- Descriptors are unsigned longs or symbols. -/
def checkDescriptor : Value → Except CodecError Unit
  | .ulong _ | .symbol _ => .ok ()
  | v => .error (.invalidDescriptor (.kind v))

/-- A variable-width value: its length in one byte when `short`, else four, then its bytes. -/
def varBytes (short : Bool) (bs : List UInt8) : Written :=
  if short then
    if bs.length > 255 then .error (.invalidValue (.tooLongForShort bs.length))
    else .ok (bs.length.toUInt8 :: bs)
  else .ok (bigEndian 4 bs.length ++ bs)

/-- An integer as `width` bytes of two's complement. -/
def twos (width : Nat) (i : Int) : List UInt8 := bigEndian width (i % Int.pow 2 (8 * width)).toNat

/-- The refusal of a value under a constructor. -/
def misfit (v : Value) (code : Code) : Written := .error (.invalidValue (.mismatch v code.toByte))

/-- An unsigned number under one of its constructors; the short forms hold only zero or
a single byte. -/
def unsignedBody (code : Code) (u : UInt64) : Written :=
  match code with
  | .uint0 | .ulong0 => if u = 0 then .ok [] else misfit (.ulong u) code
  | .smallUint | .smallUlong => if u.toNat ≤ 255 then .ok [u.toUInt8] else misfit (.ulong u) code
  | .uint => .ok (bigEndian 4 u.toNat)
  | _ => .ok (bigEndian 8 u.toNat)

/-- A signed number under one of its constructors; the short forms hold one byte. -/
def signedBody (code : Code) (i : Int64) : Written :=
  match code with
  | .smallInt | .smallLong =>
    if -128 ≤ i.toInt ∧ i.toInt ≤ 127 then .ok (twos 1 i.toInt) else misfit (.long i) code
  | .int => .ok (twos 4 i.toInt)
  | _ => .ok (twos 8 i.toInt)

/-- Whether an integer fits one signed byte. -/
def smallSigned (i : Int) : Bool := -128 ≤ i && i ≤ 127

namespace Value

/-- The constructor of a scalar value: the narrowest form that holds it. Compounds, described
values, references and foreign values have none. -/
def scalarCode : Value → Option Code
  | .null => some .null
  | .bool b => some (if b then .boolTrue else .boolFalse)
  | .ubyte _ => some .ubyte
  | .ushort _ => some .ushort
  | .uint n => some (if n = 0 then .uint0 else if n.toNat ≤ 255 then .smallUint else .uint)
  | .ulong n => some (if n = 0 then .ulong0 else if n.toNat ≤ 255 then .smallUlong else .ulong)
  | .byte _ => some .byte
  | .short _ => some .short
  | .int n => some (if smallSigned n.toInt then .smallInt else .int)
  | .long n => some (if smallSigned n.toInt then .smallLong else .long)
  | .float _ => some .float
  | .double _ => some .double
  | .decimal32 _ => some .decimal32
  | .decimal64 _ => some .decimal64
  | .decimal128 _ => some .decimal128
  | .char _ => some .char
  | .timestamp _ => some .timestamp
  | .uuid _ => some .uuid
  | .binary bs => some (if bs.length ≤ 255 then .vbin8 else .vbin32)
  | .string bs => some (if bs.length ≤ 255 then .str8 else .str32)
  | .symbol bs => some (if bs.length ≤ 255 then .sym8 else .sym32)
  | _ => none

/-- The body of a value under a constructor that needs no other value written: every
constructor but the compound ones. A value of another type is refused, and the descriptor
code is no constructor of a body. -/
def scalarBody (code : Code) (v : Value) : Written :=
  match code with
  | .null => match v with
    | .null => .ok []
    | _ => misfit v code
  | .boolTrue => match v with
    | .bool true => .ok []
    | _ => misfit v code
  | .boolFalse => match v with
    | .bool false => .ok []
    | _ => misfit v code
  | .bool => match v with
    | .bool b => .ok [if b then 1 else 0]
    | _ => misfit v code
  | .ubyte => match v with
    | .ubyte n => .ok [n]
    | _ => misfit v code
  | .ushort => match v with
    | .ushort n => .ok (bigEndian 2 n.toNat)
    | _ => misfit v code
  | .uint0 | .smallUint | .uint => match v with
    | .uint n => unsignedBody code n.toUInt64
    | _ => misfit v code
  | .ulong0 | .smallUlong | .ulong => match v with
    | .ulong n => unsignedBody code n
    | _ => misfit v code
  | .byte => match v with
    | .byte n => .ok (twos 1 n.toInt)
    | _ => misfit v code
  | .short => match v with
    | .short n => .ok (twos 2 n.toInt)
    | _ => misfit v code
  | .smallInt | .int => match v with
    | .int n => signedBody code n.toInt64
    | _ => misfit v code
  | .smallLong | .long => match v with
    | .long n => signedBody code n
    | _ => misfit v code
  | .float => match v with
    | .float b => .ok (bigEndian 4 b.toNat)
    | _ => misfit v code
  | .double => match v with
    | .double b => .ok (bigEndian 8 b.toNat)
    | _ => misfit v code
  | .decimal32 => match v with
    | .decimal32 d => .ok d.bytes
    | _ => misfit v code
  | .decimal64 => match v with
    | .decimal64 d => .ok d.bytes
    | _ => misfit v code
  | .decimal128 => match v with
    | .decimal128 d => .ok d.bytes
    | _ => misfit v code
  | .char => match v with
    | .char c => .ok (bigEndian 4 c.toNat)
    | _ => misfit v code
  | .timestamp => match v with
    | .timestamp ms => .ok (twos 8 ms.toInt)
    | _ => misfit v code
  | .uuid => match v with
    | .uuid u => .ok u.bytes
    | _ => misfit v code
  | .vbin8 | .vbin32 => match v with
    | .binary bs => varBytes (code == .vbin8) bs
    | _ => misfit v code
  | .str8 | .str32 => match v with
    | .string bs => varBytes (code == .str8) bs
    | _ => misfit v code
  | .sym8 | .sym32 => match v with
    | .symbol bs => varBytes (code == .sym8) bs
    | _ => misfit v code
  | .list0 => match v with
    | .list [] => .ok []
    | _ => misfit v code
  | .described => .error (.unknownType code.toByte)
  | _ => misfit v code

/-- A scalar with its constructor; a value with no scalar constructor is refused. -/
def writeScalar (v : Value) : Written :=
  match v.scalarCode with
  | some code => (code.toByte :: ·) <$> scalarBody code v
  | none => .error (.unsupportedType v)

end Value

/-- The entries of a text-keyed map, written in ascending key order: each key as a string,
then its value as written; the first value that cannot be written, in that order, is the
error. -/
def fieldsBody (fields : List (String × Written)) : Written :=
  let sorted := fields.mergeSort (fun a b => decide (a.1 ≤ b.1))
  sorted.foldr (fun (k, w) rest => do
    let key ← (Value.ofText k).writeScalar
    let value ← w
    let tail ← rest
    pure (key ++ value ++ tail)) (.ok [])

/-- The code an array element widens to: the zero-width and one-byte boolean forms carry no
body, so an array uses the narrowest form with one. -/
def widen (b : UInt8) : UInt8 :=
  match Code.ofByte? b with
  | some c => c.asElement.toByte
  | none => b

/-- The family and rank of a code, if it has them. -/
def familyOf (b : UInt8) : Option (Nat × Nat) := (Code.ofByte? b).bind Code.family

/-- What is known of an array's element constructor after some items: the constructor so
far, its family and the rank of its width. -/
abbrev ElementState := Option (UInt8 × Option Nat × Nat)

/-- One more item's constructor: a described item is refused, a constructor of another family
(or, outside every family, another constructor) is refused, a wider one of the family wins. -/
def elementStep (st : ElementState) (c : UInt8) : Except CodecError ElementState :=
  if c = Code.described.toByte then .error (.mixedArray .describedItems)
  else
    let c := widen c
    let (f, r) := match familyOf c with
      | some (f, r) => (some f, r)
      | none => (none, 0)
    match st with
    | none => .ok (some (c, f, r))
    | some (code, family, rank) =>
      if f ≠ family ∨ (f = none ∧ c ≠ code) then .error (.mixedArray (.codes code c))
      else if r > rank then .ok (some (c, family, r))
      else .ok (some (code, family, rank))

/-- An array's content: the descriptor (if any), the element constructor (chosen when none is
given) and the bodies of the items under it. -/
def arrayContent (given : UInt8) (choose : Unit → Except CodecError UInt8) (descriptor : Written)
    (bodies : UInt8 → Written) : Written := do
  let code ← if given = 0 then choose () else pure given
  let d ← descriptor
  let bs ← bodies code
  pure (d ++ code :: bs)

namespace Value

mutual

/-- The bytes of a value under the narrowest constructor that holds it. -/
def encode : Value → Written
  | .described d v => do
    checkDescriptor d
    let a ← encode d
    let b ← encode v
    pure (Code.described.toByte :: a ++ b)
  | .describedRef d v => do
    checkDescriptor d
    let a ← encode d
    let b ← encode v
    pure (Code.described.toByte :: a ++ b)
  | .nullRef => .ok [Code.null.toByte]
  | .list items =>
    if items.isEmpty then .ok [Code.list0.toByte]
    else do
      let body ← encodeAll items
      pure (narrowest .list8 .list32 body items.length)
  | .map entries => do
    let body ← encodeEntries entries
    pure (narrowest .map8 .map32 body (2 * entries.length))
  | .textMap fields => do
    let body ← fieldsBody (encodeFields fields)
    pure (narrowest .map8 .map32 body (2 * fields.length))
  | .array d c items => do
    let body ← arrayContent c (fun _ => elementCode none items) (encodeDescriptor d)
      (fun code => elementBodies code items)
    pure (narrowest .array8 .array32 body items.length)
  | v => v.writeScalar

/-- The items one after another. -/
def encodeAll : List Value → Written
  | [] => .ok []
  | v :: rest => do
    let a ← encode v
    let b ← encodeAll rest
    pure (a ++ b)

/-- The entries one after another, each key before its value. -/
def encodeEntries : List (Value × Value) → Written
  | [] => .ok []
  | (k, v) :: rest => do
    let a ← encode k
    let b ← encode v
    let c ← encodeEntries rest
    pure (a ++ b ++ c)

/-- Each key of a text-keyed map with its value written. -/
def encodeFields : List (String × Value) → List (String × Written)
  | [] => []
  | (k, v) :: rest => (k, encode v) :: encodeFields rest

/-- An array's descriptor marker and descriptor, or nothing. -/
def encodeDescriptor : Option Value → Written
  | none => .ok []
  | some d => do
    checkDescriptor d
    let bs ← encode d
    pure (Code.described.toByte :: bs)

/-- The element constructor of items, from what is known after the items before them; null
for no items. -/
def elementCode : ElementState → List Value → Except CodecError UInt8
  | none, [] => .ok Code.null.toByte
  | some (c, _, _), [] => .ok c
  | st, v :: rest => do
    let c ← match v.scalarCode with
      | some code => pure code.toByte
      | none => do
        let bs ← encode v
        pure (bs.headD 0)
    let st ← elementStep st c
    elementCode st rest

/-- The bodies of the items under one constructor. -/
def elementBodies (code : UInt8) : List Value → Written
  | [] => .ok []
  | v :: rest => do
    let a ← elementBody code v
    let b ← elementBodies code rest
    pure (a ++ b)

/-- The body of a value under a given constructor, without the constructor. -/
def elementBody (code : UInt8) (v : Value) : Written :=
  match Code.ofByte? code, v with
  | none, _ => .error (.unknownType code)
  | some .list8, .list items => do
    let body ← encodeAll items
    sized code true body items.length
  | some .list32, .list items => do
    let body ← encodeAll items
    sized code false body items.length
  | some .map8, .map entries => do
    let body ← encodeEntries entries
    sized code true body (2 * entries.length)
  | some .map32, .map entries => do
    let body ← encodeEntries entries
    sized code false body (2 * entries.length)
  | some .map8, .textMap fields => do
    let body ← fieldsBody (encodeFields fields)
    sized code true body (2 * fields.length)
  | some .map32, .textMap fields => do
    let body ← fieldsBody (encodeFields fields)
    sized code false body (2 * fields.length)
  | some .array8, .array d e items => do
    let body ← arrayContent e (fun _ => elementCode none items) (encodeDescriptor d)
      (fun code => elementBodies code items)
    sized code true body items.length
  | some .array32, .array d e items => do
    let body ← arrayContent e (fun _ => elementCode none items) (encodeDescriptor d)
      (fun code => elementBodies code items)
    sized code false body items.length
  | some c, v => scalarBody c v

end

/-- `dst` followed by the value's bytes; when the value cannot be written, `dst` unchanged and
why. -/
def appendTo (dst : List UInt8) (v : Value) : List UInt8 × Option CodecError :=
  match v.encode with
  | .ok bs => (dst ++ bs, none)
  | .error e => (dst, some e)

end Value

/-- Symbols as one value: null for none, the symbol itself for one, else an array of them. -/
def symbolArray (symbols : List (List UInt8)) : Written :=
  match symbols with
  | [] => .ok [Code.null.toByte]
  | [s] => (Value.symbol s).encode
  | _ => (Value.array none 0 (symbols.map .symbol)).encode

end Courier.Amqp
