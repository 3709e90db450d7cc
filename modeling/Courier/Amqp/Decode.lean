import Courier.Amqp.Code
import Courier.Amqp.Error
import Courier.Amqp.Encode
import Courier.Bytes.BigEndian

/-!
Reading values. A reader takes bytes from the front of its input and hands back what follows
the value; the type `Read bs α` records that this rest is never longer than `bs`, which is what
makes the mutually recursive readers terminate. Fixed-width fields refuse a short input as cut
short; the decimals and UUIDs, read as a stream reads them, tell an input with nothing left
(the end) from one with too little. Inside a compound's body an input that ends early means
the compound's size was wrong.
-/

set_option autoImplicit false
set_option linter.unusedVariables false

namespace Courier.Amqp

open Courier.Bytes

/-- What reading from the front of `bs` gives: a result and the bytes after it. -/
abbrev Read (bs : List UInt8) (α : Type) :=
  Except CodecError (α × { rest : List UInt8 // rest.length ≤ bs.length })

/-- The first byte and the bytes after it; none left is the end of the input. -/
def readByte : (bs : List UInt8) →
    Except CodecError (UInt8 × { rest : List UInt8 // rest.length < bs.length })
  | [] => .error .endOfInput
  | b :: rest => .ok (b, ⟨rest, by simp⟩)

/-- Exactly `n` bytes; fewer left, none included, is a cut. -/
def readExact (n : Nat) (bs : List UInt8) : Read bs (List UInt8) :=
  if n ≤ bs.length then .ok (bs.take n, ⟨bs.drop n, by simp⟩) else .error .cutShort

/-- Exactly `n` bytes as a stream reads them: nothing left is the end, too little a cut. -/
def readFull (n : Nat) (bs : List UInt8) : Read bs (List UInt8) :=
  if n = 0 then .ok ([], ⟨bs, Nat.le_refl _⟩)
  else if bs.isEmpty then .error .endOfInput
  else readExact n bs

/-- A fixed-width body turned into a value. -/
def readScalar (n : Nat) (f : List UInt8 → Value) (bs : List UInt8) : Read bs Value :=
  (readExact n bs).map fun (x, r) => (f x, r)

/-- The bytes of a variable-width value: a length of one byte when `short`, else of four (at
most the largest signed 32-bit number), then that many bytes. -/
def readVariable (short : Bool) (bs : List UInt8) : Read bs (List UInt8) :=
  match readExact (if short then 1 else 4) bs with
  | .error e => .error e
  | .ok (field, ⟨r, h⟩) =>
    let n := ofBigEndian field
    if n > Nat.pow 2 31 - 1 then .error (.invalidSize (.tooLong n))
    else match readExact n r with
      | .error e => .error e
      | .ok (x, ⟨r2, h2⟩) => .ok (x, ⟨r2, Nat.le_trans h2 h⟩)

/-- The fixed-width integers of the type system, from their big-endian bytes. -/
def unsignedOf (bs : List UInt8) : Nat := ofBigEndian bs

/-- A compound's body, its declared count of items and the bytes after it. -/
structure Compound (bs : List UInt8) where
  body : List UInt8
  count : Nat
  rest : List UInt8
  body_lt : body.length < bs.length
  rest_le : rest.length ≤ bs.length

/-- The size and count fields of a compound (one byte each when `short`, else four) and the
body they declare. The size covers the count field and the body; a size below the count
field's width or past the largest signed 32-bit number, or a count past 2^24, is refused. -/
def readCompound (short : Bool) (bs : List UInt8) : Except CodecError (Compound bs) :=
  let width := if short then 1 else 4
  have hpos : 1 ≤ width := by cases short <;> decide
  if hw : 2 * width ≤ bs.length then
    let size := ofBigEndian (bs.take width)
    let count := ofBigEndian ((bs.drop width).take width)
    let after := bs.drop (2 * width)
    have hafter : after.length = bs.length - 2 * width := List.length_drop
    if size < width ∨ size > Nat.pow 2 31 - 1 then .error (.invalidSize (.size size))
    else if count > Nat.pow 2 24 then .error (.invalidSize (.items count))
    else if size - width ≤ after.length then
      .ok ⟨after.take (size - width), count, after.drop (size - width),
        by rw [List.length_take, hafter]; omega,
        by rw [List.length_drop, hafter]; omega⟩
    else .error .cutShort
  else .error .cutShort

/-- Inside a compound's body, input that ends early means the declared size was wrong. -/
def CodecError.inBody (e : CodecError) : CodecError :=
  if e.isEnd then .invalidSize .overrun else e

/-- A decoded descriptor must be an unsigned long or a symbol. -/
def descriptorOk : Value → Except CodecError Unit := checkDescriptor

/-- Refuses a body with bytes left after its items. -/
def noTrailing {α : Type} (bs : List UInt8) (x : α) : Except CodecError α :=
  if bs.isEmpty then .ok x else .error (.invalidSize (.trailing bs.length))

/-- A lexicographic step whose first component does not grow and whose rest decreases. -/
theorem lex_of_le {a a' : Nat} {b b' : Nat × Nat} (h : a ≤ a')
    (hb : Prod.Lex (· < ·) (· < ·) b b') :
    Prod.Lex (· < ·) (Prod.Lex (· < ·) (· < ·)) (a, b) (a', b') := by
  rcases Nat.lt_or_eq_of_le h with h | h
  · exact Prod.Lex.left _ _ h
  · subst h; exact Prod.Lex.right _ hb

mutual

/-- A value: its constructor, then its body. -/
def readValue (bs : List UInt8) : Read bs Value :=
  match readByte bs with
  | .error e => .error e
  | .ok (code, ⟨rest, h⟩) =>
    match readBody code rest with
    | .error e => .error e
    | .ok (v, ⟨r, h2⟩) => .ok (v, ⟨r, by omega⟩)
termination_by (bs.length, 0, 0)

/-- The body of a value under a constructor. -/
def readBody (code : UInt8) (bs : List UInt8) : Read bs Value :=
  match Code.ofByte? code with
  | none => .error (.unknownType code)
  | some .null => .ok (.null, ⟨bs, Nat.le_refl _⟩)
  | some .boolTrue => .ok (.bool true, ⟨bs, Nat.le_refl _⟩)
  | some .boolFalse => .ok (.bool false, ⟨bs, Nat.le_refl _⟩)
  | some .bool => readScalar 1 (fun x => .bool (unsignedOf x ≠ 0)) bs
  | some .ubyte => readScalar 1 (fun x => .ubyte (unsignedOf x).toUInt8) bs
  | some .ushort => readScalar 2 (fun x => .ushort (unsignedOf x).toUInt16) bs
  | some .uint0 => .ok (.uint 0, ⟨bs, Nat.le_refl _⟩)
  | some .smallUint => readScalar 1 (fun x => .uint (unsignedOf x).toUInt32) bs
  | some .uint => readScalar 4 (fun x => .uint (unsignedOf x).toUInt32) bs
  | some .ulong0 => .ok (.ulong 0, ⟨bs, Nat.le_refl _⟩)
  | some .smallUlong => readScalar 1 (fun x => .ulong (unsignedOf x).toUInt64) bs
  | some .ulong => readScalar 8 (fun x => .ulong (unsignedOf x).toUInt64) bs
  | some .byte => readScalar 1 (fun x => .byte (unsignedOf x).toUInt8.toInt8) bs
  | some .short => readScalar 2 (fun x => .short (unsignedOf x).toUInt16.toInt16) bs
  | some .smallInt => readScalar 1 (fun x => .int (unsignedOf x).toUInt8.toInt8.toInt32) bs
  | some .int => readScalar 4 (fun x => .int (unsignedOf x).toUInt32.toInt32) bs
  | some .smallLong => readScalar 1 (fun x => .long (unsignedOf x).toUInt8.toInt8.toInt64) bs
  | some .long => readScalar 8 (fun x => .long (unsignedOf x).toUInt64.toInt64) bs
  | some .float => readScalar 4 (fun x => .float (unsignedOf x).toUInt32) bs
  | some .double => readScalar 8 (fun x => .double (unsignedOf x).toUInt64) bs
  | some .decimal32 => (readFull 4 bs).map fun (x, r) =>
      (if h : x.length = 4 then .decimal32 ⟨x, h⟩ else .null, r)
  | some .decimal64 => (readFull 8 bs).map fun (x, r) =>
      (if h : x.length = 8 then .decimal64 ⟨x, h⟩ else .null, r)
  | some .decimal128 => (readFull 16 bs).map fun (x, r) =>
      (if h : x.length = 16 then .decimal128 ⟨x, h⟩ else .null, r)
  | some .char => readScalar 4 (fun x => .char (unsignedOf x).toUInt32) bs
  | some .timestamp => readScalar 8 (fun x => .timestamp (unsignedOf x).toUInt64.toInt64) bs
  | some .uuid => (readFull 16 bs).map fun (x, r) =>
      (if h : x.length = 16 then .uuid ⟨x, h⟩ else .null, r)
  | some .vbin8 => (readVariable true bs).map fun (x, r) => (.binary x, r)
  | some .vbin32 => (readVariable false bs).map fun (x, r) => (.binary x, r)
  | some .str8 => (readVariable true bs).map fun (x, r) => (.string x, r)
  | some .str32 => (readVariable false bs).map fun (x, r) => (.string x, r)
  | some .sym8 => (readVariable true bs).map fun (x, r) => (.symbol x, r)
  | some .sym32 => (readVariable false bs).map fun (x, r) => (.symbol x, r)
  | some .list0 => .ok (.list [], ⟨bs, Nat.le_refl _⟩)
  | some .list8 => readList true bs
  | some .list32 => readList false bs
  | some .map8 => readMap true bs
  | some .map32 => readMap false bs
  | some .array8 => readArray true bs
  | some .array32 => readArray false bs
  | some .described =>
    match readValue bs with
    | .error e => .error e
    | .ok (d, ⟨r, h⟩) =>
      match descriptorOk d with
      | .error e => .error e
      | .ok () =>
        match readValue r with
        | .error e => .error e
        | .ok (v, ⟨r2, h2⟩) => .ok (.describedRef d v, ⟨r2, by omega⟩)
termination_by (bs.length, 1, 1)
decreasing_by
  all_goals first
    | exact lex_of_le (by omega) (Prod.Lex.left _ _ (by decide))
    | exact lex_of_le (by omega) (Prod.Lex.right _ (by decide))

/-- A list: its fields, then exactly its items. -/
def readList (short : Bool) (bs : List UInt8) : Read bs Value :=
  match readCompound short bs with
  | .error e => .error e
  | .ok ⟨body, count, rest, hb, hr⟩ =>
    match readItems count body with
    | .error e => .error e
    | .ok (items, ⟨left, _⟩) =>
      (noTrailing left items).map fun items => (.list items, ⟨rest, hr⟩)
termination_by (bs.length, 1, 0)

/-- A map: its fields, an even count, then exactly its keys and values. -/
def readMap (short : Bool) (bs : List UInt8) : Read bs Value :=
  match readCompound short bs with
  | .error e => .error e
  | .ok ⟨body, count, rest, hb, hr⟩ =>
    if count % 2 ≠ 0 then .error (.invalidSize (.oddMapCount count))
    else
      match readEntries (count / 2) body with
      | .error e => .error e
      | .ok (entries, ⟨left, _⟩) =>
        (noTrailing left entries).map fun entries => (.map entries, ⟨rest, hr⟩)
termination_by (bs.length, 1, 0)

/-- An array: its fields, then an optional descriptor, the element constructor, and exactly
its items under that constructor. -/
def readArray (short : Bool) (bs : List UInt8) : Read bs Value :=
  match readCompound short bs with
  | .error e => .error e
  | .ok ⟨body, count, rest, hb, hr⟩ =>
    match body, hb with
    | [], _ => .error (.invalidSize .noElementCode)
    | b :: afterCode, hb =>
      if b = Code.described.toByte then
        match readValue afterCode with
        | .error e => .error e.inBody
        | .ok (d, ⟨r, h⟩) =>
          match descriptorOk d with
          | .error e => .error e.inBody
          | .ok () =>
            match r, h with
            | [], _ => .error (.invalidSize .noElementCode)
            | c :: afterElement, h =>
              if c = Code.described.toByte then .error (.invalidDescriptor .nested)
              else
                match readElements c count afterElement with
                | .error e => .error e
                | .ok (items, ⟨left, _⟩) =>
                  (noTrailing left items).map fun items => (.array (some d) c items, ⟨rest, hr⟩)
      else
        match readElements b count afterCode with
        | .error e => .error e
        | .ok (items, ⟨left, _⟩) =>
          (noTrailing left items).map fun items => (.array none b items, ⟨rest, hr⟩)
termination_by (bs.length, 1, 0)
decreasing_by
  all_goals apply Prod.Lex.left
  all_goals simp only [List.length_cons] at *
  all_goals omega

/-- `n` values one after another. -/
def readItems : (n : Nat) → (bs : List UInt8) → Read bs (List Value)
  | 0, bs => .ok ([], ⟨bs, Nat.le_refl _⟩)
  | n + 1, bs =>
    match readValue bs with
    | .error e => .error e.inBody
    | .ok (v, ⟨r, h⟩) =>
      match readItems n r with
      | .error e => .error e
      | .ok (vs, ⟨r2, h2⟩) => .ok (v :: vs, ⟨r2, by omega⟩)
termination_by n bs => (bs.length, 2, n)
decreasing_by
  all_goals first
    | exact lex_of_le (by omega) (Prod.Lex.left _ _ (by omega))
    | exact lex_of_le (by omega) (Prod.Lex.right _ (by omega))

/-- `n` keys, each followed by its value. -/
def readEntries : (n : Nat) → (bs : List UInt8) → Read bs (List (Value × Value))
  | 0, bs => .ok ([], ⟨bs, Nat.le_refl _⟩)
  | n + 1, bs =>
    match readValue bs with
    | .error e => .error e.inBody
    | .ok (k, ⟨r, h⟩) =>
      match readValue r with
      | .error e => .error e.inBody
      | .ok (v, ⟨r2, h2⟩) =>
        match readEntries n r2 with
        | .error e => .error e
        | .ok (es, ⟨r3, h3⟩) => .ok ((k, v) :: es, ⟨r3, by omega⟩)
termination_by n bs => (bs.length, 2, n)
decreasing_by
  all_goals first
    | exact lex_of_le (by omega) (Prod.Lex.left _ _ (by omega))
    | exact lex_of_le (by omega) (Prod.Lex.right _ (by omega))

/-- `n` bodies under one constructor. -/
def readElements (code : UInt8) : (n : Nat) → (bs : List UInt8) → Read bs (List Value)
  | 0, bs => .ok ([], ⟨bs, Nat.le_refl _⟩)
  | n + 1, bs =>
    match readBody code bs with
    | .error e => .error e.inBody
    | .ok (v, ⟨r, h⟩) =>
      match readElements code n r with
      | .error e => .error e
      | .ok (vs, ⟨r2, h2⟩) => .ok (v :: vs, ⟨r2, by omega⟩)
termination_by n bs => (bs.length, 2, n)
decreasing_by
  all_goals first
    | exact lex_of_le (by omega) (Prod.Lex.left _ _ (by omega))
    | exact lex_of_le (by omega) (Prod.Lex.right _ (by omega))

end

/-- The first value of a byte string and how many bytes it took. Input that ends inside the
value is a short buffer, reported with the whole input's length. -/
def decode (bs : List UInt8) : Except CodecError (Value × Nat) :=
  match readValue bs with
  | .ok (v, ⟨r, _⟩) => .ok (v, bs.length - r.length)
  | .error e => .error (if e.isEnd then .shortBuffer bs.length else e)

/-- A described list's numeric descriptor and its fields. -/
def readListFields (bs : List UInt8) : Except CodecError (UInt64 × List Value) :=
  match readValue bs with
  | .error e => .error e
  | .ok (.describedRef d v, _) =>
    match d, v with
    | .ulong code, .list fields => .ok (code, fields)
    | .ulong _, v => .error (.notList v)
    | d, _ => .error (.invalidDescriptor (.kind d))
  | .ok (v, _) => .error (.notDescribed v)

end Courier.Amqp
