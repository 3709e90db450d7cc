import Courier.Proofs.Amqp.Elements

/-!
# The narrowest width

The writer puts a value under the narrowest constructor of its type that holds it. The
constructors of one type in all their widths, narrowest first, are `Code.widths`: no body, one
byte and four or eight bytes for the unsigned numbers; one byte and four or eight for the signed
ones; one-byte and four-byte length fields for binaries, strings and symbols; no body, then
one-byte and four-byte size fields for lists; one-byte and four-byte size fields for maps and
arrays; and the two booleans without a body before the one-byte boolean. A constructor outside
every family stands alone. A value `fits` a constructor when it has a body under it, as the
items of an array do under the array's constructor.

- `elementBody_of_scalarCode`: a scalar's body under any constructor is its scalar body;
- `scalar_first_fit`: a scalar's own constructor is the first of its family that it fits;
- `compound_first_fit`: a compound's constructor, the narrower of its two that holds its body
  and count, is the first of its family that it fits;
- `CompoundOf.encode_first_fit`: so is every list, map and array the writer writes;
- `described_fits_none`: a described value fits no constructor, the descriptor mark that opens
  it included;
- `encode_narrowest_width`: every value but an absent reference is written as the first
  constructor of its family that it fits followed by its body under it, or, when described,
  under the descriptor mark; a non-empty list, a map or an array takes its one-byte form exactly
  when its body and count fit one-byte fields.
-/

set_option autoImplicit false

namespace Courier.Amqp

open Value

/-- The constructors of one type in all its widths, narrowest first. -/
def Code.widths : Code → List Code
  | .uint0 | .smallUint | .uint => [.uint0, .smallUint, .uint]
  | .ulong0 | .smallUlong | .ulong => [.ulong0, .smallUlong, .ulong]
  | .smallInt | .int => [.smallInt, .int]
  | .smallLong | .long => [.smallLong, .long]
  | .vbin8 | .vbin32 => [.vbin8, .vbin32]
  | .str8 | .str32 => [.str8, .str32]
  | .sym8 | .sym32 => [.sym8, .sym32]
  | .list0 | .list8 | .list32 => [.list0, .list8, .list32]
  | .map8 | .map32 => [.map8, .map32]
  | .array8 | .array32 => [.array8, .array32]
  | .boolTrue | .boolFalse | .bool => [.boolTrue, .boolFalse, .bool]
  | c => [c]

namespace Value

/-- Whether the value has a body under a constructor. -/
def fits (v : Value) (c : Code) : Bool := (v.elementBody c.toByte).isOk

/-- Whether the value is described, directly or through a reference. -/
def isDescribed : Value → Bool
  | .described .. | .describedRef .. => true
  | _ => false

end Value

/-- A list, map or array with the two constructors of its family, its body as written and the
number of items its count field declares, a map counting its keys and its values. The empty
list is none: it has a constructor of its own, with no body. -/
inductive CompoundOf : Value → Code → Code → Written → Nat → Prop
  | list {x : Value} {xs : List Value} :
      CompoundOf (.list (x :: xs)) .list8 .list32 (encodeAll (x :: xs)) (x :: xs).length
  | map {entries : List (Value × Value)} :
      CompoundOf (.map entries) .map8 .map32 (encodeEntries entries) (2 * entries.length)
  | textMap {fields : List (String × Value)} :
      CompoundOf (.textMap fields) .map8 .map32 (fieldsBody (encodeFields fields))
        (2 * fields.length)
  | array {d : Option Value} {e : UInt8} {items : List Value} :
      CompoundOf (.array d e items) .array8 .array32
        (arrayContent e (fun _ => elementCode none items) (encodeDescriptor d)
          (fun code => elementBodies code items)) items.length

variable {v : Value}

/-! ## Scalars -/

/-- A scalar's body under any constructor is its scalar body: the compound constructors take
only compounds. -/
theorem elementBody_of_scalarCode {k : Code} (hv : v.scalarCode = some k) (c : Code) :
    v.elementBody c.toByte = v.scalarBody c := by
  unfold elementBody
  rw [Code.ofByte?_toByte]
  cases v <;> simp only [scalarCode, reduceCtorEq] at hv <;> cases c <;> rfl

/-- A scalar's own constructor is the first of its family that it fits. -/
theorem scalar_first_fit {c : Code} (hv : v.scalarCode = some c) :
    c.widths.find? v.fits = some c := by
  have hfits : v.fits = fun w => (v.scalarBody w).isOk := funext fun w => by
    rw [fits, elementBody_of_scalarCode hv]
  rw [hfits]
  clear hfits
  -- one case per type of scalar, then one per width its size selects
  cases v <;> simp only [scalarCode, Option.some.injEq, reduceCtorEq] at hv <;> subst hv
  all_goals (try split_ifs)
  all_goals (try simp only [smallSigned, decide_eq_true_eq, Bool.and_eq_true, UInt32.ext_iff,
    UInt64.ext_iff, UInt32.toNat_zero, UInt64.toNat_zero] at *)
  all_goals simp [Code.widths, List.find?, scalarBody, unsignedBody, signedBody, varBytes, misfit,
    Except.isOk, Except.toBool, UInt64.ext_iff, UInt32.toNat_toUInt64, Int32.toInt_toInt64, *]
  -- the variable-width forms, under their own length bound
  all_goals simp (disch := omega) only [if_pos, if_neg]

/-! ## Compounds -/

/-- A compound whose body is written fits the narrow member of its family exactly when its body
and count fit one-byte fields, and fits the wide member always. -/
theorem fits_sized {narrow wide : Code} {B : Written} {count : Nat} {body : List UInt8}
    (hv : ∀ short : Bool, v.elementBody (if short then narrow else wide).toByte =
      (do let b ← B; sized (if short then narrow else wide).toByte short b count))
    (hb : B = .ok body) (short : Bool) :
    v.fits (if short then narrow else wide) = (!short || fitsShort body.length count) := by
  rw [fits, hv short, hb]
  cases short <;> cases hs : fitsShort body.length count <;>
    simp [bind, Except.bind, sized, hs, compound, Except.isOk, Except.toBool]

/-- A compound is written under the narrower of its family's two members that holds its body
and count: the first member of its family that it fits, once the members before the two
refuse it. -/
theorem compound_first_fit (narrow wide : Code) (before : List Code) {B : Written} {count : Nat}
    {body : List UInt8}
    (hv : ∀ short : Bool, v.elementBody (if short then narrow else wide).toByte =
      (do let b ← B; sized (if short then narrow else wide).toByte short b count))
    (hb : B = .ok body) (hbefore : ∀ w ∈ before, v.fits w = false)
    (hn : narrow.widths = before ++ [narrow, wide]) (hw : wide.widths = before ++ [narrow, wide]) :
    ∃ rest, narrowest narrow wide body count =
        (if fitsShort body.length count then narrow else wide).toByte :: rest ∧
      v.elementBody (if fitsShort body.length count then narrow else wide).toByte = .ok rest ∧
      (if fitsShort body.length count then narrow else wide).widths.find? v.fits =
        some (if fitsShort body.length count then narrow else wide) := by
  have skip : before.find? v.fits = none :=
    List.find?_eq_none.mpr fun w hw => by simp [hbefore w hw]
  have hnarrow := fits_sized hv hb true
  have hwide := fits_sized hv hb false
  simp only [if_true, Bool.not_true, Bool.false_or, Bool.not_false, Bool.true_or,
    Bool.false_eq_true, if_false] at hnarrow hwide
  refine ⟨compound (fitsShort body.length count) body count, rfl, ?_, ?_⟩
  · rw [hv, hb]
    exact bind_eq_ok.mpr ⟨body, rfl, sized_ok.mpr ⟨fun h => h, rfl⟩⟩
  · -- the narrow member when it holds the compound, else the wide one
    cases hs : fitsShort body.length count
    · simp [hw, List.find?_append, skip, hnarrow, hwide, hs]
    · simp [hn, List.find?_append, skip, hnarrow, hs]

/-- A compound's body is sized by the narrow or the wide member of its family. -/
theorem CompoundOf.elementBody_eq {narrow wide : Code} {B : Written} {count : Nat}
    (hc : CompoundOf v narrow wide B count) (short : Bool) :
    v.elementBody (if short then narrow else wide).toByte =
      (do let b ← B; sized (if short then narrow else wide).toByte short b count) := by
  unfold elementBody
  rw [Code.ofByte?_toByte]
  cases hc <;> cases short <;> rfl

/-- A compound's family: the zero-width list, which holds only the empty list, and then the
narrow and the wide member. -/
theorem CompoundOf.widths_eq {narrow wide : Code} {B : Written} {count : Nat}
    (hc : CompoundOf v narrow wide B count) :
    ∃ before : List Code, (∀ w ∈ before, v.fits w = false) ∧
      narrow.widths = before ++ [narrow, wide] ∧ wide.widths = before ++ [narrow, wide] := by
  cases hc with
  | list =>
    exact ⟨[.list0], by simp [fits, elementBody_list, scalarBody, misfit, Except.isOk,
      Except.toBool], rfl, rfl⟩
  | map | textMap | array => exact ⟨[], by simp, rfl, rfl⟩

/-- A compound is written with its body after size and count fields, under the narrower member
of its family that holds them. -/
theorem CompoundOf.encode_eq {narrow wide : Code} {B : Written} {count : Nat} {bs : List UInt8}
    (hc : CompoundOf v narrow wide B count) (h : v.encode = .ok bs) :
    ∃ body, B = .ok body ∧ bs = narrowest narrow wide body count := by
  cases hc with
  | list => exact encode_list_cons.mp h
  | map => exact encode_map.mp h
  | textMap => exact encode_textMap.mp h
  | array => exact encode_array.mp h

/-- A compound is written as the first constructor of its family that it fits, followed by its
body under it. -/
theorem CompoundOf.encode_first_fit {narrow wide : Code} {B : Written} {count : Nat}
    {bs : List UInt8} (hc : CompoundOf v narrow wide B count) (h : v.encode = .ok bs) :
    ∃ (c : Code) (body : List UInt8), bs = c.toByte :: body ∧
      v.elementBody c.toByte = .ok body ∧ c.widths.find? v.fits = some c := by
  obtain ⟨b, hb, rfl⟩ := hc.encode_eq h
  obtain ⟨before, hbefore, hn, hw⟩ := hc.widths_eq
  obtain ⟨rest, e, he, hf⟩ :=
    compound_first_fit narrow wide before hc.elementBody_eq hb hbefore hn hw
  exact ⟨_, rest, e, he, hf⟩

/-! ## Scalars and described values as written -/

/-- A scalar is written as its own constructor followed by its body under it. -/
theorem encode_of_scalarCode {c : Code} {bs : List UInt8} (hs : v.scalarCode = some c)
    (h : v.encode = .ok bs) : ∃ body, bs = c.toByte :: body ∧ v.elementBody c.toByte = .ok body := by
  have hw : v.writeScalar = .ok bs := (encode_eq_writeScalar hs).symm.trans h
  simp only [writeScalar, hs] at hw
  cases hb : v.scalarBody c with
  | error e => simp [hb, Functor.map, Except.map] at hw
  | ok body =>
    simp only [hb, Functor.map, Except.map, Except.ok.injEq] at hw
    exact ⟨body, hw.symm, (elementBody_of_scalarCode hs c).trans hb⟩

/-- A described value is written under the descriptor mark. -/
theorem encode_of_isDescribed {bs : List UInt8} (hd : v.isDescribed = true)
    (h : v.encode = .ok bs) : ∃ rest, bs = Code.described.toByte :: rest := by
  cases v <;> simp only [isDescribed, Bool.false_eq_true] at hd
  -- held through a reference or not, it is written alike
  all_goals (try rw [encode_describedRef] at h)
  all_goals obtain ⟨a, b, -, -, -, rfl⟩ := encode_described.mp h
  all_goals exact ⟨a ++ b, rfl⟩

/-- A described value has a body under no constructor: the descriptor mark is the constructor of
no body, and every other refuses it. -/
theorem described_fits_none (hv : v.isDescribed = true) (c : Code) : v.fits c = false := by
  unfold fits elementBody
  rw [Code.ofByte?_toByte]
  cases v <;> simp only [isDescribed, Bool.false_eq_true] at hv <;> cases c <;> rfl

/-! ## What the writer writes -/

/-- Width selection. Every value but an absent reference is written as a constructor followed
by the value's body under it; that constructor is the first of the value's family of widths,
narrowest first, under which the value has a body. A described value is written under the
descriptor mark instead, under which, as under every constructor, it has no body. A non-empty
list, a map or an array is written with its body after size and count fields, in the one-byte
form exactly when the body takes at most 254 bytes and the count is at most 255. -/
theorem encode_narrowest_width {bs : List UInt8} (hn : v ≠ .nullRef) (h : v.encode = .ok bs) :
    (v.isDescribed = true →
      (∃ rest, bs = Code.described.toByte :: rest) ∧ ∀ c : Code, v.fits c = false) ∧
    (v.isDescribed = false → ∃ (c : Code) (body : List UInt8), bs = c.toByte :: body ∧
      v.elementBody c.toByte = .ok body ∧ c.widths.find? v.fits = some c) ∧
    (∀ narrow wide B count, CompoundOf v narrow wide B count → ∃ body, B = .ok body ∧
      bs = (if fitsShort body.length count then narrow else wide).toByte ::
        compound (fitsShort body.length count) body count) := by
  refine ⟨fun hd => ⟨encode_of_isDescribed hd h, described_fits_none hd⟩, fun hd => ?_,
    fun _ _ _ _ hc => hc.encode_eq h⟩
  cases hs : v.scalarCode with
  | some c =>
    obtain ⟨body, rfl, hb⟩ := encode_of_scalarCode hs h
    exact ⟨c, body, rfl, hb, scalar_first_fit hs⟩
  | none =>
    -- what has no scalar constructor and no descriptor is a compound, or the empty list
    cases v <;> simp only [scalarCode, reduceCtorEq, isDescribed, Bool.true_eq_false] at hs hd
    case list items =>
      cases items with
      | nil =>
        obtain rfl : [Code.list0.toByte] = bs := Except.ok.inj h
        exact ⟨Code.list0, [], rfl, rfl, rfl⟩
      | cons x xs => exact CompoundOf.list.encode_first_fit h
    case map => exact CompoundOf.map.encode_first_fit h
    case textMap => exact CompoundOf.textMap.encode_first_fit h
    case array => exact CompoundOf.array.encode_first_fit h
    case nullRef => exact absurd rfl hn
    case foreign => simp [encode, writeScalar, scalarCode] at h

/-- A list of one four-byte number is written under the list's one-byte form, its item under the
four-byte unsigned constructor. -/
theorem one_uint_list_narrowest_width :
    Value.list [.uint 300] ≠ .nullRef ∧
      (Value.list [.uint 300]).encode = .ok [0xc0, 6, 1, 0x70, 0, 0, 1, 0x2c] ∧
      ((Value.list [.uint 300]).isDescribed = true →
        (∃ rest, [0xc0, 6, 1, 0x70, 0, 0, 1, 0x2c] = Code.described.toByte :: rest) ∧
          ∀ c : Code, (Value.list [.uint 300]).fits c = false) ∧
      ((Value.list [.uint 300]).isDescribed = false → ∃ (c : Code) (body : List UInt8),
        [0xc0, 6, 1, 0x70, 0, 0, 1, 0x2c] = c.toByte :: body ∧
        (Value.list [.uint 300]).elementBody c.toByte = .ok body ∧
        c.widths.find? (Value.list [.uint 300]).fits = some c) ∧
      (∀ narrow wide B count, CompoundOf (.list [.uint 300]) narrow wide B count →
        ∃ body, B = .ok body ∧ [0xc0, 6, 1, 0x70, 0, 0, 1, 0x2c] =
          (if fitsShort body.length count then narrow else wide).toByte ::
            compound (fitsShort body.length count) body count) :=
  ⟨by simp, rfl, encode_narrowest_width (by simp) rfl⟩

/-- The empty list is written under the zero-width list constructor, not the one-byte form,
although its empty body and zero count fit one-byte fields; and a described value is written
under the descriptor mark, under which, as under every constructor, it has no body. -/
theorem empty_list_zero_width_described_bodiless :
    (Value.list []).encode = .ok [Code.list0.toByte] ∧ fitsShort 0 0 = true ∧
      Code.list0.toByte ≠ Code.list8.toByte ∧
      (Value.described (.ulong 0) .null).encode =
        .ok [Code.described.toByte, Code.ulong0.toByte, Code.null.toByte] ∧
      ∀ c : Code, (Value.described (.ulong 0) .null).fits c = false :=
  ⟨rfl, rfl, by decide, rfl, described_fits_none rfl⟩

end Courier.Amqp
