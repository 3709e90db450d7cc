import Courier.Amqp.Decode
import Courier.Proofs.Amqp.Numbers

/-!
# Reading what was written

The readers of the codec take their input from the front and hand back the bytes after what
they read. `Yields r a rest` says that a reader gave `a` and left exactly `rest`. Fields read
back what the writer put there whatever follows them, and compounds read back from their size
and count fields, their items and nothing else.

- `readBody_scalarBody`: a scalar's body under any constructor that accepts it reads back as
  the scalar itself;
- `readCompound_compound`: size and count fields as the writer lays them out read back;
- `readList_of_items`, `readMap_of_entries`, `readArray_of_elements`,
  `readArray_of_descriptor`, `readBody_described`: compounds read back from their parts.
-/

set_option autoImplicit false

namespace Courier.Amqp

open Courier.Bytes

/-- A reader gave `a` and left exactly `rest` of its input. -/
def Yields {bs : List UInt8} {α : Type} (r : Read bs α) (a : α) (rest : List UInt8) : Prop :=
  ∃ h, r = .ok (a, ⟨rest, h⟩)

section Yields

variable {bs : List UInt8} {α β : Type}

@[simp] theorem yields_ok {a b : α} {r rest : List UInt8} {h : r.length ≤ bs.length} :
    Yields (.ok (a, ⟨r, h⟩) : Read bs α) b rest ↔ a = b ∧ r = rest := by
  constructor
  · rintro ⟨_, e⟩
    simp only [Except.ok.injEq, Prod.mk.injEq, Subtype.mk.injEq] at e
    exact e
  · rintro ⟨rfl, rfl⟩
    exact ⟨h, rfl⟩

theorem Yields.of_eq {r : Read bs α} {a b : α} {rest : List UInt8} (h : Yields r a rest)
    (e : a = b) : Yields r b rest := e ▸ h

theorem Yields.map {r : Read bs α} {a : α} {rest : List UInt8} (h : Yields r a rest)
    (f : α → β) : Yields (r.map fun (x, s) => (f x, s)) (f a) rest := by
  obtain ⟨h, e⟩ := h
  exact ⟨h, by rw [e]; rfl⟩

end Yields

@[simp] theorem Code.ofByte?_toByte (c : Code) : Code.ofByte? c.toByte = some c := by
  cases c <;> rfl

theorem Code.toByte_of_ofByte? {b : UInt8} {c : Code} (h : Code.ofByte? b = some c) :
    c.toByte = b := by
  have := List.find?_some h
  simpa using this

/-! ## Fields -/

section Fields

variable {n : Nat} {xs : List UInt8}

theorem readExact_append (hn : xs.length = n) (tail : List UInt8) :
    readExact n (xs ++ tail) = .ok (xs, ⟨tail, by simp⟩) := by
  subst hn
  simp [readExact]

theorem readScalar_append (hn : xs.length = n) (f : List UInt8 → Value) (tail : List UInt8) :
    readScalar n f (xs ++ tail) = .ok (f xs, ⟨tail, by simp⟩) := by
  simp [readScalar, readExact_append hn, Except.map]

theorem readFull_append (hn : xs.length = n) (hpos : 0 < n) (tail : List UInt8) :
    readFull n (xs ++ tail) = .ok (xs, ⟨tail, by simp⟩) := by
  have hne : (xs ++ tail).isEmpty = false := by
    cases xs with
    | nil => simp at hn; omega
    | cons => rfl
  rw [readFull, if_neg (by omega), hne]
  exact readExact_append hn tail

/-- A length field, then that many bytes. -/
theorem readVariable_field {short : Bool} {field : List UInt8}
    (hf : field.length = if short then 1 else 4) (hn : ofBigEndian field = xs.length)
    (hl : xs.length ≤ 2 ^ 31 - 1) (tail : List UInt8) :
    readVariable short (field ++ (xs ++ tail)) = .ok (xs, ⟨tail, by simp; omega⟩) := by
  rw [readVariable, readExact_append hf]
  simp only [hn, readExact_append (rfl : xs.length = xs.length) tail]
  rw [if_neg (by simp only [Nat.pow_eq]; omega)]

/-- A variable-width value reads back from what the writer made of it. -/
theorem readVariable_varBytes {short : Bool} {out : List UInt8} (h : varBytes short xs = .ok out)
    (hl : out.length ≤ 4 + (2 ^ 31 - 1)) (tail : List UInt8) :
    readVariable short (out ++ tail) = .ok (xs, ⟨tail, by simp⟩) := by
  cases short
  · -- four length bytes
    obtain rfl : bigEndian 4 xs.length ++ xs = out := Except.ok.inj h
    simp only [List.length_append, length_bigEndian] at hl
    show readVariable false (bigEndian 4 xs.length ++ (xs ++ tail)) = _
    exact readVariable_field (by simp) (ofBigEndian_bigEndian_of_lt (by omega)) (by omega) tail
  · -- one length byte
    rw [varBytes, if_pos rfl] at h
    split at h
    · exact absurd h (by simp)
    · rename_i hs
      obtain rfl := Except.ok.inj h
      show readVariable true ([xs.length.toUInt8] ++ (xs ++ tail)) = _
      exact readVariable_field rfl (by rw [ofBigEndian_singleton]; simp; omega) (by omega) tail

end Fields

/-! ## Scalars -/

/-- A scalar's body under any constructor that accepts it reads back as the scalar itself,
whatever follows it. -/
theorem readBody_scalarBody {c : Code} {v : Value} {body : List UInt8}
    (h : v.scalarBody c = .ok body) (hl : body.length ≤ 4 + (2 ^ 31 - 1)) (tail : List UInt8) :
    Yields (readBody c.toByte (body ++ tail)) v tail := by
  rw [readBody, Code.ofByte?_toByte]
  -- one case per constructor, then one per type of value it takes
  cases c <;> simp only [Value.scalarBody] at h
  -- compound constructors and the descriptor mark write no scalar body
  all_goals first | (simp [misfit] at h; done) | skip
  all_goals split at h
  -- a value of another type, or a number too wide for a short form, is refused
  all_goals first | (simp [misfit] at h; done) | skip
  all_goals (try simp only [unsignedBody, signedBody] at h)
  all_goals (try split at h)
  all_goals first | (simp [misfit] at h; done) | skip
  -- what is left is one reader per written body: none, fixed width or a length field
  all_goals dsimp only
  all_goals (try simp only [Bool.beq_eq_decide_eq, reduceCtorEq, decide_false, decide_true] at h)
  all_goals first
    | simp only [readVariable_varBytes h hl, Except.map, yields_ok, and_true]
    | obtain rfl := Except.ok.inj h
  all_goals simp only [readScalar_append, readFull_append, Except.map, yields_ok,
    List.length_singleton, length_bigEndian, length_twos, Octets.length_eq, Nat.ofNat_pos, and_true]
  all_goals simp_all [unsignedOf, ofBigEndian_singleton, Int32.ofNat_ofBigEndian_twos_small,
    Int64.ofNat_ofBigEndian_twos_small, UInt32.ext_iff, UInt64.ext_iff]
  all_goals omega

/-! ## Compounds -/

section Compounds

variable {bs r r' : List UInt8}

theorem readValue_cons {b : UInt8} {v : Value} (h : Yields (readBody b bs) v r) :
    Yields (readValue (b :: bs)) v r := by
  obtain ⟨h, e⟩ := h
  refine ⟨by simp at h ⊢; omega, ?_⟩
  rw [readValue]
  simp only [readByte, e]

theorem readItems_zero (bs : List UInt8) : Yields (readItems 0 bs) [] bs := by
  refine ⟨Nat.le_refl _, ?_⟩
  rw [readItems]

theorem readItems_succ {n : Nat} {v : Value} {vs : List Value} (hv : Yields (readValue bs) v r)
    (hs : Yields (readItems n r) vs r') : Yields (readItems (n + 1) bs) (v :: vs) r' := by
  obtain ⟨h1, e1⟩ := hv
  obtain ⟨h2, e2⟩ := hs
  refine ⟨by omega, ?_⟩
  rw [readItems]
  simp only [e1, e2]

theorem readEntries_zero (bs : List UInt8) : Yields (readEntries 0 bs) [] bs := by
  refine ⟨Nat.le_refl _, ?_⟩
  rw [readEntries]

theorem readEntries_succ {n : Nat} {r2 : List UInt8} {k v : Value} {es : List (Value × Value)}
    (hk : Yields (readValue bs) k r) (hv : Yields (readValue r) v r2)
    (hs : Yields (readEntries n r2) es r') : Yields (readEntries (n + 1) bs) ((k, v) :: es) r' := by
  obtain ⟨h1, e1⟩ := hk
  obtain ⟨h2, e2⟩ := hv
  obtain ⟨h3, e3⟩ := hs
  refine ⟨by omega, ?_⟩
  rw [readEntries]
  simp only [e1, e2, e3]

theorem readElements_zero (c : UInt8) (bs : List UInt8) : Yields (readElements c 0 bs) [] bs := by
  refine ⟨Nat.le_refl _, ?_⟩
  rw [readElements]

theorem readElements_succ {c : UInt8} {n : Nat} {v : Value} {vs : List Value}
    (hv : Yields (readBody c bs) v r) (hs : Yields (readElements c n r) vs r') :
    Yields (readElements c (n + 1) bs) (v :: vs) r' := by
  obtain ⟨h1, e1⟩ := hv
  obtain ⟨h2, e2⟩ := hs
  refine ⟨by omega, ?_⟩
  rw [readElements]
  simp only [e1, e2]

/-- Size and count fields in front of a body: the size counts the count field and the body. -/
theorem readCompound_fields {short : Bool} {size count body : List UInt8}
    (hsz : size.length = if short then 1 else 4) (hct : count.length = if short then 1 else 4)
    (hsize : ofBigEndian size = body.length + if short then 1 else 4)
    (hlim : ofBigEndian size ≤ 2 ^ 31 - 1) (hcount : ofBigEndian count ≤ 2 ^ 24) (tail : List UInt8) :
    ∃ h1 h2, readCompound short (size ++ count ++ body ++ tail) =
      .ok ⟨body, ofBigEndian count, tail, h1, h2⟩ := by
  have hpos : 1 ≤ if short then 1 else 4 := by cases short <;> decide
  have htake : (size ++ count ++ body ++ tail).take (if short then 1 else 4) = size := by
    rw [List.append_assoc, List.append_assoc, List.take_left' hsz]
  have hmid : ((size ++ count ++ body ++ tail).drop (if short then 1 else 4)).take
      (if short then 1 else 4) = count := by
    rw [List.append_assoc, List.append_assoc, List.drop_left' hsz, List.take_left' hct]
  have hafter : (size ++ count ++ body ++ tail).drop (2 * if short then 1 else 4) = body ++ tail := by
    rw [List.append_assoc, List.append_assoc, ← List.append_assoc size,
      List.drop_left' (by simp only [List.length_append, hsz, hct]; omega)]
  have hlen : (size ++ count ++ body ++ tail).length =
      2 * (if short then 1 else 4) + body.length + tail.length := by
    simp only [List.length_append, hsz, hct]; omega
  refine ⟨by omega, by omega, ?_⟩
  unfold readCompound
  simp only
  rw [dif_pos (by omega)]
  simp only [htake, hmid, hafter]
  rw [if_neg (by simp only [Nat.pow_eq] at hlim ⊢; omega),
    if_neg (by simp only [Nat.pow_eq] at hcount ⊢; omega),
    if_pos (by simp only [List.length_append]; omega)]
  simp [hsize]

/-- A compound as the writer lays it out reads back as its body and count. -/
theorem readCompound_compound {short : Bool} {body : List UInt8} {count : Nat}
    (hs : short = true → fitsShort body.length count = true) (hl : body.length + 4 < 2 ^ 31)
    (hc : count ≤ 2 ^ 24) (tail : List UInt8) :
    ∃ h1 h2, readCompound short (compound short body count ++ tail) =
      .ok ⟨body, count, tail, h1, h2⟩ := by
  cases short with
  | false =>
    have hsz : (bigEndian 4 (body.length + 4)).length = if false = true then 1 else 4 := by simp
    have hct : (bigEndian 4 count).length = if false = true then 1 else 4 := by simp
    have hsize : ofBigEndian (bigEndian 4 (body.length + 4)) = body.length + 4 :=
      ofBigEndian_bigEndian_of_lt (by omega)
    have hcount : ofBigEndian (bigEndian 4 count) = count := ofBigEndian_bigEndian_of_lt (by omega)
    obtain ⟨h1, h2, e⟩ := readCompound_fields hsz hct hsize (by rw [hsize]; omega)
      (by rw [hcount]; omega) tail
    rw [hcount] at e
    exact ⟨h1, h2, e⟩
  | true =>
    have hf := hs rfl
    simp only [fitsShort, Bool.and_eq_true, decide_eq_true_eq] at hf
    have hsz : [(body.length + 1).toUInt8].length = if true = true then 1 else 4 := rfl
    have hct : [count.toUInt8].length = if true = true then 1 else 4 := rfl
    have hsize : ofBigEndian [(body.length + 1).toUInt8] = body.length + 1 := by
      rw [ofBigEndian_singleton]; simp; omega
    have hcount : ofBigEndian [count.toUInt8] = count := by
      rw [ofBigEndian_singleton]; simp; omega
    obtain ⟨h1, h2, e⟩ := readCompound_fields hsz hct hsize (by rw [hsize]; omega)
      (by rw [hcount]; omega) tail
    rw [hcount] at e
    exact ⟨h1, h2, e⟩

variable {short : Bool} {body tail : List UInt8} {count : Nat}
  {h1 : body.length < bs.length} {h2 : tail.length ≤ bs.length}

theorem readList_of_items (hc : readCompound short bs = .ok ⟨body, count, tail, h1, h2⟩)
    {items : List Value} (hi : Yields (readItems count body) items []) :
    Yields (readList short bs) (.list items) tail := by
  obtain ⟨h, e⟩ := hi
  refine ⟨h2, ?_⟩
  rw [readList]
  simp only [hc, e, noTrailing, List.isEmpty_nil]
  rfl

theorem readMap_of_entries {n : Nat} (hc : readCompound short bs = .ok ⟨body, 2 * n, tail, h1, h2⟩)
    {entries : List (Value × Value)} (he : Yields (readEntries n body) entries []) :
    Yields (readMap short bs) (.map entries) tail := by
  obtain ⟨h, e⟩ := he
  refine ⟨h2, ?_⟩
  rw [readMap]
  simp only [hc, Nat.mul_mod_right, ne_eq, not_true_eq_false, if_false,
    Nat.mul_div_cancel_left n (by decide : 0 < 2), e, noTrailing, List.isEmpty_nil]
  rfl

theorem readArray_of_elements {c : UInt8} {rest : List UInt8} {h1 : (c :: rest).length < bs.length}
    (hc : readCompound short bs = .ok ⟨c :: rest, count, tail, h1, h2⟩)
    (hne : c ≠ Code.described.toByte) {items : List Value}
    (he : Yields (readElements c count rest) items []) :
    Yields (readArray short bs) (.array none c items) tail := by
  obtain ⟨h, e⟩ := he
  refine ⟨h2, ?_⟩
  rw [readArray]
  simp only [hc, hne, if_false, e, noTrailing, List.isEmpty_nil]
  rfl

theorem readArray_of_descriptor {dbody : List UInt8} {h1 : (Code.described.toByte :: dbody).length < bs.length}
    (hc : readCompound short bs = .ok ⟨Code.described.toByte :: dbody, count, tail, h1, h2⟩)
    {d : Value} {c : UInt8} {rest : List UInt8} (hd : Yields (readValue dbody) d (c :: rest))
    (hok : descriptorOk d = .ok ()) (hne : c ≠ Code.described.toByte) {items : List Value}
    (he : Yields (readElements c count rest) items []) :
    Yields (readArray short bs) (.array (some d) c items) tail := by
  obtain ⟨hd, ed⟩ := hd
  obtain ⟨h, e⟩ := he
  refine ⟨h2, ?_⟩
  rw [readArray]
  simp only [hc, if_true, ed, hok, hne, if_false, e, noTrailing, List.isEmpty_nil]
  rfl

theorem readBody_described {d v : Value} (hd : Yields (readValue bs) d r)
    (hok : descriptorOk d = .ok ()) (hv : Yields (readValue r) v r') :
    Yields (readBody Code.described.toByte bs) (.describedRef d v) r' := by
  obtain ⟨h1, e1⟩ := hd
  obtain ⟨h2, e2⟩ := hv
  refine ⟨by omega, ?_⟩
  rw [readBody, Code.ofByte?_toByte]
  simp only [e1, hok, e2]

/-- The two list constructors read their compound. -/
theorem readBody_list (short : Bool) (bs : List UInt8) :
    readBody (if short then Code.list8 else Code.list32).toByte bs = readList short bs := by
  cases short <;> rw [readBody] <;> rfl

theorem readBody_map (short : Bool) (bs : List UInt8) :
    readBody (if short then Code.map8 else Code.map32).toByte bs = readMap short bs := by
  cases short <;> rw [readBody] <;> rfl

theorem readBody_array (short : Bool) (bs : List UInt8) :
    readBody (if short then Code.array8 else Code.array32).toByte bs = readArray short bs := by
  cases short <;> rw [readBody] <;> rfl

end Compounds


end Courier.Amqp
