import Courier.Proofs.Amqp.Reading

/-!
# Writing then reading

Every value the writer accepts reads back, from its bytes followed by anything, as a value with
the same bytes, provided its lists, maps and arrays declare no more items than the reader
takes and its size fields no more bytes. The value read back need not be the value written: a map
keyed by text comes back as a map in key order, a described value as one held through a
reference, an absent reference as null and an array whose element constructor was left to the
writer with the constructor the writer chose.

- `Value.countsFit`, `Value.SizesFit`: every compound declares at most 2^24 items, and every
  size field at most 2^31 - 1 bytes;
- `RoundTrips`, `RoundTripsAs`: what reading back says of one value, alone and as an element;
- `Value.decode_encode`: decoding an encoding gives a value with that same encoding.
-/

set_option autoImplicit false

namespace Courier.Amqp

open Courier.Bytes

theorem bind_eq_ok {ε α β : Type} {x : Except ε α} {f : α → Except ε β} {b : β} :
    x >>= f = .ok b ↔ ∃ a, x = .ok a ∧ f a = .ok b := by
  cases x <;> simp [bind, Except.bind]

namespace Value

mutual

/-- Whether every list, map and array in a value declares at most 2^24 items, the most the
reader takes; a map counts its keys and its values. -/
def countsFit : Value → Bool
  | .list items => decide (items.length ≤ 2 ^ 24) && itemsFit items
  | .map entries => decide (2 * entries.length ≤ 2 ^ 24) && entriesFit entries
  | .textMap fields => decide (2 * fields.length ≤ 2 ^ 24) && fieldsFit fields
  | .array d _ items => decide (items.length ≤ 2 ^ 24) && descriptorFits d && itemsFit items
  | .described d v | .describedRef d v => d.countsFit && v.countsFit
  | _ => true

def itemsFit : List Value → Bool
  | [] => true
  | v :: rest => v.countsFit && itemsFit rest

def entriesFit : List (Value × Value) → Bool
  | [] => true
  | (k, v) :: rest => k.countsFit && v.countsFit && entriesFit rest

def fieldsFit : List (String × Value) → Bool
  | [] => true
  | (_, v) :: rest => v.countsFit && fieldsFit rest

def descriptorFits : Option Value → Bool
  | none => true
  | some d => d.countsFit

end

/-- The reader's guard on sizes, met by each part of a value on its own: a size field, which
counts the bytes after it, is at most 2^31 - 1, so a value is written in at most 5 + (2^31 - 1)
bytes, its constructor and a four-byte size field included. A described value is read as its
descriptor and then its value, each under its own guard. -/
def SizesFit : Value → Prop
  | .described d v | .describedRef d v => d.SizesFit ∧ v.SizesFit
  | v => ∀ bs, v.encode = .ok bs → bs.length ≤ 5 + (2 ^ 31 - 1)

theorem sizesFit_iff {v : Value} (hd : ∀ d x, v ≠ .described d x) (hr : ∀ d x, v ≠ .describedRef d x) :
    v.SizesFit ↔ ∀ bs, v.encode = .ok bs → bs.length ≤ 5 + (2 ^ 31 - 1) := by
  cases v <;> first | exact absurd rfl (hd _ _) | exact absurd rfl (hr _ _) | exact Iff.rfl

theorem SizesFit.length_le {v : Value} (h : v.SizesFit) (hd : ∀ d x, v ≠ .described d x)
    (hr : ∀ d x, v ≠ .describedRef d x) {bs : List UInt8} (he : v.encode = .ok bs) :
    bs.length ≤ 5 + (2 ^ 31 - 1) :=
  (sizesFit_iff hd hr).mp h bs he

theorem encodeAll_cons {v : Value} {rest : List Value} {body : List UInt8} :
    encodeAll (v :: rest) = .ok body ↔
      ∃ a b, v.encode = .ok a ∧ encodeAll rest = .ok b ∧ body = a ++ b := by
  simp only [encodeAll, bind_eq_ok, pure, Except.pure, Except.ok.injEq]
  constructor
  · rintro ⟨a, ha, b, hb, rfl⟩; exact ⟨a, b, ha, hb, rfl⟩
  · rintro ⟨a, b, ha, hb, rfl⟩; exact ⟨a, ha, b, hb, rfl⟩

theorem encodeEntries_cons {k v : Value} {rest : List (Value × Value)} {body : List UInt8} :
    encodeEntries ((k, v) :: rest) = .ok body ↔
      ∃ a b c, k.encode = .ok a ∧ v.encode = .ok b ∧ encodeEntries rest = .ok c ∧
        body = a ++ b ++ c := by
  simp only [encodeEntries, bind_eq_ok, pure, Except.pure, Except.ok.injEq]
  constructor
  · rintro ⟨a, ha, b, hb, c, hc, rfl⟩; exact ⟨a, b, c, ha, hb, hc, rfl⟩
  · rintro ⟨a, b, c, ha, hb, hc, rfl⟩; exact ⟨a, ha, b, hb, c, hc, rfl⟩

theorem elementBodies_cons {code : UInt8} {v : Value} {rest : List Value} {body : List UInt8} :
    elementBodies code (v :: rest) = .ok body ↔
      ∃ a b, elementBody code v = .ok a ∧ elementBodies code rest = .ok b ∧ body = a ++ b := by
  simp only [elementBodies, bind_eq_ok, pure, Except.pure, Except.ok.injEq]
  constructor
  · rintro ⟨a, ha, b, hb, rfl⟩; exact ⟨a, b, ha, hb, rfl⟩
  · rintro ⟨a, b, ha, hb, rfl⟩; exact ⟨a, ha, b, hb, rfl⟩

end Value

open Value

theorem encode_described {d v : Value} {bs : List UInt8} :
    (Value.described d v).encode = .ok bs ↔ ∃ a b, checkDescriptor d = .ok () ∧
      d.encode = .ok a ∧ v.encode = .ok b ∧ bs = Code.described.toByte :: a ++ b := by
  simp only [encode, bind_eq_ok, pure, Except.pure, Except.ok.injEq]
  constructor
  · rintro ⟨⟨⟩, hd, a, ha, b, hb, rfl⟩; exact ⟨a, b, hd, ha, hb, rfl⟩
  · rintro ⟨a, b, hd, ha, hb, rfl⟩; exact ⟨(), hd, a, ha, b, hb, rfl⟩

theorem encode_describedRef (d v : Value) :
    (Value.describedRef d v).encode = (Value.described d v).encode := rfl

/-- A descriptor the writer takes is a number or a symbol, no described value. -/
theorem checkDescriptor_not_described {d : Value} (h : checkDescriptor d = .ok ()) :
    (∀ a x, d ≠ .described a x) ∧ ∀ a x, d ≠ .describedRef a x := by
  constructor <;> intro a x hd <;> rw [hd] at h <;> simp [checkDescriptor] at h

/-- A value written within the reader's guard for a whole value meets the guard in each of its
parts. -/
theorem Value.SizesFit.of_length {v : Value} {bs : List UInt8} (h : v.encode = .ok bs)
    (hl : bs.length ≤ 5 + (2 ^ 31 - 1)) : v.SizesFit := by
  cases v
  case described d x =>
    obtain ⟨a, b, -, ha, hb, rfl⟩ := encode_described.mp h
    simp only [List.length_cons, List.length_append] at hl
    exact ⟨Value.SizesFit.of_length ha (by omega), Value.SizesFit.of_length hb (by omega)⟩
  case describedRef d x =>
    obtain ⟨a, b, -, ha, hb, rfl⟩ := encode_described.mp (encode_describedRef d x ▸ h)
    simp only [List.length_cons, List.length_append] at hl
    exact ⟨Value.SizesFit.of_length ha (by omega), Value.SizesFit.of_length hb (by omega)⟩
  all_goals exact (sizesFit_iff (by simp) (by simp)).mpr fun bs' h' =>
    Except.ok.inj (h.symm.trans h') ▸ hl

/-- Every encoding of the value whose sizes the reader takes, followed by anything, reads back
as a value with the same encoding. -/
def RoundTrips (v : Value) : Prop :=
  ∀ bs, v.encode = .ok bs → v.SizesFit → ∀ tail,
    ∃ v', Yields (readValue (bs ++ tail)) v' tail ∧ v'.encode = .ok bs

/-- The same for the value's body under an array's element constructor. -/
def RoundTripsAs (code : UInt8) (v : Value) : Prop :=
  ∀ body, elementBody code v = .ok body → body.length < 2 ^ 31 → ∀ tail,
    ∃ v', Yields (readBody code (body ++ tail)) v' tail ∧ elementBody code v' = .ok body

/-! ## Runs of items -/

/-- Items that each read back read back one after another, as many as were written. -/
theorem readItems_encodeAll : ∀ {items : List Value}, (∀ v ∈ items, RoundTrips v) →
    ∀ {body : List UInt8}, encodeAll items = .ok body → body.length < 2 ^ 31 → ∀ tail,
    ∃ items', Yields (readItems items.length (body ++ tail)) items' tail ∧
      encodeAll items' = .ok body ∧ items'.length = items.length
  | [], _, body, h, _, tail => by
    obtain rfl : [] = body := Except.ok.inj h
    exact ⟨[], readItems_zero tail, rfl, rfl⟩
  | v :: rest, hv, body, h, hl, tail => by
    obtain ⟨a, b, ha, hb, rfl⟩ := encodeAll_cons.mp h
    simp only [List.length_append] at hl
    obtain ⟨v', hv', ev'⟩ := hv v (.head _) a ha (.of_length ha (by omega)) (b ++ tail)
    obtain ⟨items', hi, ei, li⟩ :=
      readItems_encodeAll (fun w hw => hv w (.tail _ hw)) hb (by omega) tail
    refine ⟨v' :: items', ?_, encodeAll_cons.mpr ⟨a, b, ev', ei, rfl⟩, by simp [li]⟩
    rw [List.append_assoc]
    exact readItems_succ hv' hi

/-- Entries whose keys and values read back read back one after another. -/
theorem readEntries_encodeEntries : ∀ {entries : List (Value × Value)},
    (∀ e ∈ entries, RoundTrips e.1 ∧ RoundTrips e.2) →
    ∀ {body : List UInt8}, encodeEntries entries = .ok body → body.length < 2 ^ 31 → ∀ tail,
    ∃ entries', Yields (readEntries entries.length (body ++ tail)) entries' tail ∧
      encodeEntries entries' = .ok body ∧ entries'.length = entries.length
  | [], _, body, h, _, tail => by
    obtain rfl : [] = body := Except.ok.inj h
    exact ⟨[], readEntries_zero tail, rfl, rfl⟩
  | (k, v) :: rest, he, body, h, hl, tail => by
    obtain ⟨a, b, c, ha, hb, hc, rfl⟩ := encodeEntries_cons.mp h
    simp only [List.length_append] at hl
    obtain ⟨hk, hv⟩ := he (k, v) (.head _)
    obtain ⟨k', hk', ek'⟩ := hk a ha (.of_length ha (by omega)) (b ++ (c ++ tail))
    obtain ⟨v', hv', ev'⟩ := hv b hb (.of_length hb (by omega)) (c ++ tail)
    obtain ⟨es, hs, es_eq, ls⟩ :=
      readEntries_encodeEntries (fun e h => he e (.tail _ h)) hc (by omega) tail
    refine ⟨(k', v') :: es, ?_, encodeEntries_cons.mpr ⟨a, b, c, ek', ev', es_eq, rfl⟩,
      by simp [ls]⟩
    rw [List.append_assoc, List.append_assoc]
    exact readEntries_succ hk' hv' hs

/-- Bodies that each read back under one constructor read back one after another. -/
theorem readElements_elementBodies {code : UInt8} : ∀ {items : List Value},
    (∀ v ∈ items, RoundTripsAs code v) →
    ∀ {body : List UInt8}, elementBodies code items = .ok body → body.length < 2 ^ 31 → ∀ tail,
    ∃ items', Yields (readElements code items.length (body ++ tail)) items' tail ∧
      elementBodies code items' = .ok body ∧ items'.length = items.length
  | [], _, body, h, _, tail => by
    obtain rfl : [] = body := Except.ok.inj h
    exact ⟨[], readElements_zero code tail, rfl, rfl⟩
  | v :: rest, hv, body, h, hl, tail => by
    obtain ⟨a, b, ha, hb, rfl⟩ := elementBodies_cons.mp h
    simp only [List.length_append] at hl
    obtain ⟨v', hv', ev'⟩ := hv v (.head _) a ha (by omega) (b ++ tail)
    obtain ⟨items', hi, ei, li⟩ :=
      readElements_elementBodies (fun w hw => hv w (.tail _ hw)) hb (by omega) tail
    refine ⟨v' :: items', ?_, elementBodies_cons.mpr ⟨a, b, ev', ei, rfl⟩, by simp [li]⟩
    rw [List.append_assoc]
    exact readElements_succ hv' hi

/-! ## Scalars and described values -/

/-- A scalar reads back as itself from its bytes. -/
theorem readValue_writeScalar {v : Value} {bs : List UInt8} (h : v.writeScalar = .ok bs)
    (hl : bs.length ≤ 5 + (2 ^ 31 - 1)) (tail : List UInt8) :
    Yields (readValue (bs ++ tail)) v tail := by
  unfold writeScalar at h
  split at h
  · rename_i c _
    cases hb : v.scalarBody c with
    | error e => simp [hb, Functor.map, Except.map] at h
    | ok body =>
      simp only [hb, Functor.map, Except.map, Except.ok.injEq] at h
      subst h
      exact readValue_cons (readBody_scalarBody hb (by simp at hl; omega) tail)
  · simp at h

theorem RoundTrips.of_writeScalar {v : Value} (hv : v.encode = v.writeScalar)
    (hd : ∀ d x, v ≠ .described d x) (hr : ∀ d x, v ≠ .describedRef d x) : RoundTrips v :=
  fun _ h hl tail => ⟨v, readValue_writeScalar (hv ▸ h) (hl.length_le hd hr h) tail, h⟩

/-- An element written through its scalar body reads back as itself. -/
theorem readBody_of_scalarBody {code : UInt8} {v : Value} {c : Code} (hc : Code.ofByte? code = some c)
    {body : List UInt8} (h : v.scalarBody c = .ok body) (h0 : elementBody code v = .ok body)
    (hl : body.length < 2 ^ 31) (tail : List UInt8) :
    ∃ v', Yields (readBody code (body ++ tail)) v' tail ∧ elementBody code v' = .ok body := by
  refine ⟨v, ?_, h0⟩
  rw [← Code.toByte_of_ofByte? hc]
  exact readBody_scalarBody h (by omega) tail

/-- A value that is no list, map or array is an element only through its scalar body, and so
reads back as itself. -/
theorem RoundTripsAs.leaf {v : Value} (hl : ∀ items, v ≠ .list items) (hm : ∀ es, v ≠ .map es)
    (ht : ∀ fs, v ≠ .textMap fs) (ha : ∀ d c items, v ≠ .array d c items) (code : UInt8) :
    RoundTripsAs code v := by
  intro body h hlen tail
  have h0 := h
  unfold elementBody at h
  split at h <;> first
    | (simp at h; done)
    | (exact absurd rfl (hl _))
    | (exact absurd rfl (hm _))
    | (exact absurd rfl (ht _))
    | (exact absurd rfl (ha _ _ _))
    | exact readBody_of_scalarBody ‹_› h h0 hlen tail

theorem checkDescriptor_ok {d : Value} (h : checkDescriptor d = .ok ()) :
    d.encode = d.writeScalar := by
  unfold checkDescriptor at h
  split at h <;> first | rfl | simp at h

/-- A described value reads back as the same descriptor held with the value read back. -/
theorem RoundTrips.described {d v : Value} (hv : RoundTrips v) : RoundTrips (.described d v) := by
  intro bs h hl tail
  obtain ⟨a, b, hd, ha, hb, rfl⟩ := encode_described.mp h
  obtain ⟨hds, hvs⟩ := hl
  have hnd := checkDescriptor_not_described hd
  have hd' := readValue_writeScalar (checkDescriptor_ok hd ▸ ha) (hds.length_le hnd.1 hnd.2 ha)
    (b ++ tail)
  obtain ⟨v', hv', ev'⟩ := hv b hb hvs tail
  refine ⟨.describedRef d v', ?_, ?_⟩
  · -- the descriptor mark, then the descriptor and the value one after the other
    rw [List.cons_append, List.cons_append, List.append_assoc]
    exact readValue_cons (readBody_described hd' hd hv')
  · rw [encode_describedRef]
    exact encode_described.mpr ⟨a, b, hd, ha, ev', rfl⟩

theorem RoundTrips.describedRef {d v : Value} (hv : RoundTrips v) :
    RoundTrips (.describedRef d v) := by
  intro bs h
  rw [encode_describedRef] at h
  exact RoundTrips.described hv bs h

/-- An absent reference is written as null and reads back as null. -/
theorem RoundTrips.nullRef : RoundTrips .nullRef := by
  intro bs h _ tail
  obtain rfl : [Code.null.toByte] = bs := Except.ok.inj h
  exact ⟨.null, readValue_cons (readBody_scalarBody (c := .null) (v := .null) rfl (by decide) tail), rfl⟩

/-- The entries of a map keyed by text, written in key order, read back as entries with the
same bytes: each key as a string, each value as a value with the bytes it was written as. -/
theorem readEntries_fieldsBody {fields : List (String × Written)}
    (hf : ∀ x ∈ fields, ∃ v, x.2 = v.encode ∧ RoundTrips v) {body : List UInt8}
    (h : fieldsBody fields = .ok body) (hl : body.length < 2 ^ 31) (tail : List UInt8) :
    ∃ entries, Yields (readEntries fields.length (body ++ tail)) entries tail ∧
      encodeEntries entries = .ok body ∧ entries.length = fields.length := by
  unfold fieldsBody at h
  dsimp only at h
  have hperm := List.mergeSort_perm fields (fun a b => decide (a.1 ≤ b.1))
  rw [← hperm.length_eq]
  have hs : ∀ x ∈ fields.mergeSort (fun a b => decide (a.1 ≤ b.1)),
      ∃ v, x.2 = v.encode ∧ RoundTrips v := fun x hx => hf x (hperm.mem_iff.mp hx)
  generalize fields.mergeSort (fun a b => decide (a.1 ≤ b.1)) = sorted at h hs
  induction sorted generalizing body tail with
  | nil =>
    obtain rfl : [] = body := Except.ok.inj h
    exact ⟨[], readEntries_zero tail, rfl, rfl⟩
  | cons x sorted ih =>
    obtain ⟨k, w⟩ := x
    obtain ⟨v, rfl, hv⟩ := hs (k, w) (.head _)
    simp only [List.foldr_cons, bind_eq_ok, pure, Except.pure, Except.ok.injEq] at h
    obtain ⟨kb, hk, vb, hvb, rb, hrb, rfl⟩ := h
    simp only [List.length_append] at hl
    have hk' := readValue_writeScalar hk (by omega) (vb ++ (rb ++ tail))
    obtain ⟨v', hv', ev'⟩ := hv vb hvb (.of_length hvb (by omega)) (rb ++ tail)
    obtain ⟨es, hes, ees, les⟩ := ih (by omega) tail hrb (fun x hx => hs x (.tail _ hx))
    refine ⟨(Value.ofText k, v') :: es, ?_, encodeEntries_cons.mpr ⟨kb, vb, rb, hk, ev', ees, rfl⟩,
      by simp [les]⟩
    rw [List.append_assoc, List.append_assoc]
    exact readEntries_succ hk' hv' hes

/-! ## Compounds -/

theorem length_compound (short : Bool) (body : List UInt8) (count : Nat) :
    (compound short body count).length = body.length + if short then 2 else 8 := by
  cases short <;> simp [compound]; omega

/-- A compound laid out after its constructor in at most 4 + (2^31 - 1) bytes has a size field
the reader takes. -/
theorem size_lt_of_compound {short : Bool} {body : List UInt8} {count : Nat}
    (hs : short = true → fitsShort body.length count = true)
    (hl : (compound short body count).length ≤ 4 + (2 ^ 31 - 1)) : body.length + 4 < 2 ^ 31 := by
  rw [length_compound] at hl
  cases short with
  | false => simp at hl; omega
  | true =>
    have := hs rfl
    simp only [fitsShort, Bool.and_eq_true, decide_eq_true_eq] at this
    omega

theorem sized_ok {code : UInt8} {short : Bool} {body out : List UInt8} {count : Nat} :
    sized code short body count = .ok out ↔
      (short = true → fitsShort body.length count = true) ∧ out = compound short body count := by
  unfold sized
  split
  · rename_i hs
    simp only [Bool.and_eq_true, Bool.not_eq_eq_eq_not, Bool.not_true] at hs
    simp only [reduceCtorEq, false_iff, not_and]
    intro h
    simp [h hs.1] at hs
  · rename_i hs
    simp only [Bool.and_eq_true, Bool.not_eq_eq_eq_not, Bool.not_true, not_and] at hs
    simp only [Except.ok.injEq]
    constructor
    · rintro rfl
      exact ⟨fun h => by simpa using hs h, rfl⟩
    · rintro ⟨-, rfl⟩; rfl

/-- The compound of a list reads back as a list of items with the same bytes. -/
theorem readList_encodeAll {items : List Value} (hv : ∀ v ∈ items, RoundTrips v)
    (hn : items.length ≤ 2 ^ 24) {body : List UInt8} (hb : encodeAll items = .ok body)
    {short : Bool} (hs : short = true → fitsShort body.length items.length = true)
    (hl : body.length + 4 < 2 ^ 31) (tail : List UInt8) :
    ∃ items', Yields (readList short (compound short body items.length ++ tail)) (.list items') tail ∧
      encodeAll items' = .ok body ∧ items'.length = items.length := by
  obtain ⟨items', hi, ei, li⟩ := readItems_encodeAll hv hb (by omega) []
  rw [List.append_nil] at hi
  obtain ⟨h1, h2, hc⟩ := readCompound_compound hs hl hn tail
  exact ⟨items', readList_of_items hc hi, ei, li⟩

theorem encode_list_cons {v : Value} {rest : List Value} {bs : List UInt8} :
    (Value.list (v :: rest)).encode = .ok bs ↔
      ∃ body, encodeAll (v :: rest) = .ok body ∧
        bs = narrowest .list8 .list32 body (v :: rest).length := by
  simp only [encode, List.isEmpty_cons, Bool.false_eq_true, if_false, bind_eq_ok, pure,
    Except.pure, Except.ok.injEq]
  constructor
  · rintro ⟨body, hb, rfl⟩; exact ⟨body, hb, rfl⟩
  · rintro ⟨body, hb, rfl⟩; exact ⟨body, hb, rfl⟩

/-- A list reads back as a list of items with the same bytes. -/
theorem RoundTrips.list {items : List Value} (hv : ∀ v ∈ items, RoundTrips v)
    (hn : items.length ≤ 2 ^ 24) : RoundTrips (.list items) := by
  intro bs h hl tail
  cases items with
  | nil =>
    obtain rfl : [Code.list0.toByte] = bs := Except.ok.inj h
    exact ⟨.list [], readValue_cons (readBody_scalarBody
      (rfl : (Value.list []).scalarBody .list0 = .ok []) (by decide) tail), rfl⟩
  | cons v rest =>
    obtain ⟨body, hb, rfl⟩ := encode_list_cons.mp h
    have hlen := hl.length_le (by simp) (by simp) h
    dsimp only [narrowest] at hlen ⊢
    have hc : (compound (fitsShort body.length (v :: rest).length) body (v :: rest).length).length ≤
        4 + (2 ^ 31 - 1) := by rw [List.length_cons] at hlen; omega
    obtain ⟨items', hr, ei, li⟩ :=
      readList_encodeAll hv hn hb (fun hs => hs) (size_lt_of_compound (fun hs => hs) hc) tail
    refine ⟨.list items', readValue_cons ?_, ?_⟩
    · rw [readBody_list]; exact hr
    · cases items' with
      | nil => simp at li
      | cons v' rest' => exact encode_list_cons.mpr ⟨body, ei, by rw [li]; rfl⟩

/-- A list is an element through one of the list constructors, or through its scalar body. -/
theorem elementBody_list (code : UInt8) (items : List Value) :
    elementBody code (.list items) = match Code.ofByte? code with
      | some .list8 => do let body ← encodeAll items; sized code true body items.length
      | some .list32 => do let body ← encodeAll items; sized code false body items.length
      | some c => scalarBody c (.list items)
      | none => .error (.unknownType code) := by
  unfold elementBody
  rcases Code.ofByte? code with _ | c
  · rfl
  · cases c <;> rfl

/-- A list under either list constructor reads back as a list with the same body. -/
theorem readBody_listElement {items : List Value} (hv : ∀ v ∈ items, RoundTrips v)
    (hn : items.length ≤ 2 ^ 24) {code : UInt8} (short : Bool)
    (hc : Code.ofByte? code = some (if short then .list8 else .list32)) {body : List UInt8}
    (h : (do let b ← encodeAll items; sized code short b items.length) = .ok body)
    (hl : body.length < 2 ^ 31) (tail : List UInt8) :
    ∃ v', Yields (readBody code (body ++ tail)) v' tail ∧ elementBody code v' = .ok body := by
  obtain ⟨b, hb, hsized⟩ := bind_eq_ok.mp h
  obtain ⟨hs, rfl⟩ := sized_ok.mp hsized
  obtain ⟨items', hr, ei, li⟩ := readList_encodeAll hv hn hb hs (size_lt_of_compound hs (by omega)) tail
  refine ⟨.list items', ?_, ?_⟩
  · rw [← Code.toByte_of_ofByte? hc, readBody_list]
    exact hr
  · rw [elementBody_list, hc, li]
    cases short <;> exact bind_eq_ok.mpr ⟨b, ei, sized_ok.mpr ⟨hs, rfl⟩⟩

theorem RoundTripsAs.list {items : List Value} (hv : ∀ v ∈ items, RoundTrips v)
    (hn : items.length ≤ 2 ^ 24) (code : UInt8) : RoundTripsAs code (.list items) := by
  intro body h hl tail
  have h0 := h
  rw [elementBody_list] at h
  split at h
  · exact readBody_listElement hv hn true ‹_› h hl tail
  · exact readBody_listElement hv hn false ‹_› h hl tail
  · exact readBody_of_scalarBody ‹_› h h0 hl tail
  · simp at h

/-- The compound of a map reads back as a map of entries with the same bytes. -/
theorem readMap_encodeEntries {entries : List (Value × Value)}
    (he : ∀ e ∈ entries, RoundTrips e.1 ∧ RoundTrips e.2) (hn : 2 * entries.length ≤ 2 ^ 24)
    {body : List UInt8} (hb : encodeEntries entries = .ok body) {short : Bool}
    (hs : short = true → fitsShort body.length (2 * entries.length) = true)
    (hl : body.length + 4 < 2 ^ 31) (tail : List UInt8) :
    ∃ entries', Yields (readMap short (compound short body (2 * entries.length) ++ tail))
      (.map entries') tail ∧ encodeEntries entries' = .ok body ∧ entries'.length = entries.length := by
  obtain ⟨es, hi, ei, li⟩ := readEntries_encodeEntries he hb (by omega) []
  rw [List.append_nil] at hi
  obtain ⟨h1, h2, hc⟩ := readCompound_compound hs hl hn tail
  exact ⟨es, readMap_of_entries hc hi, ei, li⟩

theorem encodeFields_eq_map : ∀ fields : List (String × Value),
    encodeFields fields = fields.map fun f => (f.1, f.2.encode)
  | [] => rfl
  | (k, v) :: rest => by rw [encodeFields, encodeFields_eq_map rest]; rfl

/-- The compound of a map keyed by text reads back as a map of entries with the same bytes. -/
theorem readMap_fieldsBody {fields : List (String × Value)} (hf : ∀ f ∈ fields, RoundTrips f.2)
    (hn : 2 * fields.length ≤ 2 ^ 24) {body : List UInt8}
    (hb : fieldsBody (encodeFields fields) = .ok body) {short : Bool}
    (hs : short = true → fitsShort body.length (2 * fields.length) = true)
    (hl : body.length + 4 < 2 ^ 31) (tail : List UInt8) :
    ∃ entries, Yields (readMap short (compound short body (2 * fields.length) ++ tail))
      (.map entries) tail ∧ encodeEntries entries = .ok body ∧ entries.length = fields.length := by
  have hw : ∀ x ∈ encodeFields fields, ∃ v, x.2 = v.encode ∧ RoundTrips v := by
    intro x hx
    rw [encodeFields_eq_map, List.mem_map] at hx
    obtain ⟨f, hf', rfl⟩ := hx
    exact ⟨f.2, rfl, hf f hf'⟩
  obtain ⟨es, hi, ei, li⟩ := readEntries_fieldsBody hw hb (by omega) []
  rw [List.append_nil, encodeFields_eq_map, List.length_map] at hi
  rw [encodeFields_eq_map, List.length_map] at li
  obtain ⟨h1, h2, hc⟩ := readCompound_compound hs hl hn tail
  exact ⟨es, readMap_of_entries hc hi, ei, li⟩

theorem encode_map {entries : List (Value × Value)} {bs : List UInt8} :
    (Value.map entries).encode = .ok bs ↔ ∃ body, encodeEntries entries = .ok body ∧
      bs = narrowest .map8 .map32 body (2 * entries.length) := by
  simp only [encode, bind_eq_ok, pure, Except.pure, Except.ok.injEq]
  constructor
  · rintro ⟨body, hb, rfl⟩; exact ⟨body, hb, rfl⟩
  · rintro ⟨body, hb, rfl⟩; exact ⟨body, hb, rfl⟩

theorem encode_textMap {fields : List (String × Value)} {bs : List UInt8} :
    (Value.textMap fields).encode = .ok bs ↔ ∃ body, fieldsBody (encodeFields fields) = .ok body ∧
      bs = narrowest .map8 .map32 body (2 * fields.length) := by
  simp only [encode, bind_eq_ok, pure, Except.pure, Except.ok.injEq]
  constructor
  · rintro ⟨body, hb, rfl⟩; exact ⟨body, hb, rfl⟩
  · rintro ⟨body, hb, rfl⟩; exact ⟨body, hb, rfl⟩

/-- A map reads back as a map with the same bytes. -/
theorem RoundTrips.map {entries : List (Value × Value)}
    (he : ∀ e ∈ entries, RoundTrips e.1 ∧ RoundTrips e.2) (hn : 2 * entries.length ≤ 2 ^ 24) :
    RoundTrips (.map entries) := by
  intro bs h hl tail
  obtain ⟨body, hb, rfl⟩ := encode_map.mp h
  have hlen := hl.length_le (by simp) (by simp) h
  dsimp only [narrowest] at hlen ⊢
  have hc : (compound (fitsShort body.length (2 * entries.length)) body
      (2 * entries.length)).length ≤ 4 + (2 ^ 31 - 1) := by rw [List.length_cons] at hlen; omega
  obtain ⟨es, hr, ee, le⟩ :=
    readMap_encodeEntries he hn hb (fun hs => hs) (size_lt_of_compound (fun hs => hs) hc) tail
  refine ⟨.map es, readValue_cons ?_, encode_map.mpr ⟨body, ee, by rw [le]; rfl⟩⟩
  rw [readBody_map]
  exact hr

/-- A map keyed by text reads back as a map, in key order, with the same bytes. -/
theorem RoundTrips.textMap {fields : List (String × Value)} (hf : ∀ f ∈ fields, RoundTrips f.2)
    (hn : 2 * fields.length ≤ 2 ^ 24) : RoundTrips (.textMap fields) := by
  intro bs h hl tail
  obtain ⟨body, hb, rfl⟩ := encode_textMap.mp h
  have hlen := hl.length_le (by simp) (by simp) h
  dsimp only [narrowest] at hlen ⊢
  have hc : (compound (fitsShort body.length (2 * fields.length)) body
      (2 * fields.length)).length ≤ 4 + (2 ^ 31 - 1) := by rw [List.length_cons] at hlen; omega
  obtain ⟨es, hr, ee, le⟩ :=
    readMap_fieldsBody hf hn hb (fun hs => hs) (size_lt_of_compound (fun hs => hs) hc) tail
  refine ⟨.map es, readValue_cons ?_, encode_map.mpr ⟨body, ee, by rw [le]; rfl⟩⟩
  rw [readBody_map]
  exact hr

/-- A map is an element through one of the map constructors, or through its scalar body. -/
theorem elementBody_map (code : UInt8) (entries : List (Value × Value)) :
    elementBody code (.map entries) = match Code.ofByte? code with
      | some .map8 => do let body ← encodeEntries entries; sized code true body (2 * entries.length)
      | some .map32 => do let body ← encodeEntries entries; sized code false body (2 * entries.length)
      | some c => scalarBody c (.map entries)
      | none => .error (.unknownType code) := by
  unfold elementBody
  rcases Code.ofByte? code with _ | c
  · rfl
  · cases c <;> rfl

theorem elementBody_textMap (code : UInt8) (fields : List (String × Value)) :
    elementBody code (.textMap fields) = match Code.ofByte? code with
      | some .map8 => do
        let body ← fieldsBody (encodeFields fields); sized code true body (2 * fields.length)
      | some .map32 => do
        let body ← fieldsBody (encodeFields fields); sized code false body (2 * fields.length)
      | some c => scalarBody c (.textMap fields)
      | none => .error (.unknownType code) := by
  unfold elementBody
  rcases Code.ofByte? code with _ | c
  · rfl
  · cases c <;> rfl

/-- Entries read back under a map constructor form a map with the same body under it. -/
theorem elementBody_map_of_entries {code : UInt8} {short : Bool}
    (hc : Code.ofByte? code = some (if short then .map8 else .map32)) {entries : List (Value × Value)}
    {b : List UInt8} (hb : encodeEntries entries = .ok b)
    (hs : short = true → fitsShort b.length (2 * entries.length) = true) :
    elementBody code (.map entries) = .ok (compound short b (2 * entries.length)) := by
  rw [elementBody_map, hc]
  cases short <;> exact bind_eq_ok.mpr ⟨b, hb, sized_ok.mpr ⟨hs, rfl⟩⟩

theorem readBody_mapElement {entries : List (Value × Value)}
    (he : ∀ e ∈ entries, RoundTrips e.1 ∧ RoundTrips e.2) (hn : 2 * entries.length ≤ 2 ^ 24)
    {code : UInt8} (short : Bool) (hc : Code.ofByte? code = some (if short then .map8 else .map32))
    {body : List UInt8}
    (h : (do let b ← encodeEntries entries; sized code short b (2 * entries.length)) = .ok body)
    (hl : body.length < 2 ^ 31) (tail : List UInt8) :
    ∃ v', Yields (readBody code (body ++ tail)) v' tail ∧ elementBody code v' = .ok body := by
  obtain ⟨b, hb, hsized⟩ := bind_eq_ok.mp h
  obtain ⟨hs, rfl⟩ := sized_ok.mp hsized
  obtain ⟨es, hr, ee, le⟩ := readMap_encodeEntries he hn hb hs (size_lt_of_compound hs (by omega)) tail
  refine ⟨.map es, ?_, ?_⟩
  · rw [← Code.toByte_of_ofByte? hc, readBody_map]
    exact hr
  · rw [← le] at hs ⊢
    exact elementBody_map_of_entries hc ee hs

theorem readBody_textMapElement {fields : List (String × Value)}
    (hf : ∀ f ∈ fields, RoundTrips f.2) (hn : 2 * fields.length ≤ 2 ^ 24)
    {code : UInt8} (short : Bool) (hc : Code.ofByte? code = some (if short then .map8 else .map32))
    {body : List UInt8}
    (h : (do let b ← fieldsBody (encodeFields fields); sized code short b (2 * fields.length)) =
      .ok body)
    (hl : body.length < 2 ^ 31) (tail : List UInt8) :
    ∃ v', Yields (readBody code (body ++ tail)) v' tail ∧ elementBody code v' = .ok body := by
  obtain ⟨b, hb, hsized⟩ := bind_eq_ok.mp h
  obtain ⟨hs, rfl⟩ := sized_ok.mp hsized
  obtain ⟨es, hr, ee, le⟩ := readMap_fieldsBody hf hn hb hs (size_lt_of_compound hs (by omega)) tail
  refine ⟨.map es, ?_, ?_⟩
  · rw [← Code.toByte_of_ofByte? hc, readBody_map]
    exact hr
  · rw [← le] at hs ⊢
    exact elementBody_map_of_entries hc ee hs

theorem RoundTripsAs.map {entries : List (Value × Value)}
    (he : ∀ e ∈ entries, RoundTrips e.1 ∧ RoundTrips e.2) (hn : 2 * entries.length ≤ 2 ^ 24)
    (code : UInt8) : RoundTripsAs code (.map entries) := by
  intro body h hl tail
  have h0 := h
  rw [elementBody_map] at h
  split at h
  · exact readBody_mapElement he hn true ‹_› h hl tail
  · exact readBody_mapElement he hn false ‹_› h hl tail
  · exact readBody_of_scalarBody ‹_› h h0 hl tail
  · simp at h

theorem RoundTripsAs.textMap {fields : List (String × Value)} (hf : ∀ f ∈ fields, RoundTrips f.2)
    (hn : 2 * fields.length ≤ 2 ^ 24) (code : UInt8) : RoundTripsAs code (.textMap fields) := by
  intro body h hl tail
  have h0 := h
  rw [elementBody_textMap] at h
  split at h
  · exact readBody_textMapElement hf hn true ‹_› h hl tail
  · exact readBody_textMapElement hf hn false ‹_› h hl tail
  · exact readBody_of_scalarBody ‹_› h h0 hl tail
  · simp at h

/-! ## Arrays -/

/-- Widening keeps a constructor other than the descriptor mark away from the mark. -/
theorem widen_ne_described {b : UInt8} (h : b ≠ Code.described.toByte) :
    widen b ≠ Code.described.toByte := by
  unfold widen
  split
  · rename_i c hc
    have hb := Code.toByte_of_ofByte? hc
    subst hb
    cases c <;> first | exact absurd rfl h | decide
  · exact h

/-- What is known of the element constructor never records the descriptor mark. -/
def NoMark (st : ElementState) : Prop := ∀ c f r, st = some (c, f, r) → c ≠ Code.described.toByte

theorem elementStep_noMark {st st' : ElementState} {b : UInt8} (hst : NoMark st)
    (h : elementStep st b = .ok st') : NoMark st' := by
  by_cases hb : b = Code.described.toByte
  · simp [elementStep, hb] at h
  have hw := widen_ne_described hb
  simp only [elementStep, hb, if_false] at h
  intro c f r hc
  subst hc
  -- the new code is the widened one or the one recorded before
  cases st with
  | none =>
    simp only [Except.ok.injEq, Option.some.injEq, Prod.mk.injEq] at h
    exact h.1 ▸ hw
  | some p =>
    obtain ⟨code, family, rank⟩ := p
    simp only at h
    repeat' split at h
    all_goals first
      | (simp at h; done)
      | (simp only [Except.ok.injEq, Option.some.injEq, Prod.mk.injEq] at h
         first | exact h.1 ▸ hw | exact h.1 ▸ hst code family rank rfl)

/-- An array never chooses the descriptor mark as its element constructor. -/
theorem elementCode_ne_described : ∀ {st : ElementState} {items : List Value} {c : UInt8},
    NoMark st → elementCode st items = .ok c → c ≠ Code.described.toByte
  | none, [], c, _, h => by
    obtain rfl : Code.null.toByte = c := Except.ok.inj h
    decide
  | some (c', f, r), [], c, hst, h => by
    obtain rfl : c' = c := Except.ok.inj h
    exact hst c' f r rfl
  | st, v :: rest, c, hst, h => by
    have step : ∀ b, (do let st ← elementStep st b; elementCode st rest) = .ok c →
        c ≠ Code.described.toByte := by
      intro b hb
      obtain ⟨st', hstep, hc⟩ := bind_eq_ok.mp hb
      exact elementCode_ne_described (elementStep_noMark hst hstep) hc
    rw [elementCode] at h
    split at h
    · simp only [pure_bind] at h
      exact step _ h
    · obtain ⟨bs, -, h⟩ := bind_eq_ok.mp h
      simp only [pure_bind] at h
      exact step _ h

theorem arrayContent_ok {given : UInt8} {choose : Unit → Except CodecError UInt8}
    {descriptor : Written} {bodies : UInt8 → Written} {content : List UInt8} :
    arrayContent given choose descriptor bodies = .ok content ↔
      ∃ code d bs, (if given = 0 then choose () else pure given) = .ok code ∧
        descriptor = .ok d ∧ bodies code = .ok bs ∧ content = d ++ code :: bs := by
  unfold arrayContent
  by_cases hg : given = 0
  · simp only [hg, if_true, bind_eq_ok, pure, Except.pure, Except.ok.injEq]
    constructor
    · rintro ⟨code, hc, d, hd, bs, hb, rfl⟩; exact ⟨code, d, bs, hc, hd, hb, rfl⟩
    · rintro ⟨code, d, bs, hc, hd, hb, rfl⟩; exact ⟨code, hc, d, hd, bs, hb, rfl⟩
  · simp only [hg, if_false, bind_eq_ok, pure, Except.pure, Except.ok.injEq]
    constructor
    · rintro ⟨code, hc, d, hd, bs, hb, rfl⟩; exact ⟨code, d, bs, hc, hd, hb, rfl⟩
    · rintro ⟨code, d, bs, hc, hd, hb, rfl⟩; exact ⟨code, hc, d, hd, bs, hb, rfl⟩

theorem encodeDescriptor_ok {d : Option Value} {out : List UInt8} :
    encodeDescriptor d = .ok out ↔ (d = none ∧ out = []) ∨
      ∃ d0 dd, d = some d0 ∧ checkDescriptor d0 = .ok () ∧ d0.encode = .ok dd ∧
        out = Code.described.toByte :: dd := by
  cases d with
  | none =>
    simp only [encodeDescriptor, Except.ok.injEq, true_and, reduceCtorEq, false_and, exists_false,
      or_false]
    exact eq_comm
  | some d0 =>
    simp only [encodeDescriptor, bind_eq_ok, pure, Except.pure, Except.ok.injEq, reduceCtorEq,
      false_and, Option.some.injEq, false_or]
    constructor
    · rintro ⟨⟨⟩, hc, dd, hd, rfl⟩; exact ⟨d0, dd, rfl, hc, hd, rfl⟩
    · rintro ⟨_, dd, rfl, hc, hd, rfl⟩; exact ⟨(), hc, dd, hd, rfl⟩

/-- An array's content reads back as the same descriptor and element constructor over items
with the same bodies. -/
theorem readArray_content {d : Option Value} {given : UInt8} {items : List Value}
    (hv : ∀ v ∈ items, ∀ code, RoundTripsAs code v) (hn : items.length ≤ 2 ^ 24)
    {content : List UInt8}
    (h : arrayContent given (fun _ => elementCode none items) (encodeDescriptor d)
      (fun code => elementBodies code items) = .ok content)
    {short : Bool} (hs : short = true → fitsShort content.length items.length = true)
    (hl : content.length + 4 < 2 ^ 31) (tail : List UInt8) :
    ∃ code items', Yields (readArray short (compound short content items.length ++ tail))
      (.array d code items') tail ∧
      arrayContent code (fun _ => elementCode none items') (encodeDescriptor d)
        (fun code => elementBodies code items') = .ok content ∧ items'.length = items.length := by
  obtain ⟨code, dbytes, bbytes, hcode, hd, hb, rfl⟩ := arrayContent_ok.mp h
  have hne : code ≠ Code.described.toByte := by
    split at hcode
    · exact elementCode_ne_described (fun _ _ _ h => by simp at h) hcode
    · obtain rfl : given = code := Except.ok.inj hcode
      assumption
  have hz : ¬code = 0 := hne
  simp only [List.length_append, List.length_cons] at hl
  obtain ⟨items', he, eb, li⟩ :=
    readElements_elementBodies (fun v hv' => hv v hv' code) hb (by omega) []
  rw [List.append_nil] at he
  have hre : arrayContent code (fun _ => elementCode none items') (encodeDescriptor d)
      (fun code => elementBodies code items') = .ok (dbytes ++ code :: bbytes) :=
    arrayContent_ok.mpr ⟨code, dbytes, bbytes, by simp [hz, pure, Except.pure], hd, eb, rfl⟩
  have hcl : (dbytes ++ code :: bbytes).length + 4 < 2 ^ 31 := by
    simp only [List.length_append, List.length_cons]; omega
  obtain ⟨h1, h2, hc⟩ := readCompound_compound hs hcl hn tail
  rcases encodeDescriptor_ok.mp hd with ⟨rfl, rfl⟩ | ⟨d0, dd, rfl, hchk, hdd, rfl⟩
  · exact ⟨code, items', readArray_of_elements hc hne he, hre, li⟩
  · simp only [List.length_cons] at hl
    have hdr := readValue_writeScalar (checkDescriptor_ok hchk ▸ hdd) (by omega) (code :: bbytes)
    exact ⟨code, items', readArray_of_descriptor hc hdr hchk hne he, hre, li⟩

theorem encode_array {d : Option Value} {c : UInt8} {items : List Value} {bs : List UInt8} :
    (Value.array d c items).encode = .ok bs ↔ ∃ content,
      arrayContent c (fun _ => elementCode none items) (encodeDescriptor d)
        (fun code => elementBodies code items) = .ok content ∧
      bs = narrowest .array8 .array32 content items.length := by
  simp only [encode, bind_eq_ok, pure, Except.pure, Except.ok.injEq]
  constructor
  · rintro ⟨content, hc, rfl⟩; exact ⟨content, hc, rfl⟩
  · rintro ⟨content, hc, rfl⟩; exact ⟨content, hc, rfl⟩

/-- An array reads back as an array with the same bytes: the same descriptor, the element
constructor the writer used, and items with the same bodies. -/
theorem RoundTrips.array {d : Option Value} {c : UInt8} {items : List Value}
    (hv : ∀ v ∈ items, ∀ code, RoundTripsAs code v) (hn : items.length ≤ 2 ^ 24) :
    RoundTrips (.array d c items) := by
  intro bs h hl tail
  obtain ⟨content, hc, rfl⟩ := encode_array.mp h
  have hlen := hl.length_le (by simp) (by simp) h
  dsimp only [narrowest] at hlen ⊢
  have hcl : (compound (fitsShort content.length items.length) content items.length).length ≤
      4 + (2 ^ 31 - 1) := by rw [List.length_cons] at hlen; omega
  obtain ⟨code, items', hr, ec, li⟩ :=
    readArray_content hv hn hc (fun hs => hs) (size_lt_of_compound (fun hs => hs) hcl) tail
  refine ⟨.array d code items', readValue_cons ?_, encode_array.mpr ⟨content, ec, by rw [li]; rfl⟩⟩
  rw [readBody_array]
  exact hr

/-- An array is an element through one of the array constructors, or through its scalar
body. -/
theorem elementBody_array (code : UInt8) (d : Option Value) (e : UInt8) (items : List Value) :
    elementBody code (.array d e items) = match Code.ofByte? code with
      | some .array8 => do
        let body ← arrayContent e (fun _ => elementCode none items) (encodeDescriptor d)
          (fun code => elementBodies code items)
        sized code true body items.length
      | some .array32 => do
        let body ← arrayContent e (fun _ => elementCode none items) (encodeDescriptor d)
          (fun code => elementBodies code items)
        sized code false body items.length
      | some c => scalarBody c (.array d e items)
      | none => .error (.unknownType code) := by
  unfold elementBody
  rcases Code.ofByte? code with _ | c
  · rfl
  · cases c <;> rfl

theorem readBody_arrayElement {d : Option Value} {e : UInt8} {items : List Value}
    (hv : ∀ v ∈ items, ∀ code, RoundTripsAs code v) (hn : items.length ≤ 2 ^ 24) {code : UInt8}
    (short : Bool) (hc : Code.ofByte? code = some (if short then .array8 else .array32))
    {body : List UInt8}
    (h : (do
      let b ← arrayContent e (fun _ => elementCode none items) (encodeDescriptor d)
        (fun code => elementBodies code items)
      sized code short b items.length) = .ok body)
    (hl : body.length < 2 ^ 31) (tail : List UInt8) :
    ∃ v', Yields (readBody code (body ++ tail)) v' tail ∧ elementBody code v' = .ok body := by
  obtain ⟨b, hb, hsized⟩ := bind_eq_ok.mp h
  obtain ⟨hs, rfl⟩ := sized_ok.mp hsized
  obtain ⟨c', items', hr, ec, li⟩ := readArray_content hv hn hb hs (size_lt_of_compound hs (by omega)) tail
  refine ⟨.array d c' items', ?_, ?_⟩
  · rw [← Code.toByte_of_ofByte? hc, readBody_array]
    exact hr
  · rw [elementBody_array, hc, li]
    cases short <;> exact bind_eq_ok.mpr ⟨b, ec, sized_ok.mpr ⟨hs, rfl⟩⟩

theorem RoundTripsAs.array {d : Option Value} {e : UInt8} {items : List Value}
    (hv : ∀ v ∈ items, ∀ code, RoundTripsAs code v) (hn : items.length ≤ 2 ^ 24) (code : UInt8) :
    RoundTripsAs code (.array d e items) := by
  intro body h hl tail
  have h0 := h
  rw [elementBody_array] at h
  split at h
  · exact readBody_arrayElement hv hn true ‹_› h hl tail
  · exact readBody_arrayElement hv hn false ‹_› h hl tail
  · exact readBody_of_scalarBody ‹_› h h0 hl tail
  · simp at h

/-! ## Every value -/

mutual

/-- Every value whose compounds fit reads back, alone and as an element under any
constructor. The recursion follows the value: its items, entries and fields first. -/
theorem Value.roundTrips : ∀ v : Value, v.countsFit = true →
    RoundTrips v ∧ ∀ code, RoundTripsAs code v
  | .list items, h => by
    simp only [countsFit, Bool.and_eq_true, decide_eq_true_eq] at h
    have hi := Value.roundTrips_items items h.2
    exact ⟨.list (fun v hv => (hi v hv).1) h.1, .list (fun v hv => (hi v hv).1) h.1⟩
  | .map entries, h => by
    simp only [countsFit, Bool.and_eq_true, decide_eq_true_eq] at h
    have he := Value.roundTrips_entries entries h.2
    exact ⟨.map he h.1, .map he h.1⟩
  | .textMap fields, h => by
    simp only [countsFit, Bool.and_eq_true, decide_eq_true_eq] at h
    have hf := Value.roundTrips_fields fields h.2
    exact ⟨.textMap hf h.1, .textMap hf h.1⟩
  | .array d c items, h => by
    simp only [countsFit, Bool.and_eq_true, decide_eq_true_eq] at h
    have hi := Value.roundTrips_items items h.2
    exact ⟨.array (fun v hv => (hi v hv).2) h.1.1, .array (fun v hv => (hi v hv).2) h.1.1⟩
  | .described d v, h => by
    simp only [countsFit, Bool.and_eq_true] at h
    exact ⟨.described (Value.roundTrips v h.2).1, .leaf (by simp) (by simp) (by simp) (by simp)⟩
  | .describedRef d v, h => by
    simp only [countsFit, Bool.and_eq_true] at h
    exact ⟨.describedRef (Value.roundTrips v h.2).1, .leaf (by simp) (by simp) (by simp) (by simp)⟩
  | .nullRef, _ => ⟨.nullRef, .leaf (by simp) (by simp) (by simp) (by simp)⟩
  | .null, _ | .bool _, _ | .ubyte _, _ | .ushort _, _ | .uint _, _ | .ulong _, _ | .byte _, _
  | .short _, _ | .int _, _ | .long _, _ | .float _, _ | .double _, _ | .decimal32 _, _
  | .decimal64 _, _ | .decimal128 _, _ | .char _, _ | .timestamp _, _ | .uuid _, _
  | .binary _, _ | .string _, _ | .symbol _, _ | .foreign _, _ =>
    ⟨.of_writeScalar rfl (by simp) (by simp), .leaf (by simp) (by simp) (by simp) (by simp)⟩

theorem Value.roundTrips_items : ∀ items : List Value, itemsFit items = true →
    ∀ v ∈ items, RoundTrips v ∧ ∀ code, RoundTripsAs code v
  | [], _ => fun _ hv => absurd hv List.not_mem_nil
  | v :: rest, h => by
    simp only [itemsFit, Bool.and_eq_true] at h
    intro w hw
    rcases List.mem_cons.mp hw with hw | hw
    · exact hw ▸ Value.roundTrips v h.1
    · exact Value.roundTrips_items rest h.2 w hw

theorem Value.roundTrips_entries : ∀ entries : List (Value × Value), entriesFit entries = true →
    ∀ e ∈ entries, RoundTrips e.1 ∧ RoundTrips e.2
  | [], _ => fun _ he => absurd he List.not_mem_nil
  | (k, v) :: rest, h => by
    simp only [entriesFit, Bool.and_eq_true] at h
    intro e he
    rcases List.mem_cons.mp he with he | he
    · exact he ▸ ⟨(Value.roundTrips k h.1.1).1, (Value.roundTrips v h.1.2).1⟩
    · exact Value.roundTrips_entries rest h.2 e he

theorem Value.roundTrips_fields : ∀ fields : List (String × Value), fieldsFit fields = true →
    ∀ f ∈ fields, RoundTrips f.2
  | [], _ => fun _ hf => absurd hf List.not_mem_nil
  | (k, v) :: rest, h => by
    simp only [fieldsFit, Bool.and_eq_true] at h
    intro f hf
    rcases List.mem_cons.mp hf with hf | hf
    · exact hf ▸ (Value.roundTrips v h.1).1
    · exact Value.roundTrips_fields rest h.2 f hf

end

/-- Decoding the bytes a value is written as gives a value written as those same bytes, and
takes all of them, when every list, map and array of the value declares at most 2^24 items
and every size field is at most 2^31 - 1: the reader's own two guards. -/
theorem Value.decode_encode {v : Value} {bs : List UInt8} (h : v.encode = .ok bs)
    (hc : v.countsFit = true) (hs : v.SizesFit) :
    ∃ v', decode bs = .ok (v', bs.length) ∧ v'.encode = .ok bs := by
  obtain ⟨v', hy, ev'⟩ := (Value.roundTrips v hc).1 bs h hs []
  rw [List.append_nil] at hy
  obtain ⟨_, e⟩ := hy
  exact ⟨v', by simp [decode, e], ev'⟩

/-- A list of one byte is written in five bytes and read back from them. -/
theorem decode_encode_ubyte_list :
    (Value.list [.ubyte 7]).encode = .ok [0xc0, 3, 1, 0x50, 7] ∧
      (Value.list [.ubyte 7]).countsFit = true ∧ (Value.list [.ubyte 7]).SizesFit ∧
      ∃ v', decode [0xc0, 3, 1, 0x50, 7] = .ok (v', 5) ∧ v'.encode = .ok [0xc0, 3, 1, 0x50, 7] :=
  have hs : (Value.list [.ubyte 7]).SizesFit := .of_length rfl (by decide)
  ⟨rfl, rfl, hs, @Value.decode_encode (.list [.ubyte 7]) _ rfl rfl hs⟩

theorem elementBodies_null (n : Nat) :
    elementBodies Code.null.toByte (List.replicate n .null) = .ok [] := by
  induction n with
  | zero => rfl
  | succ n ih => exact elementBodies_cons.mpr ⟨[], [], rfl, ih, rfl⟩

/-- Past the reader's limit of 2^24 items the writer still writes an array: nulls under the
null constructor take no bytes, so 2^24 + 1 of them are written in ten bytes, which the
reader refuses. -/
theorem null_array_past_item_limit :
    (Value.array none Code.null.toByte (List.replicate (2 ^ 24 + 1) .null)).encode =
        .ok [0xf0, 0, 0, 0, 5, 1, 0, 0, 1, 0x40] ∧
      decode [0xf0, 0, 0, 0, 5, 1, 0, 0, 1, 0x40] = .error (.invalidSize (.items (2 ^ 24 + 1))) := by
  refine ⟨encode_array.mpr ⟨[0x40], arrayContent_ok.mpr
    ⟨0x40, [], [], rfl, rfl, elementBodies_null _, rfl⟩, ?_⟩, ?_⟩
  · rw [List.length_replicate]
    decide
  · have hc : readCompound false [0, 0, 0, 5, 1, 0, 0, 1, 0x40] =
        .error (.invalidSize (.items (2 ^ 24 + 1))) := by
      simp [readCompound, ofBigEndian]
    rw [decode, readValue]
    simp only [readByte]
    rw [readBody]
    have hb : Code.ofByte? 0xf0 = some .array32 := rfl
    simp only [hb]
    rw [readArray, hc]
    rfl

end Courier.Amqp