import Courier.Proofs.Amqp.Canonical

/-!
# An array's element constructor

An array written without an element constructor takes one from its items. Each item offers
one, its scalar constructor or else the first byte of its encoding, and an array widens it to
the narrowest form with a body. Items must agree on a family of widths, or outside every family
on the constructor itself, and the widest offered wins. `Covers c k` says that `c` holds what
`k` holds: `k` itself, or a member of its family at least as wide.

Every item written alone has a body under the constructor chosen, with one exception: an
absent reference to a described value is written alone as null, so it offers null, and the
null constructor refuses it as a body.

- `elementCode_covers`: the constructor chosen is one an item offered and covers every item's;
- `elementBody_of_covers`: an item has a body under every constructor covering its own;
- `elementCode_sound`: so an array of items written alone is written;
- `absent_reference_array_refused`: the exception.
-/

set_option autoImplicit false

namespace Courier.Amqp

open Courier.Bytes Value

/-! ## Families of widths -/

/-- A family has one member of each rank. -/
theorem Code.eq_of_family {a b : Code} {p : Nat × Nat} (ha : a.family = some p)
    (hb : b.family = some p) : a = b := by
  cases a <;> simp only [Code.family, reduceCtorEq, Option.some.injEq] at ha <;> subst ha <;>
    cases b <;> simp [Code.family] at hb ⊢

/-- Every family has a narrow and a wide member, of ranks 0 and 1. -/
theorem Code.rank_le_one {a : Code} {f r : Nat} (ha : a.family = some (f, r)) : r ≤ 1 := by
  cases a <;> simp [Code.family] at ha <;> omega

@[simp] theorem familyOf_toByte (c : Code) : familyOf c.toByte = c.family := by
  simp [familyOf]

@[simp] theorem widen_toByte (c : Code) : widen c.toByte = c.asElement.toByte := by
  simp [widen]

/-- Constructor `c` holds every value that constructor `k` holds: `k` itself when `k` is in no
family of widths, a member of its family at least as wide when it is. -/
def Covers (c k : UInt8) : Prop :=
  match familyOf k with
  | none => c = k
  | some (f, r) => ∃ r', familyOf c = some (f, r') ∧ r ≤ r'

theorem Covers.refl (c : UInt8) : Covers c c := by
  unfold Covers
  split
  · rfl
  · rename_i f r h
    exact ⟨r, h, Nat.le_refl r⟩

theorem Covers.trans {a b c : UInt8} (hab : Covers a b) (hbc : Covers b c) : Covers a c := by
  cases hc : familyOf c with
  | none =>
    simp only [Covers, hc] at hbc ⊢
    subst hbc
    simpa [Covers, hc] using hab
  | some p =>
    obtain ⟨f, r⟩ := p
    simp only [Covers, hc] at hbc ⊢
    obtain ⟨r', hb, hr⟩ := hbc
    simp only [Covers, hb] at hab
    obtain ⟨r'', ha, hr'⟩ := hab
    exact ⟨r'', ha, Nat.le_trans hr hr'⟩

/-- A constructor covering a member of a family is a member of it at least as wide. -/
theorem Covers.member {c k : UInt8} {f r : Nat} (hk : familyOf k = some (f, r)) (h : Covers c k) :
    ∃ code r', Code.ofByte? c = some code ∧ code.family = some (f, r') ∧ r ≤ r' := by
  simp only [Covers, hk] at h
  obtain ⟨r', hc, hr⟩ := h
  cases hb : Code.ofByte? c with
  | none => simp [familyOf, hb] at hc
  | some code => exact ⟨code, r', rfl, by simpa [familyOf, hb] using hc, hr⟩

/-- What covers a constructor: the constructor itself, or the wide member of its family when
it is the narrow one. -/
theorem Covers.cases {c : UInt8} {k : Code} (h : Covers c k.toByte) :
    c = k.toByte ∨ ∃ wide f, Code.ofByte? c = some wide ∧ k.family = some (f, 0) ∧
      wide.family = some (f, 1) := by
  cases hk : k.family with
  | none =>
    left
    simpa [Covers, hk] using h
  | some p =>
    obtain ⟨f, r⟩ := p
    obtain ⟨code, r', hc, hf, hr⟩ := Covers.member (by simpa using hk) h
    have hr' := Code.rank_le_one hf
    rcases Nat.lt_or_ge r r' with hlt | hge
    · -- a wider member: the narrow one was covered by the wide one
      obtain ⟨rfl, rfl⟩ : r = 0 ∧ r' = 1 := by omega
      exact .inr ⟨code, f, hc, rfl, hf⟩
    · -- a member as wide: the constructor itself
      obtain rfl : r' = r := by omega
      left
      rw [← Code.toByte_of_ofByte? hc, Code.eq_of_family hf hk]

/-- A constructor covering the narrow member of a family is one of its two members. -/
theorem Covers.of_narrow {narrow wide : Code} {f : Nat} (hn : narrow.family = some (f, 0))
    (hw : wide.family = some (f, 1)) {c : UInt8} (h : Covers c narrow.toByte) :
    ∃ short : Bool, Code.ofByte? c = some (if short then narrow else wide) := by
  rcases Covers.cases h with rfl | ⟨w, f', hc, hf', hwf⟩
  · exact ⟨true, by simp⟩
  · rw [hn, Option.some.injEq, Prod.mk.injEq] at hf'
    obtain rfl := hf'.1
    exact ⟨false, by rw [hc, Code.eq_of_family hwf hw]; rfl⟩

/-- Only the wide member of a family covers it. -/
theorem Covers.of_wide {wide : Code} {f : Nat} (hw : wide.family = some (f, 1)) {c : UInt8}
    (h : Covers c wide.toByte) : c = wide.toByte := by
  rcases Covers.cases h with rfl | ⟨w, f', -, hf', -⟩
  · rfl
  · simp [hw] at hf'


/-! ## Choosing the constructor -/

/-- The constructor an item offers for its array: its scalar constructor, or else the first
byte of its encoding. -/
def Value.itemCode (v : Value) : Except CodecError UInt8 :=
  match v.scalarCode with
  | some code => pure code.toByte
  | none => do
    let bs ← v.encode
    pure (bs.headD 0)

theorem elementCode_cons (st : ElementState) (v : Value) (rest : List Value) :
    elementCode st (v :: rest) = (do
      let c ← v.itemCode
      let st ← elementStep st c
      elementCode st rest) := by
  rw [elementCode, Value.itemCode]
  cases v.scalarCode <;> simp only [bind_assoc, pure_bind]

theorem itemCode_of_scalarCode {v : Value} {code : Code} (h : v.scalarCode = some code) :
    v.itemCode = .ok code.toByte := by
  simp [Value.itemCode, h, pure, Except.pure]

theorem itemCode_of_encode {v : Value} {bs : List UInt8} (h : v.scalarCode = none)
    (he : v.encode = .ok bs) : v.itemCode = .ok (bs.headD 0) := by
  simp [Value.itemCode, h, he, pure, Except.pure, bind, Except.bind]

/-- What is recorded of a constructor: its family and rank, or no family and rank 0. -/
def familyRank (c : UInt8) : Option Nat × Nat :=
  match familyOf c with
  | some (f, r) => (some f, r)
  | none => (none, 0)

/-- The first item records the constructor it offers, widened. -/
theorem elementStep_none {b : UInt8} {st : ElementState} (h : elementStep none b = .ok st) :
    b ≠ Code.described.toByte ∧ st = some (widen b, familyRank (widen b)) := by
  unfold elementStep at h
  split at h
  · simp at h
  · rename_i hb
    exact ⟨hb, (Except.ok.inj h).symm⟩

/-- Each later item must offer a constructor of the recorded one's family, or outside every
family that same constructor; the wider of the two is recorded. -/
theorem elementStep_some {code b : UInt8} {st : ElementState}
    (h : elementStep (some (code, familyRank code)) b = .ok st) :
    b ≠ Code.described.toByte ∧ ∃ c, st = some (c, familyRank c) ∧ Covers c code ∧
      Covers c (widen b) ∧ (c = code ∨ c = widen b) := by
  unfold elementStep at h
  split at h
  · simp at h
  rename_i hb
  refine ⟨hb, ?_⟩
  cases hk : familyOf (widen b) with
  | none =>
    cases hc : familyOf code with
    | none =>
      -- outside every family the constructors must agree, and the recorded one stays
      simp only [familyRank, hk, hc] at h
      have he : widen b = code := by
        by_contra hne
        simp [hne] at h
      rw [if_neg (by simp [he]), if_neg (Nat.lt_irrefl 0)] at h
      refine ⟨code, (Except.ok.inj h).symm.trans ?_, Covers.refl _, ?_, .inl rfl⟩
      · simp [familyRank, hc]
      · rw [he]
        exact Covers.refl _
    | some p =>
      simp only [familyRank, hk, hc] at h
      simp at h
  | some p =>
    obtain ⟨f, r⟩ := p
    cases hc : familyOf code with
    | none =>
      simp only [familyRank, hk, hc] at h
      simp at h
    | some q =>
      obtain ⟨f', r'⟩ := q
      simp only [familyRank, hk, hc] at h
      obtain rfl : f = f' := by
        by_contra hne
        simp [hne] at h
      rw [if_neg (by simp)] at h
      by_cases hgt : r > r'
      · -- a wider member of the family is recorded
        rw [if_pos hgt] at h
        refine ⟨widen b, (Except.ok.inj h).symm.trans ?_, ?_, Covers.refl _, .inr rfl⟩
        · simp [familyRank, hk]
        · simp only [Covers, hc]
          exact ⟨r, hk, by omega⟩
      · -- otherwise the recorded member stays
        rw [if_neg hgt] at h
        refine ⟨code, (Except.ok.inj h).symm.trans ?_, Covers.refl _, ?_, .inl rfl⟩
        · simp [familyRank, hc]
        · simp only [Covers, hk]
          exact ⟨r', hc, by omega⟩

/-- From a recorded constructor, the constructor chosen covers it and every later item's, and
is the recorded one or one that an item offered. -/
theorem elementCode_some : ∀ {items : List Value} {code c : UInt8},
    elementCode (some (code, familyRank code)) items = .ok c →
      Covers c code ∧ (c = code ∨ ∃ v ∈ items, ∃ k, v.itemCode = .ok k ∧ c = widen k) ∧
      ∀ v ∈ items, ∃ k, v.itemCode = .ok k ∧ k ≠ Code.described.toByte ∧ Covers c (widen k)
  | [], code, c, h => by
    obtain rfl : code = c := Except.ok.inj h
    exact ⟨Covers.refl _, .inl rfl, by simp⟩
  | v :: rest, code, c, h => by
    rw [elementCode_cons] at h
    obtain ⟨k, hk, h⟩ := bind_eq_ok.mp h
    obtain ⟨st, hst, h⟩ := bind_eq_ok.mp h
    obtain ⟨hd, c', rfl, hcode, hwk, hc'⟩ := elementStep_some hst
    obtain ⟨hcov, hfrom, hall⟩ := elementCode_some h
    refine ⟨hcov.trans hcode, ?_, ?_⟩
    · rcases hfrom with rfl | ⟨w, hw, kw, hkw, rfl⟩
      · rcases hc' with rfl | rfl
        · exact .inl rfl
        · exact .inr ⟨v, List.mem_cons_self, k, hk, rfl⟩
      · exact .inr ⟨w, List.mem_cons_of_mem v hw, kw, hkw, rfl⟩
    · intro w hw
      rcases List.mem_cons.mp hw with rfl | hw
      · exact ⟨k, hk, hd, hcov.trans hwk⟩
      · exact hall w hw

/-- The constructor chosen for items is one that an item offered, widened, and covers what
every item offers. -/
theorem elementCode_covers {items : List Value} {c : UInt8} (hne : items ≠ [])
    (h : elementCode none items = .ok c) :
    (∃ v ∈ items, ∃ k, v.itemCode = .ok k ∧ c = widen k) ∧
      ∀ v ∈ items, ∃ k, v.itemCode = .ok k ∧ k ≠ Code.described.toByte ∧ Covers c (widen k) := by
  obtain ⟨v, rest, rfl⟩ := List.exists_cons_of_ne_nil hne
  rw [elementCode_cons] at h
  obtain ⟨k, hk, h⟩ := bind_eq_ok.mp h
  obtain ⟨st, hst, h⟩ := bind_eq_ok.mp h
  obtain ⟨hd, rfl⟩ := elementStep_none hst
  obtain ⟨hcov, hfrom, hall⟩ := elementCode_some h
  refine ⟨?_, ?_⟩
  · rcases hfrom with rfl | ⟨w, hw, kw, hkw, rfl⟩
    · exact ⟨v, List.mem_cons_self, k, hk, rfl⟩
    · exact ⟨w, List.mem_cons_of_mem v hw, kw, hkw, rfl⟩
  · intro w hw
    rcases List.mem_cons.mp hw with rfl | hw
    · exact ⟨k, hk, hd, hcov⟩
    · exact hall w hw

/-! ## Bodies under the constructor chosen -/

/-- A scalar has a body under its own constructor widened for an array. -/
theorem scalarBody_asElement {v : Value} {code : Code} (h : v.scalarCode = some code) :
    ∃ body, v.scalarBody code.asElement = .ok body := by
  cases v <;> simp only [scalarCode, Option.some.injEq, reduceCtorEq] at h <;> subst h
  all_goals (try split_ifs)
  all_goals simp_all [scalarBody, Code.asElement, unsignedBody, signedBody, varBytes, smallSigned]
  -- the short variable-width forms, under their own length bound
  all_goals exact ⟨_, if_neg (by omega)⟩

/-- A scalar whose widened constructor is the narrow member of a family has a body under the
wide member: the wide member of each family holds every value of its type. -/
theorem scalarBody_wide {v : Value} {code wide : Code} {f : Nat} (h : v.scalarCode = some code)
    (hn : code.asElement.family = some (f, 0)) (hw : wide.family = some (f, 1)) :
    ∃ body, v.scalarBody wide = .ok body := by
  cases v <;> simp only [scalarCode, Option.some.injEq, reduceCtorEq] at h <;> subst h
  all_goals (try split_ifs at hn)
  all_goals simp [Code.asElement, Code.family] at hn
  all_goals subst hn
  all_goals cases wide <;> simp [Code.family] at hw
  all_goals simp [scalarBody, unsignedBody, signedBody, varBytes]

/-- A compound under the narrow or the wide member of its family: its body, sized by the
member. -/
theorem elementBody_sized {v : Value} {narrow wide : Code} {B : Written} {count : Nat}
    {c : UInt8} (hv : ∀ short : Bool, Code.ofByte? c = some (if short then narrow else wide) →
      elementBody c v = (do let b ← B; sized c short b count))
    {b : List UInt8} (hb : B = .ok b) {short : Bool}
    (hc : Code.ofByte? c = some (if short then narrow else wide))
    (hs : short = true → fitsShort b.length count = true) :
    ∃ body, elementBody c v = .ok body :=
  ⟨_, (hv short hc).trans (bind_eq_ok.mpr ⟨b, hb, sized_ok.mpr ⟨hs, rfl⟩⟩)⟩

/-- A constructor covering the one a compound is written under alone, the narrower of its two
that holds it, is one of the two, and the narrow one only when it holds the compound. -/
theorem Covers.of_narrowest {narrow wide : Code} {c : UInt8} {body : List UInt8} {count : Nat}
    (h : Covers c (widen ((narrowest narrow wide body count).headD 0))) {f : Nat}
    (hn : narrow.family = some (f, 0)) (hw : wide.family = some (f, 1))
    (hna : narrow.asElement = narrow) (hwa : wide.asElement = wide) :
    ∃ short : Bool, Code.ofByte? c = some (if short then narrow else wide) ∧
      (short = true → fitsShort body.length count = true) := by
  dsimp only [narrowest] at h
  rw [List.headD_cons] at h
  cases hs : fitsShort body.length count
  · simp only [hs, Bool.false_eq_true, ↓reduceIte, widen_toByte, hwa] at h
    exact ⟨false, by rw [Covers.of_wide hw h]; simp, by simp⟩
  · simp only [hs, ↓reduceIte, widen_toByte, hna] at h
    obtain ⟨short, hc⟩ := Covers.of_narrow hn hw h
    exact ⟨short, hc, fun _ => rfl⟩

/-- A compound written alone under the narrower of its family's two members that holds it has
a body under every constructor covering that one. -/
theorem elementBody_of_narrowest {v : Value} {narrow wide : Code} {f : Nat} {B : Written}
    {body : List UInt8} {count : Nat} (hn : narrow.family = some (f, 0))
    (hw : wide.family = some (f, 1)) (hna : narrow.asElement = narrow)
    (hwa : wide.asElement = wide)
    (hv : ∀ (c : UInt8) (short : Bool), Code.ofByte? c = some (if short then narrow else wide) →
      elementBody c v = (do let b ← B; sized c short b count))
    (hb : B = .ok body) {c : UInt8}
    (hc : Covers c (widen ((narrowest narrow wide body count).headD 0))) :
    ∃ body, elementBody c v = .ok body := by
  obtain ⟨short, hcs, hfit⟩ := Covers.of_narrowest hc hn hw hna hwa
  exact elementBody_sized (hv c) hb hcs hfit

/-- An item written alone has a body under every constructor that covers the one it offers,
widened; an absent reference, which offers null and is not null, is the exception. -/
theorem elementBody_of_covers {v : Value} (hv : v ≠ .nullRef) {bs : List UInt8}
    (he : v.encode = .ok bs) {k c : UInt8} (hk : v.itemCode = .ok k)
    (hd : k ≠ Code.described.toByte) (hc : Covers c (widen k)) :
    ∃ body, elementBody c v = .ok body := by
  cases hs : v.scalarCode with
  | some code =>
    -- a scalar offers its own constructor
    rw [itemCode_of_scalarCode hs] at hk
    obtain rfl : code.toByte = k := Except.ok.inj hk
    rw [widen_toByte] at hc
    rcases Covers.cases hc with rfl | ⟨wide, f, hw, hn, hwf⟩
    · obtain ⟨body, hb⟩ := scalarBody_asElement hs
      exact ⟨body, elementBody_of_scalarBody (Code.ofByte?_toByte _) hb⟩
    · obtain ⟨body, hb⟩ := scalarBody_wide hs hn hwf
      exact ⟨body, elementBody_of_scalarBody hw hb⟩
  | none =>
    -- anything else offers the first byte of its encoding
    rw [itemCode_of_encode hs he] at hk
    obtain rfl : bs.headD 0 = k := Except.ok.inj hk
    cases v <;> simp only [scalarCode, reduceCtorEq] at hs
    case list items =>
      cases items with
      | nil =>
        -- the empty list is written under its zero-width constructor, widened to list8
        obtain rfl : [Code.list0.toByte] = bs := Except.ok.inj he
        rw [List.headD_cons, widen_toByte] at hc
        obtain ⟨short, hcs⟩ := Covers.of_narrow (rfl : Code.list8.family = some (7, 0))
          (rfl : Code.list32.family = some (7, 1)) hc
        exact elementBody_sized (fun s hs => by rw [elementBody_list, hs]; cases s <;> rfl)
          rfl hcs (fun _ => rfl)
      | cons x xs =>
        obtain ⟨b, hb, rfl⟩ := encode_list_cons.mp he
        exact elementBody_of_narrowest rfl rfl rfl rfl
          (fun _ s hs => by rw [elementBody_list, hs]; cases s <;> rfl) hb hc
    case map entries =>
      obtain ⟨b, hb, rfl⟩ := encode_map.mp he
      exact elementBody_of_narrowest rfl rfl rfl rfl
        (fun _ s hs => by rw [elementBody_map, hs]; cases s <;> rfl) hb hc
    case textMap fields =>
      obtain ⟨b, hb, rfl⟩ := encode_textMap.mp he
      exact elementBody_of_narrowest rfl rfl rfl rfl
        (fun _ s hs => by rw [elementBody_textMap, hs]; cases s <;> rfl) hb hc
    case array d e items =>
      obtain ⟨content, hb, rfl⟩ := encode_array.mp he
      exact elementBody_of_narrowest rfl rfl rfl rfl
        (fun _ s hs => by rw [elementBody_array, hs]; cases s <;> rfl) hb hc
    case described d w =>
      -- a described item offers the descriptor mark, which no array takes
      obtain ⟨a, b, -, -, -, rfl⟩ := encode_described.mp he
      exact absurd rfl hd
    case describedRef d w =>
      rw [encode_describedRef] at he
      obtain ⟨a, b, -, -, -, rfl⟩ := encode_described.mp he
      exact absurd rfl hd
    case nullRef => exact absurd rfl hv
    case foreign => simp [encode, writeScalar, scalarCode] at he

/-- Items that each have a body under a constructor have their bodies one after another. -/
theorem elementBodies_of_forall {c : UInt8} : ∀ {items : List Value},
    (∀ v ∈ items, ∃ body, elementBody c v = .ok body) → ∃ bs, elementBodies c items = .ok bs
  | [], _ => ⟨[], rfl⟩
  | v :: rest, h => by
    obtain ⟨a, ha⟩ := h v List.mem_cons_self
    obtain ⟨b, hb⟩ := elementBodies_of_forall fun w hw => h w (List.mem_cons_of_mem v hw)
    exact ⟨a ++ b, elementBodies_cons.mpr ⟨a, b, ha, hb, rfl⟩⟩

/-! ## The array -/

/-- The constructor an array's writer chooses for its items, when it chooses one, is the widest
they offer: one an item offered, widened, that covers what every item offers. Every item written
alone, absent references apart, has a body under it, so an array of such items with its
constructor left to the writer is written. -/
theorem elementCode_sound {items : List Value} {c : UInt8} (hne : items ≠ [])
    (hnull : Value.nullRef ∉ items) (hc : elementCode none items = .ok c) :
    (∃ v ∈ items, ∃ k, v.itemCode = .ok k ∧ c = widen k) ∧
      (∀ v ∈ items, ∃ k, v.itemCode = .ok k ∧ Covers c (widen k)) ∧
      (∀ v ∈ items, (∃ bs, v.encode = .ok bs) → ∃ body, elementBody c v = .ok body) ∧
      ((∀ v ∈ items, ∃ bs, v.encode = .ok bs) →
        ∃ bs, (Value.array none 0 items).encode = .ok bs) := by
  obtain ⟨hfrom, hall⟩ := elementCode_covers hne hc
  have hbody : ∀ v ∈ items, (∃ bs, v.encode = .ok bs) → ∃ body, elementBody c v = .ok body := by
    rintro v hv ⟨bs, he⟩
    obtain ⟨k, hk, hd, hcov⟩ := hall v hv
    exact elementBody_of_covers (fun h => hnull (h ▸ hv)) he hk hd hcov
  refine ⟨hfrom, fun v hv => ?_, hbody, fun henc => ?_⟩
  · obtain ⟨k, hk, -, hcov⟩ := hall v hv
    exact ⟨k, hk, hcov⟩
  · obtain ⟨bodies, hb⟩ := elementBodies_of_forall fun v hv => hbody v hv (henc v hv)
    have hcontent : arrayContent 0 (fun _ => elementCode none items) (encodeDescriptor none)
        (fun code => elementBodies code items) = .ok (c :: bodies) :=
      arrayContent_ok.mpr ⟨c, [], bodies, by simp [hc], rfl, hb, rfl⟩
    exact ⟨_, encode_array.mpr ⟨_, hcontent, rfl⟩⟩

/-- Zero and a number past one byte: the array takes the four-byte form for both. -/
example :
    elementCode none [.uint 0, .uint 300] = .ok Code.uint.toByte ∧
      ∃ bs, (Value.array none 0 [.uint 0, .uint 300]).encode = .ok bs := by
  have hc : elementCode none [.uint 0, .uint 300] = .ok Code.uint.toByte := rfl
  refine ⟨hc, (elementCode_sound (by simp) (by simp) hc).2.2.2 ?_⟩
  intro v hv
  simp only [List.mem_cons, List.not_mem_nil, or_false] at hv
  rcases hv with rfl | rfl <;> exact ⟨_, rfl⟩

/-- An absent reference offers null as its constructor, and null refuses it: an array of one
absent reference, its constructor left to the writer, is refused although the reference alone
is written. -/
theorem absent_reference_array_refused :
    Value.nullRef.encode = .ok [Code.null.toByte] ∧
      elementCode none [.nullRef] = .ok Code.null.toByte ∧
      (Value.array none 0 [.nullRef]).encode =
        .error (.invalidValue (.mismatch .nullRef Code.null.toByte)) :=
  ⟨rfl, rfl, rfl⟩

end Courier.Amqp
