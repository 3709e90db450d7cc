import Courier.Proofs.Amqp.Reading

/-!
# What a successful read says

Each reader of the codec builds its value in one of a few ways, and what it hands back tells
which. These lemmas run the readers backwards. A fixed-width or length-prefixed field took
exactly the bytes its value needs; a compound's fields bound its body and its count; and a body
read under a constructor is a scalar the writer lays out in as many bytes under the same
constructor, or a list, a map, an array or a described value read from its parts.

- `readCompound_ok`: the size and count fields of a compound the reader took;
- `readBody_cases`: the five ways a body is read;
- `readList_yields`, `readMap_yields`, `readArray_yields`: compounds come from their parts.
-/

set_option autoImplicit false

namespace Courier.Amqp

open Courier.Bytes

section Yields

variable {bs : List UInt8} {α β : Type}

theorem Yields.length_le {r : Read bs α} {a : α} {rest : List UInt8} (h : Yields r a rest) :
    rest.length ≤ bs.length := h.1

/-- What a mapped reader gave is its function applied to what the reader gave. -/
theorem Yields.of_map {γ : Type} {r : Except CodecError γ}
    {g : γ → β × { rest : List UInt8 // rest.length ≤ bs.length }} {b : β} {rest : List UInt8}
    (h : Yields (r.map g) b rest) : ∃ p, r = .ok p ∧ (g p).1 = b ∧ (g p).2.1 = rest := by
  obtain ⟨_, e⟩ := h
  cases hr : r with
  | error => rw [hr] at e; cases e
  | ok p =>
    rw [hr] at e
    simp only [Except.map, Except.ok.injEq] at e
    exact ⟨p, rfl, by rw [e], by rw [e]⟩

end Yields

/-! ## Fields -/

section Fields

variable {n : Nat} {bs x rest : List UInt8}

theorem readExact_yields (h : Yields (readExact n bs) x rest) : x.length = n ∧ bs = x ++ rest := by
  obtain ⟨_, e⟩ := h
  unfold readExact at e
  split at e
  · rename_i hn
    simp only [Except.ok.injEq, Prod.mk.injEq, Subtype.mk.injEq] at e
    obtain ⟨rfl, rfl⟩ := e
    exact ⟨List.length_take_of_le hn, (List.take_append_drop n bs).symm⟩
  · cases e

theorem readScalar_yields {f : List UInt8 → Value} {v : Value}
    (h : Yields (readScalar n f bs) v rest) : ∃ x, x.length = n ∧ bs = x ++ rest ∧ v = f x := by
  obtain ⟨⟨x, r, hr⟩, e, rfl, rfl⟩ := Yields.of_map h
  obtain ⟨hl, rfl⟩ := readExact_yields ⟨hr, e⟩
  exact ⟨x, hl, rfl, rfl⟩

theorem readFull_yields (h : Yields (readFull n bs) x rest) : x.length = n ∧ bs = x ++ rest := by
  obtain ⟨hh, e⟩ := h
  unfold readFull at e
  split at e
  · rename_i hn
    simp only [Except.ok.injEq, Prod.mk.injEq, Subtype.mk.injEq] at e
    obtain ⟨rfl, rfl⟩ := e
    simp [hn]
  · split at e
    · cases e
    · exact readExact_yields ⟨hh, e⟩

/-- A length field, then that many bytes: the field is one byte when short, else four, and
holds at most the largest signed 32-bit number. -/
theorem readVariable_yields {short : Bool} (h : Yields (readVariable short bs) x rest) :
    bs.length = (if short then 1 else 4) + x.length + rest.length ∧
      x.length ≤ if short then 255 else 2 ^ 31 - 1 := by
  obtain ⟨hh, e⟩ := h
  unfold readVariable at e
  split at e
  · cases e
  · rename_i field r hr hf
    obtain ⟨hfl, rfl⟩ := readExact_yields ⟨hr, hf⟩
    dsimp only at e
    split at e
    · cases e
    · rename_i hle
      split at e
      · cases e
      · rename_i x' r2 h2 hx
        simp only [Except.ok.injEq, Prod.mk.injEq, Subtype.mk.injEq] at e
        obtain ⟨rfl, rfl⟩ := e
        obtain ⟨hxl, rfl⟩ := readExact_yields ⟨h2, hx⟩
        have hb := ofBigEndian_lt field
        rw [hfl] at hb
        simp only [Nat.pow_eq, gt_iff_lt, not_lt] at hle
        refine ⟨by simp [hfl]; omega, ?_⟩
        cases short <;> simp at hb ⊢ <;> omega

/-- The writer lays out what a length-prefixed field held in as many bytes as it took. -/
theorem varBytes_of_readVariable {short : Bool} (h : Yields (readVariable short bs) x rest) :
    ∃ body, varBytes short x = .ok body ∧ body.length + rest.length = bs.length ∧
      body.length ≤ 4 + (2 ^ 31 - 1) := by
  obtain ⟨hlen, hx⟩ := readVariable_yields h
  cases short with
  | true =>
    simp only [if_true] at hlen hx
    refine ⟨x.length.toUInt8 :: x, ?_, by simp; omega, by simp; omega⟩
    rw [varBytes, if_pos rfl, if_neg (by omega)]
  | false =>
    simp only [Bool.false_eq_true, if_false] at hlen hx
    exact ⟨bigEndian 4 x.length ++ x, rfl, by simp; omega, by simp; omega⟩

end Fields

/-! ## Compounds -/

theorem ofBigEndian_take_lt (w : Nat) (bs : List UInt8) (h : w ≤ bs.length) :
    ofBigEndian (bs.take w) < 256 ^ w := by
  have := ofBigEndian_lt (bs.take w)
  rwa [List.length_take_of_le h] at this

/-- The fields of a compound the reader took: they and the body cover what was read, the count
is at most 2^24, the size at most the largest signed 32-bit number, and one-byte fields hold
only what one-byte fields can. -/
theorem readCompound_ok {short : Bool} {bs : List UInt8} {c : Compound bs}
    (h : readCompound short bs = .ok c) :
    bs.length = 2 * (if short then 1 else 4) + c.body.length + c.rest.length ∧
      c.count ≤ 2 ^ 24 ∧ c.body.length + 4 < 2 ^ 31 ∧
      (short = true → fitsShort c.body.length c.count = true) := by
  cases short <;> unfold readCompound at h <;> simp only [Bool.false_eq_true, ↓reduceIte] at h ⊢
  -- the same four checks at either width: room for the fields, size, count, room for the body
  all_goals
    split at h
    case isFalse => cases h
    rename_i hw
    split at h
    · cases h
    rename_i hsize
    split at h
    · cases h
    rename_i hcount
    split at h
    case isFalse => cases h
    rename_i hfit
    obtain rfl := Except.ok.inj h
    simp only [Nat.pow_eq, not_or, not_lt, gt_iff_lt, List.length_drop] at hsize hcount hfit
    simp only [List.length_take, List.length_drop, fitsShort, Bool.and_eq_true, decide_eq_true_eq,
      false_implies, true_implies]
  · -- four-byte fields: the reader's own limits are the bounds
    refine ⟨by omega, hcount, by omega, trivial⟩
  · -- one-byte fields hold at most 255
    have := ofBigEndian_take_lt 1 bs (by omega)
    have := ofBigEndian_take_lt 1 (bs.drop 1) (by simp; omega)
    omega

section Runs

variable {bs rest : List UInt8}

theorem readValue_yields {v : Value} (h : Yields (readValue bs) v rest) :
    ∃ b bs', bs = b :: bs' ∧ Yields (readBody b bs') v rest := by
  obtain ⟨_, e⟩ := h
  rw [readValue] at e
  split at e
  · cases e
  · rename_i b bs' _ hb
    split at e
    · cases e
    · rename_i v' r h2 hv
      simp only [Except.ok.injEq, Prod.mk.injEq, Subtype.mk.injEq] at e
      obtain ⟨rfl, rfl⟩ := e
      cases bs with
      | nil => cases hb
      | cons b0 bs0 =>
        simp only [readByte, Except.ok.injEq, Prod.mk.injEq, Subtype.mk.injEq] at hb
        obtain ⟨rfl, rfl⟩ := hb
        exact ⟨_, _, rfl, h2, hv⟩

theorem readItems_zero_yields {vs : List Value} (h : Yields (readItems 0 bs) vs rest) :
    vs = [] ∧ rest = bs := by
  obtain ⟨_, e⟩ := h
  rw [readItems] at e
  simp only [Except.ok.injEq, Prod.mk.injEq, Subtype.mk.injEq] at e
  exact ⟨e.1.symm, e.2.symm⟩

theorem readItems_succ_yields {n : Nat} {vs : List Value} (h : Yields (readItems (n + 1) bs) vs rest) :
    ∃ v r vs', Yields (readValue bs) v r ∧ Yields (readItems n r) vs' rest ∧ vs = v :: vs' := by
  obtain ⟨_, e⟩ := h
  rw [readItems] at e
  split at e
  · cases e
  · rename_i v r hr hv
    split at e
    · cases e
    · rename_i vs' r2 h2 hs
      simp only [Except.ok.injEq, Prod.mk.injEq, Subtype.mk.injEq] at e
      obtain ⟨rfl, rfl⟩ := e
      exact ⟨v, r, vs', ⟨hr, hv⟩, ⟨h2, hs⟩, rfl⟩

theorem readEntries_zero_yields {es : List (Value × Value)} (h : Yields (readEntries 0 bs) es rest) :
    es = [] ∧ rest = bs := by
  obtain ⟨_, e⟩ := h
  rw [readEntries] at e
  simp only [Except.ok.injEq, Prod.mk.injEq, Subtype.mk.injEq] at e
  exact ⟨e.1.symm, e.2.symm⟩

theorem readEntries_succ_yields {n : Nat} {es : List (Value × Value)}
    (h : Yields (readEntries (n + 1) bs) es rest) :
    ∃ k r v r2 es', Yields (readValue bs) k r ∧ Yields (readValue r) v r2 ∧
      Yields (readEntries n r2) es' rest ∧ es = (k, v) :: es' := by
  obtain ⟨_, e⟩ := h
  rw [readEntries] at e
  split at e
  · cases e
  · rename_i k r hr hk
    split at e
    · cases e
    · rename_i v r2 h2 hv
      split at e
      · cases e
      · rename_i es' r3 h3 hs
        simp only [Except.ok.injEq, Prod.mk.injEq, Subtype.mk.injEq] at e
        obtain ⟨rfl, rfl⟩ := e
        exact ⟨k, r, v, r2, es', ⟨hr, hk⟩, ⟨h2, hv⟩, ⟨h3, hs⟩, rfl⟩

theorem readElements_zero_yields {c : UInt8} {vs : List Value}
    (h : Yields (readElements c 0 bs) vs rest) : vs = [] ∧ rest = bs := by
  obtain ⟨_, e⟩ := h
  rw [readElements] at e
  simp only [Except.ok.injEq, Prod.mk.injEq, Subtype.mk.injEq] at e
  exact ⟨e.1.symm, e.2.symm⟩

theorem readElements_succ_yields {c : UInt8} {n : Nat} {vs : List Value}
    (h : Yields (readElements c (n + 1) bs) vs rest) :
    ∃ v r vs', Yields (readBody c bs) v r ∧ Yields (readElements c n r) vs' rest ∧ vs = v :: vs' := by
  obtain ⟨_, e⟩ := h
  rw [readElements] at e
  split at e
  · cases e
  · rename_i v r hr hv
    split at e
    · cases e
    · rename_i vs' r2 h2 hs
      simp only [Except.ok.injEq, Prod.mk.injEq, Subtype.mk.injEq] at e
      obtain ⟨rfl, rfl⟩ := e
      exact ⟨v, r, vs', ⟨hr, hv⟩, ⟨h2, hs⟩, rfl⟩

end Runs

section Compounds

variable {short : Bool} {bs rest : List UInt8} {v : Value}

/-- A body with its items read is taken only when nothing is left after them. -/
theorem noTrailing_map_ok {α β : Type} {left : List UInt8} {x : α} {f : α → β} {b : β}
    (e : (noTrailing left x).map f = .ok b) : left = [] ∧ b = f x := by
  unfold noTrailing at e
  split at e
  · rename_i hl
    exact ⟨List.isEmpty_iff.mp hl, (Except.ok.inj e).symm⟩
  · cases e

/-- A list came from its compound: exactly its declared count of items fill the body. -/
theorem readList_yields (h : Yields (readList short bs) v rest) :
    ∃ body count h1 h2 items, readCompound short bs = .ok ⟨body, count, rest, h1, h2⟩ ∧
      Yields (readItems count body) items [] ∧ v = .list items := by
  obtain ⟨_, e⟩ := h
  rw [readList] at e
  split at e
  · cases e
  · rename_i body count r h1 h2 hc
    split at e
    · cases e
    · rename_i items left _ hi
      obtain ⟨rfl, he⟩ := noTrailing_map_ok e
      simp only [Prod.mk.injEq, Subtype.mk.injEq] at he
      obtain ⟨rfl, rfl⟩ := he
      exact ⟨body, count, h1, h2, items, hc, ⟨by simp, hi⟩, rfl⟩

/-- A map came from its compound: an even count, and half as many entries fill the body. -/
theorem readMap_yields (h : Yields (readMap short bs) v rest) :
    ∃ body n h1 h2 entries, readCompound short bs = .ok ⟨body, 2 * n, rest, h1, h2⟩ ∧
      Yields (readEntries n body) entries [] ∧ v = .map entries := by
  obtain ⟨_, e⟩ := h
  rw [readMap] at e
  split at e
  · cases e
  · rename_i body count r h1 h2 hc
    split at e
    · cases e
    · rename_i hodd
      split at e
      · cases e
      · rename_i entries left _ he
        obtain ⟨rfl, hv⟩ := noTrailing_map_ok e
        simp only [Prod.mk.injEq, Subtype.mk.injEq] at hv
        obtain ⟨rfl, rfl⟩ := hv
        have hcount : count = 2 * (count / 2) := by omega
        rw [hcount] at hc
        exact ⟨body, count / 2, h1, h2, entries, hc, ⟨by simp, he⟩, rfl⟩

/-- An array came from its compound: the element constructor, after a descriptor or not, and
exactly its declared count of bodies under it fill the body. -/
theorem readArray_yields (h : Yields (readArray short bs) v rest) :
    ∃ body count h1 h2, readCompound short bs = .ok ⟨body, count, rest, h1, h2⟩ ∧
      ∃ c after items, c ≠ Code.described.toByte ∧ Yields (readElements c count after) items [] ∧
        ((body = c :: after ∧ v = .array none c items) ∨
          ∃ dbody d, body = Code.described.toByte :: dbody ∧
            Yields (readValue dbody) d (c :: after) ∧ descriptorOk d = .ok () ∧
            v = .array (some d) c items) := by
  obtain ⟨_, e⟩ := h
  rw [readArray] at e
  split at e
  · cases e
  · rename_i body count r h1 h2 hc
    split at e
    · cases e
    · rename_i b after hb
      split at e
      · -- a descriptor before the element constructor
        rename_i hbd
        split at e
        · cases e
        · rename_i d r' hr' hd
          split at e
          · cases e
          · rename_i hok
            split at e
            · cases e
            · rename_i c after' h'
              split at e
              · cases e
              · rename_i hcd
                split at e
                · cases e
                · rename_i items left _ hi
                  obtain ⟨rfl, he⟩ := noTrailing_map_ok e
                  simp only [Prod.mk.injEq, Subtype.mk.injEq] at he
                  obtain ⟨rfl, rfl⟩ := he
                  subst hbd
                  exact ⟨_, count, hb, h2, hc, c, after', items, hcd, ⟨by simp, hi⟩,
                    .inr ⟨after, d, rfl, ⟨h', hd⟩, hok, rfl⟩⟩
      · -- the element constructor first
        rename_i hbd
        split at e
        · cases e
        · rename_i items left _ hi
          obtain ⟨rfl, he⟩ := noTrailing_map_ok e
          simp only [Prod.mk.injEq, Subtype.mk.injEq] at he
          obtain ⟨rfl, rfl⟩ := he
          exact ⟨_, count, hb, h2, hc, b, after, items, hbd, ⟨by simp, hi⟩, .inl ⟨rfl, rfl⟩⟩

end Compounds

/-! ## Bodies -/

/-- The five ways a body is read under its constructor: a scalar, which the writer lays out under
the same constructor in as many bytes as were read; a list, a map or an array, from its
compound; or a described value, from its descriptor and the value after it. -/
theorem readBody_cases {code : UInt8} {bs rest : List UInt8} {v : Value}
    (h : Yields (readBody code bs) v rest) :
    (∃ c body, Code.ofByte? code = some c ∧ v.scalarBody c = .ok body ∧
        body.length + rest.length = bs.length ∧ body.length ≤ 4 + (2 ^ 31 - 1)) ∨
      (∃ short, code = (if short then Code.list8 else .list32).toByte ∧
        Yields (readList short bs) v rest) ∨
      (∃ short, code = (if short then Code.map8 else .map32).toByte ∧
        Yields (readMap short bs) v rest) ∨
      (∃ short, code = (if short then Code.array8 else .array32).toByte ∧
        Yields (readArray short bs) v rest) ∨
      (code = Code.described.toByte ∧ ∃ d r w, Yields (readValue bs) d r ∧
        descriptorOk d = .ok () ∧ Yields (readValue r) w rest ∧ v = .describedRef d w) := by
  rcases hc : Code.ofByte? code with _ | c
  · obtain ⟨_, e⟩ := h
    rw [readBody, hc] at e
    cases e
  have hcode := Code.toByte_of_ofByte? hc
  rw [readBody, hc] at h
  cases c
  case list8 => exact .inr (.inl ⟨true, hcode.symm, h⟩)
  case list32 => exact .inr (.inl ⟨false, hcode.symm, h⟩)
  case map8 => exact .inr (.inr (.inl ⟨true, hcode.symm, h⟩))
  case map32 => exact .inr (.inr (.inl ⟨false, hcode.symm, h⟩))
  case array8 => exact .inr (.inr (.inr (.inl ⟨true, hcode.symm, h⟩)))
  case array32 => exact .inr (.inr (.inr (.inl ⟨false, hcode.symm, h⟩)))
  case described =>
    refine .inr (.inr (.inr (.inr ⟨hcode.symm, ?_⟩)))
    obtain ⟨_, e⟩ := h
    dsimp only at e
    split at e
    · cases e
    · rename_i d r hr hd
      split at e
      · cases e
      · rename_i hok
        split at e
        · cases e
        · rename_i w r2 h2 hw
          simp only [Except.ok.injEq, Prod.mk.injEq, Subtype.mk.injEq] at e
          obtain ⟨rfl, rfl⟩ := e
          exact ⟨d, r, w, ⟨hr, hd⟩, hok, ⟨h2, hw⟩, rfl⟩
  -- what is left are the scalars: none takes more than a length field and its bytes
  all_goals left
  case null | boolTrue | boolFalse | uint0 | ulong0 | list0 =>
    -- no body at all
    dsimp only at h
    obtain ⟨rfl, rfl⟩ := yields_ok.mp h
    exact ⟨_, [], rfl, rfl, by simp, by simp⟩
  case bool | ubyte | ushort | uint | ulong | byte | short | int | long | float | double | char
      | timestamp =>
    -- a fixed-width body, written back at its width
    obtain ⟨x, hx, rfl, rfl⟩ := readScalar_yields h
    exact ⟨_, _, rfl, rfl, by simp [hx], by simp⟩
  case smallUint | smallUlong =>
    -- one byte holds at most 255, which the short form takes
    obtain ⟨x, hx, rfl, rfl⟩ := readScalar_yields h
    have hb : unsignedOf x < 256 := by simpa [hx, unsignedOf] using ofBigEndian_lt x
    exact ⟨_, _, rfl, by simp only [Value.scalarBody, unsignedBody]; rw [if_pos (by simp; omega)],
      by simp [hx], by simp⟩
  case smallInt | smallLong =>
    -- one byte holds a signed byte, which the short form takes
    obtain ⟨x, hx, rfl, rfl⟩ := readScalar_yields h
    have h1 := ((unsignedOf x).toUInt8.toInt8).le_toInt
    have h2 := ((unsignedOf x).toUInt8.toInt8).toInt_lt
    exact ⟨_, _, rfl, by
      simp only [Value.scalarBody, signedBody]; rw [if_pos (by simp at h1 h2 ⊢; omega)],
      by simp [hx], by simp⟩
  case decimal32 | decimal64 | decimal128 | uuid =>
    -- exactly the bytes of the fixed array
    obtain ⟨⟨x, r, hr⟩, e, rfl, rfl⟩ := Yields.of_map h
    obtain ⟨hl, rfl⟩ := readFull_yields ⟨hr, e⟩
    dsimp only
    rw [dif_pos hl]
    exact ⟨_, x, rfl, rfl, by simp, by simp [hl]⟩
  case vbin8 | vbin32 | str8 | str32 | sym8 | sym32 =>
    -- a length field and the bytes it counts
    obtain ⟨⟨x, r, hr⟩, e, rfl, rfl⟩ := Yields.of_map h
    obtain ⟨body, hv, hlen, hl⟩ := varBytes_of_readVariable ⟨hr, e⟩
    exact ⟨_, body, rfl, hv, hlen, hl⟩

end Courier.Amqp
