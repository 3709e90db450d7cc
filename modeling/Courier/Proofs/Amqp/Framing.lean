import Courier.Proofs.Amqp.Inversion

/-!
# Reading looks only at the bytes it takes

The decoder takes its input from the front, and every read is bounded by what was read before
it: a field by its width, a variable-width value by its length field, and the items of a
compound by its size field, which cuts the compound's body off before any item is read. So the
bytes after a value are never looked at. `Framed R bs` says this of one reader on one input: a
success took a prefix of `bs` and reads the same from that prefix followed by any bytes, and a
failure other than running out of input stays the same failure whatever follows `bs`.

- `framed_readExact`, `framed_readFull`, `framed_readVariable`: fields are framed;
- `readCompound_framed`, `readCompound_error_append`: a compound's fields and body;
- `framed_readList`, `framed_readMap`, `framed_readArray`: compounds, from their fields alone,
  since their items are read from the body they cut off;
- `framed_readValue`: every reader of values, by induction on the input through described values;
- `decode_self_delimiting`: the decoder reads the same value and count from any input that
  starts with the bytes it took, and from those bytes alone; a refusal other than a short buffer
  is the same refusal whatever follows; and every prefix of a short buffer is short.
-/

set_option autoImplicit false

namespace Courier.Amqp

open Courier.Bytes

/-- A reader is framed on `bs`: a success took a prefix `c` of `bs` and reads the same from `c`
followed by any bytes, and a failure that is not the end of the input stays that failure
whatever follows `bs`. -/
structure Framed {α : Type} (R : (xs : List UInt8) → Read xs α) (bs : List UInt8) : Prop where
  ok : ∀ {a : α} {rest : List UInt8}, Yields (R bs) a rest →
    ∃ c, bs = c ++ rest ∧ ∀ s, Yields (R (c ++ s)) a s
  error : ∀ {e : CodecError}, R bs = .error e → e.isEnd = false → ∀ s, R (bs ++ s) = .error e

/-- A mapped computation fails exactly as the one it maps. -/
theorem Except.map_eq_error {ε α β : Type} {f : α → β} {x : Except ε α} {e : ε} :
    x.map f = .error e ↔ x = .error e := by
  cases x <;> simp [Except.map]

namespace Framed

variable {α β : Type} {R : (xs : List UInt8) → Read xs α} {bs : List UInt8}

/-- What a framed reader gives, it gives with any bytes after its input. -/
theorem append (h : Framed R bs) {a : α} {rest : List UInt8} (hy : Yields (R bs) a rest)
    (s : List UInt8) : Yields (R (bs ++ s)) a (rest ++ s) := by
  obtain ⟨c, rfl, hc⟩ := h.ok hy
  rw [List.append_assoc]
  exact hc (rest ++ s)

/-- Being framed is a property of the reader's results. -/
theorem congr {R' : (xs : List UInt8) → Read xs α} (h : Framed R bs) (e : ∀ xs, R xs = R' xs) :
    Framed R' bs := by
  obtain rfl : R = R' := funext e
  exact h

/-- A reader that reads nothing is framed. -/
theorem pure (a : α) : Framed (fun xs => .ok (a, ⟨xs, Nat.le_refl _⟩)) bs where
  ok hy := by
    obtain ⟨rfl, rfl⟩ := yields_ok.mp hy
    exact ⟨[], rfl, fun s => ⟨Nat.le_refl _, rfl⟩⟩
  error h := by cases h

/-- A reader that refuses without reading is framed. -/
theorem fail (e : CodecError) : Framed (fun xs => (.error e : Read xs α)) bs where
  ok hy := by obtain ⟨_, h⟩ := hy; cases h
  error h _ _ := by cases h; rfl

/-- Mapping a framed reader's value keeps it framed. -/
theorem map (h : Framed R bs) (g : α → β) :
    Framed (fun xs => (R xs).map fun p => (g p.1, p.2)) bs where
  ok hy := by
    obtain ⟨⟨x, r, hr⟩, e, rfl, rfl⟩ := Yields.of_map hy
    obtain ⟨c, hbs, hc⟩ := h.ok ⟨hr, e⟩
    exact ⟨c, hbs, fun s => (hc s).map g⟩
  error he hend s := Except.map_eq_error.mpr (h.error (Except.map_eq_error.mp he) hend s)

end Framed

/-! ## Fields -/

section Fields

variable {n : Nat} {bs : List UInt8} {e : CodecError}

theorem readExact_error_isEnd (h : readExact n bs = .error e) : e.isEnd = true := by
  unfold readExact at h
  split at h
  · cases h
  · cases h; rfl

theorem readFull_error_isEnd (h : readFull n bs = .error e) : e.isEnd = true := by
  unfold readFull at h
  split at h
  · cases h
  · split at h
    · cases h; rfl
    · exact readExact_error_isEnd h

theorem framed_readExact (n : Nat) (bs : List UInt8) : Framed (readExact n) bs where
  ok hy := by
    obtain ⟨hl, rfl⟩ := readExact_yields hy
    exact ⟨_, rfl, fun s => ⟨_, readExact_append hl s⟩⟩
  error h hend := by simp [readExact_error_isEnd h] at hend

theorem framed_readFull (n : Nat) (bs : List UInt8) : Framed (readFull n) bs where
  ok hy := by
    obtain ⟨hl, rfl⟩ := readFull_yields hy
    refine ⟨_, rfl, fun s => ?_⟩
    rcases Nat.eq_zero_or_pos n with rfl | hpos
    · -- no bytes at all: the input is handed back whole
      obtain rfl := List.length_eq_zero_iff.mp hl
      exact ⟨Nat.le_refl _, by simp [readFull]⟩
    · exact ⟨_, readFull_append hl hpos s⟩
  error h hend := by simp [readFull_error_isEnd h] at hend

theorem framed_readScalar (n : Nat) (f : List UInt8 → Value) (bs : List UInt8) :
    Framed (readScalar n f) bs :=
  ((framed_readExact n bs).map f).congr fun _ => rfl

/-- A length field, then the bytes it counts, then what follows. -/
theorem readVariable_parts {short : Bool} {x rest : List UInt8}
    (h : Yields (readVariable short bs) x rest) :
    ∃ field, field.length = (if short then 1 else 4) ∧ ofBigEndian field = x.length ∧
      x.length ≤ 2 ^ 31 - 1 ∧ bs = field ++ (x ++ rest) := by
  obtain ⟨_, e⟩ := h
  unfold readVariable at e
  split at e
  · cases e
  · rename_i field r hr hf
    obtain ⟨hfl, rfl⟩ := readExact_yields ⟨hr, hf⟩
    dsimp only at e
    split at e
    · cases e
    · rename_i hle
      split at e
      · cases e
      · rename_i x' r2 h2 hx
        simp only [Except.ok.injEq, Prod.mk.injEq, Subtype.mk.injEq] at e
        obtain ⟨rfl, rfl⟩ := e
        obtain ⟨hxl, rfl⟩ := readExact_yields ⟨h2, hx⟩
        simp only [Nat.pow_eq, gt_iff_lt, not_lt] at hle
        exact ⟨field, hfl, hxl.symm, by omega, rfl⟩

theorem framed_readVariable (short : Bool) (bs : List UInt8) : Framed (readVariable short) bs where
  ok {x rest} hy := by
    obtain ⟨field, hf, hn, hl, rfl⟩ := readVariable_parts hy
    refine ⟨field ++ x, (List.append_assoc _ _ _).symm, fun s => ?_⟩
    rw [List.append_assoc]
    exact ⟨_, readVariable_field hf hn hl s⟩
  error h hend s := by
    unfold readVariable at h ⊢
    cases hf : readExact (if short then 1 else 4) bs with
    | error e' =>
      rw [hf] at h
      cases h
      simp [readExact_error_isEnd hf] at hend
    | ok p =>
      obtain ⟨field, r, hr⟩ := p
      -- the length field reads alike, and the length alone decides the refusal
      obtain ⟨_, hf'⟩ := (framed_readExact _ bs).append ⟨hr, hf⟩ s
      rw [hf] at h
      rw [hf']
      dsimp only at h ⊢
      split at h
      · rename_i hlong
        rw [if_pos hlong]
        cases h
        rfl
      · split at h
        · rename_i e' hx
          cases h
          simp [readExact_error_isEnd hx] at hend
        · cases h

end Fields

/-! ## Compounds -/

section Compounds

variable {short : Bool} {bs body rest : List UInt8} {count : Nat} {e : CodecError}

/-- A list cut after two fields of width `w` and a body of `k` elements. -/
theorem take_drop_pieces {α : Type} (l : List α) (w k : Nat) :
    l = l.take w ++ (l.drop w).take w ++ (l.drop (2 * w)).take k ++ (l.drop (2 * w)).drop k := by
  rw [List.append_assoc, List.take_append_drop, List.append_assoc, Nat.two_mul, ← List.drop_drop,
    List.take_append_drop, List.take_append_drop]

/-- The size and count fields of a compound the reader took, then its body, then what follows. -/
theorem readCompound_parts {h1 : body.length < bs.length} {h2 : rest.length ≤ bs.length}
    (h : readCompound short bs = .ok ⟨body, count, rest, h1, h2⟩) :
    ∃ size cnt, size.length = (if short then 1 else 4) ∧ cnt.length = (if short then 1 else 4) ∧
      ofBigEndian size = body.length + (if short then 1 else 4) ∧ ofBigEndian size ≤ 2 ^ 31 - 1 ∧
      ofBigEndian cnt = count ∧ count ≤ 2 ^ 24 ∧ bs = size ++ cnt ++ body ++ rest := by
  cases short <;> unfold readCompound at h <;> simp only [Bool.false_eq_true, ↓reduceIte] at h ⊢
  -- the same four checks at either width: room for the fields, size, count, room for the body
  all_goals
    split at h
    case isFalse => cases h
    rename_i hw
    split at h
    · cases h
    rename_i hsize
    split at h
    · cases h
    rename_i hcount
    split at h
    case isFalse => cases h
    rename_i hfit
    simp only [Except.ok.injEq, Compound.mk.injEq] at h
    obtain ⟨rfl, rfl, rfl⟩ := h
    simp only [Nat.pow_eq, not_or, not_lt, gt_iff_lt, List.length_drop] at hsize hcount hfit
    refine ⟨_, _, ?_, ?_, ?_, by omega, rfl, by omega, take_drop_pieces bs _ _⟩
    all_goals simp only [List.length_take, List.length_drop]
    all_goals omega

/-- The fields and body of a compound the reader took are a prefix of its input, and read alike
whatever follows them. -/
theorem readCompound_framed {h1 : body.length < bs.length} {h2 : rest.length ≤ bs.length}
    (h : readCompound short bs = .ok ⟨body, count, rest, h1, h2⟩) :
    ∃ c, bs = c ++ rest ∧
      ∀ s, ∃ h1 h2, readCompound short (c ++ s) = .ok ⟨body, count, s, h1, h2⟩ := by
  obtain ⟨size, cnt, hsz, hct, hsize, hlim, rfl, hcount, rfl⟩ := readCompound_parts h
  refine ⟨size ++ cnt ++ body, rfl, fun s => ?_⟩
  exact readCompound_fields hsz hct hsize hlim hcount s

theorem readCompound_append {h1 : body.length < bs.length} {h2 : rest.length ≤ bs.length}
    (h : readCompound short bs = .ok ⟨body, count, rest, h1, h2⟩) (s : List UInt8) :
    ∃ h1 h2, readCompound short (bs ++ s) = .ok ⟨body, count, rest ++ s, h1, h2⟩ := by
  obtain ⟨c, rfl, hc⟩ := readCompound_framed h
  rw [List.append_assoc]
  exact hc (rest ++ s)

/-- A compound refused for its fields is refused alike whatever follows. -/
theorem readCompound_error_append (h : readCompound short bs = .error e) (hend : e.isEnd = false)
    (s : List UInt8) : readCompound short (bs ++ s) = .error e := by
  cases short <;> unfold readCompound at h ⊢ <;> simp only [Bool.false_eq_true, ↓reduceIte] at h ⊢
  all_goals
    split at h
    case isFalse => cases h; simp [CodecError.isEnd] at hend
    rename_i hw
    -- both fields lie within `bs`, so they read alike, and so do the checks of their values
    simp (disch := first | omega | (simp only [List.length_drop]; omega)) only
      [List.take_append_of_le_length, List.drop_append_of_le_length]
    rw [dif_pos (by simp; omega)]
    split at h
    · rw [if_pos ‹_›]
      cases h
      rfl
    rw [if_neg ‹_›]
    split at h
    · rw [if_pos ‹_›]
      cases h
      rfl
    rw [if_neg ‹_›]
    -- only the room for the body is left, and lacking it is the end of the input
    split at h
    · cases h
    · cases h
      simp [CodecError.isEnd] at hend

/-- A mapped computation that failed fails alike under any other map. -/
theorem map_error_of_map_error {ε α β γ : Type} {f : α → β} {g : α → γ} {x : Except ε α} {e : ε}
    (h : x.map f = .error e) : x.map g = .error e :=
  Except.map_eq_error.mpr (Except.map_eq_error.mp h)

theorem framed_readList (short : Bool) (bs : List UInt8) : Framed (readList short) bs where
  ok hy := by
    obtain ⟨body, count, h1, h2, items, hc, hi, rfl⟩ := readList_yields hy
    obtain ⟨c, hbs, hc'⟩ := readCompound_framed hc
    refine ⟨c, hbs, fun s => ?_⟩
    obtain ⟨_, _, hcs⟩ := hc' s
    exact readList_of_items hcs hi
  error h hend s := by
    rw [readList] at h ⊢
    cases hc : readCompound short bs with
    | error e' =>
      rw [hc] at h
      cases h
      rw [readCompound_error_append hc hend s]
    | ok c =>
      obtain ⟨body, count, rest, h1, h2⟩ := c
      obtain ⟨_, _, hcs⟩ := readCompound_append hc s
      rw [hc] at h
      rw [hcs]
      dsimp only at h ⊢
      -- the items are read from the same body
      split at h
      · rename_i e' hi
        cases h
        rfl
      · rename_i items left _ hi
        exact map_error_of_map_error h

theorem framed_readMap (short : Bool) (bs : List UInt8) : Framed (readMap short) bs where
  ok hy := by
    obtain ⟨body, n, h1, h2, entries, hc, he, rfl⟩ := readMap_yields hy
    obtain ⟨c, hbs, hc'⟩ := readCompound_framed hc
    refine ⟨c, hbs, fun s => ?_⟩
    obtain ⟨_, _, hcs⟩ := hc' s
    exact readMap_of_entries hcs he
  error h hend s := by
    rw [readMap] at h ⊢
    cases hc : readCompound short bs with
    | error e' =>
      rw [hc] at h
      cases h
      rw [readCompound_error_append hc hend s]
    | ok c =>
      obtain ⟨body, count, rest, h1, h2⟩ := c
      obtain ⟨_, _, hcs⟩ := readCompound_append hc s
      rw [hc] at h
      rw [hcs]
      dsimp only at h ⊢
      -- the count and the entries are read from the same fields and body
      split at h
      · rename_i hodd
        rw [if_pos hodd]
        cases h
        rfl
      · rename_i heven
        rw [if_neg heven]
        split at h
        · rename_i e' he
          cases h
          rfl
        · rename_i entries left _ he
          exact map_error_of_map_error h

theorem framed_readArray (short : Bool) (bs : List UInt8) : Framed (readArray short) bs where
  ok hy := by
    obtain ⟨body, count, h1, h2, hc, rest'⟩ := readArray_yields hy
    obtain ⟨c, hbs, hc'⟩ := readCompound_framed hc
    refine ⟨c, hbs, fun s => ?_⟩
    obtain ⟨_, _, hcs⟩ := hc' s
    obtain ⟨code, after, items, hne, hi, ⟨rfl, rfl⟩ | ⟨dbody, d, rfl, hd, hok, rfl⟩⟩ := rest'
    · exact readArray_of_elements hcs hne hi
    · exact readArray_of_descriptor hcs hd hok hne hi
  error h hend s := by
    rw [readArray] at h ⊢
    cases hc : readCompound short bs with
    | error e' =>
      rw [hc] at h
      cases h
      rw [readCompound_error_append hc hend s]
    | ok c =>
      obtain ⟨body, count, rest, h1, h2⟩ := c
      obtain ⟨_, _, hcs⟩ := readCompound_append hc s
      rw [hc] at h
      rw [hcs]
      dsimp only at h ⊢
      -- everything after the fields is read from the same body, branch by branch
      cases body with
      | nil =>
        simp only at h ⊢
        cases h
        rfl
      | cons b after =>
        dsimp only at h ⊢
        split at h
        · rename_i hb
          rw [if_pos hb]
          split at h
          · rename_i e' hd
            cases h
            rfl
          · rename_i d r hr hd
            split at h
            · rename_i e' hok
              cases h
              rfl
            · rename_i hok
              split at h
              · cases h
                rfl
              · rename_i code after' _
                split at h
                · rename_i hcd
                  rw [if_pos hcd]
                  cases h
                  rfl
                · rename_i hcd
                  rw [if_neg hcd]
                  split at h
                  · rename_i e' hi
                    cases h
                    rfl
                  · rename_i items left _ hi
                    exact map_error_of_map_error h
        · rename_i hb
          rw [if_neg hb]
          split at h
          · rename_i e' hi
            cases h
            rfl
          · rename_i items left _ hi
            exact map_error_of_map_error h

end Compounds

/-! ## Values -/

section Values

variable {code : UInt8} {bs : List UInt8}

/-- A described body: a descriptor the decoder accepts, then the value it describes. -/
theorem readBody_described_yields {rest : List UInt8} {v : Value}
    (hc : Code.ofByte? code = some .described) (h : Yields (readBody code bs) v rest) :
    ∃ d r w, Yields (readValue bs) d r ∧ descriptorOk d = .ok () ∧ Yields (readValue r) w rest ∧
      v = .describedRef d w := by
  obtain ⟨_, e⟩ := h
  rw [readBody, hc] at e
  dsimp only at e
  split at e
  · cases e
  · rename_i d r hr hd
    split at e
    · cases e
    · rename_i hok
      split at e
      · cases e
      · rename_i w r2 h2 hw
        simp only [Except.ok.injEq, Prod.mk.injEq, Subtype.mk.injEq] at e
        obtain ⟨rfl, rfl⟩ := e
        exact ⟨d, r, w, ⟨hr, hd⟩, hok, ⟨h2, hw⟩, rfl⟩

/-- A described value is framed where values are framed on its input and every shorter one:
its descriptor is read from the front, and the value from what the descriptor left. -/
theorem framed_readBody_described (hc : Code.ofByte? code = some .described)
    (ih : ∀ xs : List UInt8, xs.length ≤ bs.length → Framed readValue xs) :
    Framed (readBody code) bs where
  ok hy := by
    obtain ⟨d, r, w, hd, hok, hw, rfl⟩ := readBody_described_yields hc hy
    obtain ⟨c2, hr, hc2⟩ := (ih r hd.length_le).ok hw
    obtain ⟨c1, hbs, hc1⟩ := (ih bs (Nat.le_refl _)).ok hd
    refine ⟨c1 ++ c2, by rw [hbs, hr, List.append_assoc], fun s => ?_⟩
    rw [List.append_assoc, ← Code.toByte_of_ofByte? hc]
    exact readBody_described (hc1 (c2 ++ s)) hok (hc2 s)
  error h hend s := by
    rw [readBody, hc] at h ⊢
    dsimp only at h ⊢
    split at h
    · -- the descriptor is refused alike
      rename_i e' hd
      cases h
      rw [(ih bs (Nat.le_refl _)).error hd hend s]
    · -- the descriptor reads alike, and then the refusal is its kind's or the value's
      rename_i d r hr hd
      obtain ⟨_, hd'⟩ := (ih bs (Nat.le_refl _)).append ⟨hr, hd⟩ s
      rw [hd']
      dsimp only
      split at h
      · cases h
        rfl
      · split at h
        · rename_i e' hw
          cases h
          rw [(ih r hr).error hw hend s]
        · cases h

/-- A body is framed under every constructor, where values are framed on its input and every
shorter one. -/
theorem framed_readBody (code : UInt8) (bs : List UInt8)
    (ih : ∀ xs : List UInt8, xs.length ≤ bs.length → Framed readValue xs) :
    Framed (readBody code) bs := by
  rcases hc : Code.ofByte? code with _ | c
  · show Framed (fun xs => readBody code xs) bs
    simp only [readBody, hc]
    exact Framed.fail _
  cases c
  case described => exact framed_readBody_described hc ih
  -- every other constructor reads one field or one compound
  all_goals show Framed (fun xs => readBody code xs) bs
  all_goals simp only [readBody, hc]
  case null | boolTrue | boolFalse | uint0 | ulong0 | list0 => exact Framed.pure _
  case bool | ubyte | ushort | smallUint | uint | smallUlong | ulong | byte | short | smallInt
      | int | smallLong | long | float | double | char | timestamp =>
    exact framed_readScalar _ _ bs
  case decimal32 =>
    exact (framed_readFull 4 bs).map fun x => if h : x.length = 4 then Value.decimal32 ⟨x, h⟩ else Value.null
  case decimal64 =>
    exact (framed_readFull 8 bs).map fun x => if h : x.length = 8 then Value.decimal64 ⟨x, h⟩ else Value.null
  case decimal128 =>
    exact (framed_readFull 16 bs).map fun x => if h : x.length = 16 then Value.decimal128 ⟨x, h⟩ else Value.null
  case uuid =>
    exact (framed_readFull 16 bs).map fun x => if h : x.length = 16 then Value.uuid ⟨x, h⟩ else Value.null
  case vbin8 | vbin32 | str8 | str32 | sym8 | sym32 => exact (framed_readVariable _ bs).map _
  case list8 | list32 => exact framed_readList _ bs
  case map8 | map32 => exact framed_readMap _ bs
  case array8 | array32 => exact framed_readArray _ bs

/-- Every reader of values is framed on every input. -/
theorem framed_readValue (bs : List UInt8) : Framed readValue bs := by
  cases bs with
  | nil =>
    -- nothing to read: the only refusal is the end of the input
    refine ⟨fun hy => ?_, fun h hend _ => ?_⟩
    · obtain ⟨b, bs', he, _⟩ := readValue_yields hy
      cases he
    · rw [readValue] at h
      cases h
      simp [CodecError.isEnd] at hend
  | cons b bs =>
    -- the constructor byte, then a body framed by induction on the length
    have hb := framed_readBody b bs fun xs _ => framed_readValue xs
    refine ⟨fun hy => ?_, fun h hend s => ?_⟩
    · obtain ⟨b', bs', he, hy'⟩ := readValue_yields hy
      obtain ⟨rfl, rfl⟩ := List.cons.inj he
      obtain ⟨c, rfl, hc⟩ := hb.ok hy'
      exact ⟨_ :: c, rfl, fun s => readValue_cons (hc s)⟩
    · rw [readValue] at h ⊢
      simp only [readByte, List.cons_append] at h ⊢
      split at h
      · rename_i e' he
        cases h
        rw [hb.error he hend s]
      · cases h
termination_by bs.length
decreasing_by simp only [List.length_cons]; omega

end Values

/-! ## The decoder -/

section Decoder

variable {b : List UInt8}

/-- The decoder reads the same value and count from the bytes it took followed by any bytes. -/
theorem decode_take_append {v : Value} {n : Nat} (h : decode b = .ok (v, n)) :
    ∃ c, c.length = n ∧ b = c ++ b.drop n ∧ ∀ s, decode (c ++ s) = .ok (v, n) := by
  unfold decode at h
  split at h
  · rename_i v' r hr e
    simp only [Except.ok.injEq, Prod.mk.injEq] at h
    obtain ⟨rfl, rfl⟩ := h
    obtain ⟨c, hb, hc⟩ := (framed_readValue b).ok ⟨hr, e⟩
    have hn : b.length - r.length = c.length := by rw [hb, List.length_append]; omega
    refine ⟨c, hn.symm, by rw [hn, hb, List.drop_left], fun s => ?_⟩
    obtain ⟨_, e'⟩ := hc s
    simp [decode, e', hn]
  · cases h

/-- A refusal other than a short buffer is the same refusal whatever follows. -/
theorem decode_error_append {e : CodecError} (h : decode b = .error e)
    (hshort : ∀ k, e ≠ .shortBuffer k) (s : List UInt8) : decode (b ++ s) = .error e := by
  unfold decode at h ⊢
  split at h
  · cases h
  · rename_i e' he
    cases hend : e'.isEnd
    · simp only [hend, Bool.false_eq_true, ↓reduceIte, Except.error.injEq] at h
      subst h
      rw [(framed_readValue b).error he hend s]
      simp [hend]
    · simp only [hend, ↓reduceIte, Except.error.injEq] at h
      exact absurd h.symm (hshort _)

/-- The decoder is self-delimiting and prefix-monotone. A value it reads from `b` in `n` bytes it
reads in `n` bytes from `b` followed by any bytes and from the first `n` bytes of `b` alone; a
refusal other than a short buffer is the same refusal whatever follows `b`; and when `b` is a
short buffer, so is every prefix of it. -/
theorem decode_self_delimiting (b s : List UInt8) :
    (∀ v n, decode b = .ok (v, n) → decode (b ++ s) = .ok (v, n) ∧ decode (b.take n) = .ok (v, n)) ∧
      (∀ e, decode b = .error e → (∀ k, e ≠ .shortBuffer k) → decode (b ++ s) = .error e) ∧
      (∀ k, decode b = .error (.shortBuffer k) →
        ∀ p, p <+: b → ∃ k', decode p = .error (.shortBuffer k')) := by
  refine ⟨fun v n h => ?_, fun e h hshort => decode_error_append h hshort s, fun k h p hp => ?_⟩
  · obtain ⟨c, hc, hb, hcs⟩ := decode_take_append h
    refine ⟨?_, ?_⟩
    · rw [hb, List.append_assoc]
      exact hcs _
    · rw [hb, List.take_left' hc, ← List.append_nil c]
      exact hcs []
  · -- a prefix that decoded, or failed otherwise, would decide `b` the same way
    obtain ⟨t, rfl⟩ := hp
    cases hd : decode p with
    | ok r =>
      obtain ⟨v, n⟩ := r
      obtain ⟨c, -, hpc, hcs⟩ := decode_take_append hd
      rw [hpc, List.append_assoc, hcs] at h
      cases h
    | error e =>
      by_cases he : ∃ k', e = .shortBuffer k'
      · obtain ⟨k', rfl⟩ := he
        exact ⟨k', rfl⟩
      · rw [decode_error_append hd (fun k' h' => he ⟨k', h'⟩) t] at h
        exact absurd ⟨k, Except.error.inj h⟩ he

/-- A one-byte string is read from its three bytes alike with a null after them and from the
three bytes alone. -/
theorem short_string_self_delimiting :
    decode ([0xa1, 1, 0x61] ++ [0x40]) = .ok (.string [0x61], 3) ∧
      decode ([0xa1, 1, 0x61].take 3) = .ok (.string [0x61], 3) := by
  have hd : decode [0xa1, 1, 0x61] = .ok (.string [0x61], 3) := by
    obtain ⟨_, e⟩ := readValue_cons (readBody_scalarBody (c := .str8)
      (show (Value.string [0x61]).scalarBody .str8 = .ok [1, 0x61] from rfl) (by decide) [])
    have e' : readValue [0xa1, 1, 0x61] = _ := e
    simp [decode, e']
  exact (decode_self_delimiting _ [0x40]).1 _ _ hd

end Decoder

end Courier.Amqp
