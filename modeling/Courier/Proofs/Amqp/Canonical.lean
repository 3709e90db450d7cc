import Courier.Proofs.Amqp.Inversion
import Courier.Proofs.Amqp.RoundTrip

/-!
# Decoding normalises

What the decoder reads, the encoder writes again in its narrowest form: in no more bytes than
were read, and so that reading the new bytes gives back the very same value. Decoding and then
encoding is therefore a canonicalisation that never grows its input, and its output is a fixed
point: decoding it and encoding again gives it back.

`Normal v n` says that `v` is written in at most `n` bytes that read back as `v` whatever follows
them; `NormalAs code v n` says the same of its body under an array's element constructor. Every
value read from `n` bytes is normal in `n` bytes, by induction along the readers.

- `scalarBody_scalarCode`: a scalar's own constructor is the narrowest that accepts it;
- `Normal.compound`, `NormalAs.compound`: a compound whose body is no longer than the one read;
- `Normal.of_readValue`, `Normal.of_readBody`: the induction along the readers;
- `decode_encode_decode`: encoding what was decoded gives no more bytes, which decode to it.
-/

set_option autoImplicit false

namespace Courier.Amqp

open Courier.Bytes Value

/-- The value is written in at most `n` bytes, which read back as the value whatever follows. -/
def Normal (v : Value) (n : Nat) : Prop :=
  ∃ out, v.encode = .ok out ∧ out.length ≤ n ∧ ∀ tail, Yields (readValue (out ++ tail)) v tail

/-- The value's body under an array's element constructor is written in at most `n` bytes, which
read back under that constructor as the value whatever follows. -/
def NormalAs (code : UInt8) (v : Value) (n : Nat) : Prop :=
  ∃ out, elementBody code v = .ok out ∧ out.length ≤ n ∧
    ∀ tail, Yields (readBody code (out ++ tail)) v tail

theorem Normal.mono {v : Value} {n m : Nat} (h : Normal v n) (hnm : n ≤ m) : Normal v m := by
  obtain ⟨out, he, hl, hr⟩ := h
  exact ⟨out, he, by omega, hr⟩

/-! ## Scalars -/

/-- The writer puts a value with a scalar constructor under that constructor. -/
theorem encode_eq_writeScalar {v : Value} {c : Code} (h : v.scalarCode = some c) :
    v.encode = v.writeScalar := by
  cases v <;> first | rfl | simp [scalarCode] at h

/-- A scalar's own constructor is its narrowest: under any constructor that accepts it, its body
is at least as long as under its own. -/
theorem scalarBody_scalarCode {c : Code} {v : Value} {body : List UInt8}
    (h : v.scalarBody c = .ok body) (hv : v ≠ .list []) :
    ∃ c0 body0, v.scalarCode = some c0 ∧ v.scalarBody c0 = .ok body0 ∧
      body0.length ≤ body.length := by
  -- one case per constructor, then one per type of value it takes
  cases c <;> simp only [scalarBody] at h
  all_goals first | (simp [misfit] at h; done) | skip
  all_goals split at h
  all_goals first | (simp [misfit] at h; done) | skip
  all_goals (try simp only [unsignedBody, signedBody] at h)
  all_goals (try split at h)
  all_goals first | (simp [misfit] at h; done) | skip
  all_goals (try obtain rfl := Except.ok.inj h)
  -- the value's own constructor, chosen by its size where it has several; the empty list,
  -- the one value under the zero-width list constructor, is excluded
  all_goals simp only [scalarCode, Option.some.injEq]
  all_goals (try split_ifs)
  all_goals simp_all [scalarBody, unsignedBody, signedBody, varBytes, smallSigned, UInt32.ext_iff,
    UInt64.ext_iff]
  -- a short text that arrived under the wide constructor
  all_goals rw [if_neg (by omega)]
  all_goals simp only [Except.ok.injEq, exists_eq_left', List.length_cons]
  all_goals omega

/-- A value with a scalar body under some constructor is written, under its own, in at most one
byte more, and reads back. -/
theorem Normal.of_scalarBody {c : Code} {v : Value} {body : List UInt8}
    (h : v.scalarBody c = .ok body) (hl : body.length ≤ 4 + (2 ^ 31 - 1)) :
    Normal v (body.length + 1) := by
  by_cases hv : v = .list []
  · -- the empty list has a constructor of its own and no body
    subst hv
    exact ⟨[Code.list0.toByte], rfl, by simp,
      fun tail => readValue_cons (readBody_scalarBody (c := .list0) rfl (by decide) tail)⟩
  · obtain ⟨c0, body0, hc0, hb0, hle⟩ := scalarBody_scalarCode h hv
    have hw : v.writeScalar = .ok (c0.toByte :: body0) := by
      simp [writeScalar, hc0, hb0, Functor.map, Except.map]
    exact ⟨_, (encode_eq_writeScalar hc0).trans hw, by simp; omega,
      readValue_writeScalar hw (by simp; omega)⟩

/-- A scalar under a constructor that accepts it is an element under that constructor. -/
theorem elementBody_of_scalarBody {code : UInt8} {c : Code} (hc : Code.ofByte? code = some c)
    {v : Value} {body : List UInt8} (h : v.scalarBody c = .ok body) :
    elementBody code v = .ok body := by
  unfold elementBody
  rw [hc]
  -- the compound constructors take no scalar body
  cases c <;> first | exact h | simp [scalarBody, misfit] at h

theorem NormalAs.of_scalarBody {code : UInt8} {c : Code} (hc : Code.ofByte? code = some c)
    {v : Value} {body : List UInt8} (h : v.scalarBody c = .ok body)
    (hl : body.length ≤ 4 + (2 ^ 31 - 1)) : NormalAs code v body.length := by
  refine ⟨body, elementBody_of_scalarBody hc h, Nat.le_refl _, fun tail => ?_⟩
  rw [← Code.toByte_of_ofByte? hc]
  exact readBody_scalarBody h hl tail

/-! ## Compounds -/

section Compound

variable {short : Bool} {bs body rest : List UInt8} {count : Nat} {h1 : body.length < bs.length}
  {h2 : rest.length ≤ bs.length}

theorem fitsShort_of_le {len len' count : Nat} (h : fitsShort len count = true) (hle : len' ≤ len) :
    fitsShort len' count = true := by
  simp only [fitsShort, Bool.and_eq_true, decide_eq_true_eq] at h ⊢
  omega

/-- A body no longer than one the reader took from compound fields fits those fields again: in
the form it was read in, and in the narrowest form, neither longer than what was read. -/
theorem readCompound_shorter (hc : readCompound short bs = .ok ⟨body, count, rest, h1, h2⟩)
    {out : List UInt8} (hle : out.length ≤ body.length) :
    (short = true → fitsShort out.length count = true) ∧ out.length + 4 < 2 ^ 31 ∧
      count ≤ 2 ^ 24 ∧ (compound short out count).length ≤ bs.length - rest.length ∧
      (compound (fitsShort out.length count) out count).length ≤ bs.length - rest.length := by
  obtain ⟨hlen, hct, hsz, hfits⟩ := readCompound_ok hc
  dsimp only at hlen hct hsz hfits
  have hs : short = true → fitsShort out.length count = true :=
    fun h => fitsShort_of_le (hfits h) hle
  refine ⟨hs, by omega, hct, ?_, ?_⟩
  · rw [length_compound]
    cases short <;> simp at hlen ⊢ <;> omega
  · rw [length_compound]
    cases hf : fitsShort out.length count
    · -- too large for one-byte fields, so it was not read with them either
      cases short
      · simp at hlen ⊢; omega
      · simp [hs rfl] at hf
    · cases short <;> simp at hlen ⊢ <;> omega

variable {narrow wide : Code} {R : (s : Bool) → (xs : List UInt8) → Read xs Value} {v : Value}
  {out : List UInt8}

/-- A compound value reads back from its body under fields of either width that hold it, when
its reader takes it back from any fields around that body. -/
theorem readBody_compound (hR : ∀ s xs, readBody (if s then narrow else wide).toByte xs = R s xs)
    (hread : ∀ s (xs tail : List UInt8) h1 h2,
      readCompound s xs = .ok ⟨out, count, tail, h1, h2⟩ → Yields (R s xs) v tail)
    {s : Bool} (hs : s = true → fitsShort out.length count = true) (hsz : out.length + 4 < 2 ^ 31)
    (hct : count ≤ 2 ^ 24) (tail : List UInt8) :
    Yields (readBody (if s then narrow else wide).toByte (compound s out count ++ tail)) v tail := by
  obtain ⟨_, _, e⟩ := readCompound_compound hs hsz hct tail
  rw [hR]
  exact hread s _ tail _ _ e

/-- A compound value read from compound fields, whose body is written again no longer, is
written under the narrower constructor that holds it in no more bytes, and reads back. -/
theorem Normal.compound (hR : ∀ s xs, readBody (if s then narrow else wide).toByte xs = R s xs)
    (hc : readCompound short bs = .ok ⟨body, count, rest, h1, h2⟩)
    (hle : out.length ≤ body.length) (henc : v.encode = .ok (narrowest narrow wide out count))
    (hread : ∀ s (xs tail : List UInt8) h1 h2,
      readCompound s xs = .ok ⟨out, count, tail, h1, h2⟩ → Yields (R s xs) v tail) :
    Normal v (bs.length - rest.length + 1) := by
  obtain ⟨-, hsz, hct, -, hlen⟩ := readCompound_shorter hc hle
  refine ⟨_, henc, by simp only [narrowest, List.length_cons]; omega, fun tail => ?_⟩
  exact readValue_cons (readBody_compound hR hread id hsz hct tail)

/-- The same body is written again under the constructor the value was read under. -/
theorem NormalAs.compound (hR : ∀ s xs, readBody (if s then narrow else wide).toByte xs = R s xs)
    (hc : readCompound short bs = .ok ⟨body, count, rest, h1, h2⟩)
    (hle : out.length ≤ body.length)
    (helem : ∀ s, (s = true → fitsShort out.length count = true) →
      elementBody (if s then narrow else wide).toByte v = .ok (compound s out count))
    (hread : ∀ s (xs tail : List UInt8) h1 h2,
      readCompound s xs = .ok ⟨out, count, tail, h1, h2⟩ → Yields (R s xs) v tail) :
    NormalAs (if short then narrow else wide).toByte v (bs.length - rest.length) := by
  obtain ⟨hs, hsz, hct, hlen, -⟩ := readCompound_shorter hc hle
  exact ⟨_, helem short hs, hlen, readBody_compound hR hread hs hsz hct⟩

end Compound

section Kinds

variable {short : Bool} {bs body rest : List UInt8} {h1 : body.length < bs.length}
  {h2 : rest.length ≤ bs.length} {out : List UInt8}

/-- A list whose items are written again no longer, and read back from what is written. -/
theorem Normal.list {count : Nat} (hc : readCompound short bs = .ok ⟨body, count, rest, h1, h2⟩)
    {items : List Value} (hn : items.length = count) (he : encodeAll items = .ok out)
    (hle : out.length ≤ body.length) (hr : Yields (readItems count out) items []) :
    Normal (.list items) (bs.length - rest.length + 1) ∧
      NormalAs (if short then Code.list8 else .list32).toByte (.list items)
        (bs.length - rest.length) := by
  subst hn
  have hread : ∀ s (xs tail : List UInt8) h1 h2,
      readCompound s xs = .ok ⟨out, items.length, tail, h1, h2⟩ →
        Yields (readList s xs) (.list items) tail :=
    fun _ _ _ _ _ e => readList_of_items e hr
  refine ⟨?_, NormalAs.compound readBody_list hc hle (fun s hs => ?_) hread⟩
  · cases items with
    | nil =>
      -- the empty list has a constructor of its own and no body
      exact ⟨[Code.list0.toByte], rfl, by simp,
        fun tail => readValue_cons (readBody_scalarBody (c := .list0) rfl (by decide) tail)⟩
    | cons w ws => exact Normal.compound readBody_list hc hle (encode_list_cons.mpr ⟨out, he, rfl⟩) hread
  · rw [elementBody_list, Code.ofByte?_toByte]
    cases s <;> exact bind_eq_ok.mpr ⟨out, he, sized_ok.mpr ⟨hs, rfl⟩⟩

/-- A map whose entries are written again no longer, and read back from what is written. -/
theorem Normal.map {n : Nat} (hc : readCompound short bs = .ok ⟨body, 2 * n, rest, h1, h2⟩)
    {entries : List (Value × Value)} (hn : entries.length = n) (he : encodeEntries entries = .ok out)
    (hle : out.length ≤ body.length) (hr : Yields (readEntries n out) entries []) :
    Normal (.map entries) (bs.length - rest.length + 1) ∧
      NormalAs (if short then Code.map8 else .map32).toByte (.map entries)
        (bs.length - rest.length) := by
  subst hn
  have hread : ∀ s (xs tail : List UInt8) h1 h2,
      readCompound s xs = .ok ⟨out, 2 * entries.length, tail, h1, h2⟩ →
        Yields (readMap s xs) (.map entries) tail :=
    fun _ _ _ _ _ e => readMap_of_entries e hr
  exact ⟨Normal.compound readBody_map hc hle (encode_map.mpr ⟨out, he, rfl⟩) hread,
    NormalAs.compound readBody_map hc hle
      (fun _ hs => elementBody_map_of_entries (Code.ofByte?_toByte _) he hs) hread⟩

/-- An array whose descriptor and element bodies are written again no longer, and read back
from what is written. -/
theorem Normal.array {count : Nat} (hc : readCompound short bs = .ok ⟨body, count, rest, h1, h2⟩)
    {d : Option Value} {c : UInt8} {items : List Value} (hn : items.length = count)
    (hcontent : arrayContent c (fun _ => elementCode none items) (encodeDescriptor d)
      (fun code => elementBodies code items) = .ok out)
    (hle : out.length ≤ body.length)
    (hread : ∀ s (xs tail : List UInt8) h1 h2,
      readCompound s xs = .ok ⟨out, count, tail, h1, h2⟩ →
        Yields (readArray s xs) (.array d c items) tail) :
    Normal (.array d c items) (bs.length - rest.length + 1) ∧
      NormalAs (if short then Code.array8 else .array32).toByte (.array d c items)
        (bs.length - rest.length) := by
  subst hn
  refine ⟨Normal.compound readBody_array hc hle (encode_array.mpr ⟨out, hcontent, rfl⟩) hread,
    NormalAs.compound readBody_array hc hle (fun s hs => ?_) hread⟩
  rw [elementBody_array, Code.ofByte?_toByte]
  cases s <;> exact bind_eq_ok.mpr ⟨out, hcontent, sized_ok.mpr ⟨hs, rfl⟩⟩

end Kinds

/-- A described value whose descriptor and value are normal is normal in one byte more. -/
theorem Normal.describedRef {d w : Value} {m k : Nat} (hd : Normal d m)
    (hok : descriptorOk d = .ok ()) (hw : Normal w k) : Normal (.describedRef d w) (m + k + 1) := by
  obtain ⟨dd, ed, ld, rd⟩ := hd
  obtain ⟨ww, ew, lw, rw'⟩ := hw
  refine ⟨Code.described.toByte :: dd ++ ww, ?_, by simp; omega, fun tail => ?_⟩
  · rw [encode_describedRef]
    exact encode_described.mpr ⟨dd, ww, hok, ed, ew, rfl⟩
  · rw [List.cons_append, List.cons_append, List.append_assoc]
    exact readValue_cons (readBody_described (rd (ww ++ tail)) hok (rw' tail))

/-! ## Along the readers -/

mutual

/-- A value read from some bytes is normal in as many bytes. -/
theorem Normal.of_readValue {bs rest : List UInt8} {v : Value} (h : Yields (readValue bs) v rest) :
    Normal v (bs.length - rest.length) := by
  obtain ⟨b, bs', rfl, hb⟩ := readValue_yields h
  have hle := hb.length_le
  refine (Normal.of_readBody hb).1.mono ?_
  simp only [List.length_cons]
  omega
termination_by (bs.length, 0, 0)

/-- A body read under its constructor is normal in one byte more, and, unless the constructor
is the descriptor mark, normal as an element in as many bytes. -/
theorem Normal.of_readBody {code : UInt8} {bs rest : List UInt8} {v : Value}
    (h : Yields (readBody code bs) v rest) :
    Normal v (bs.length - rest.length + 1) ∧
      (code ≠ Code.described.toByte → NormalAs code v (bs.length - rest.length)) := by
  rcases readBody_cases h with ⟨c, body, hc, hs, hlen, hl⟩ | ⟨short, rfl, hl⟩ | ⟨short, rfl, hm⟩ |
    ⟨short, rfl, ha⟩ | ⟨rfl, d, r, w, hd, hok, hw, rfl⟩
  · -- a scalar
    have hn : bs.length - rest.length = body.length := by omega
    rw [hn]
    exact ⟨Normal.of_scalarBody hs hl, fun _ => NormalAs.of_scalarBody hc hs hl⟩
  · -- a list: its items
    obtain ⟨body, count, h1, h2, items, hc, hi, rfl⟩ := readList_yields hl
    obtain ⟨hn, out, he, hle, hr⟩ := Normal.of_readItems hi
    have hr' := hr []
    rw [List.append_nil] at hr'
    obtain ⟨hl, hla⟩ := Normal.list hc hn he (by simpa using hle) hr'
    exact ⟨hl, fun _ => hla⟩
  · -- a map: its entries
    obtain ⟨body, n, h1, h2, entries, hc, he, rfl⟩ := readMap_yields hm
    obtain ⟨hn, out, ho, hle, hr⟩ := Normal.of_readEntries he
    have hr' := hr []
    rw [List.append_nil] at hr'
    obtain ⟨hl, hla⟩ := Normal.map hc hn ho (by simpa using hle) hr'
    exact ⟨hl, fun _ => hla⟩
  · -- an array: its descriptor if any, then its elements under their constructor
    obtain ⟨body, count, h1, h2, hc, c, after, items, hcd, hi, hshape⟩ := readArray_yields ha
    have hz : ¬c = 0 := hcd
    rcases hshape with ⟨rfl, rfl⟩ | ⟨dbody, d, rfl, hd, hok, rfl⟩
    · have hb : after.length < bs.length := by simp at h1; omega
      obtain ⟨hn, out, ho, hle, hr⟩ := Normal.of_readElements hcd hi
      have hr' := hr []
      rw [List.append_nil] at hr'
      have hcontent : arrayContent c (fun _ => elementCode none items) (encodeDescriptor none)
          (fun code => elementBodies code items) = .ok (c :: out) :=
        arrayContent_ok.mpr ⟨c, [], out, by simp [hz, pure, Except.pure], rfl, ho, rfl⟩
      obtain ⟨hl, hla⟩ := Normal.array hc hn hcontent (by simp at hle ⊢; omega)
        fun _ _ _ _ _ e => readArray_of_elements e hcd hr'
      exact ⟨hl, fun _ => hla⟩
    · have hafter := hd.length_le
      have hb : dbody.length < bs.length := by simp at h1; omega
      have ha' : after.length < bs.length := by simp at h1 hafter; omega
      obtain ⟨dd, ed, ld, rd⟩ := Normal.of_readValue hd
      obtain ⟨hn, out, ho, hle, hr⟩ := Normal.of_readElements hcd hi
      have hr' := hr []
      rw [List.append_nil] at hr'
      have hcontent : arrayContent c (fun _ => elementCode none items) (encodeDescriptor (some d))
          (fun code => elementBodies code items) = .ok (Code.described.toByte :: dd ++ c :: out) :=
        arrayContent_ok.mpr ⟨c, Code.described.toByte :: dd, out, by simp [hz, pure, Except.pure],
          encodeDescriptor_ok.mpr (.inr ⟨d, dd, rfl, hok, ed, rfl⟩), ho, rfl⟩
      obtain ⟨hl, hla⟩ := Normal.array hc hn hcontent (by simp at hle hafter ld ⊢; omega)
        fun _ _ _ _ _ e => readArray_of_descriptor e (rd (c :: out)) hok hcd hr'
      exact ⟨hl, fun _ => hla⟩
  · -- a described value: its descriptor, then the value it describes
    have hr := hd.length_le
    have hd' := Normal.of_readValue hd
    have hw' := Normal.of_readValue hw
    have hrest := hw.length_le
    refine ⟨(Normal.describedRef hd' hok hw').mono (by omega), fun hne => absurd rfl hne⟩
termination_by (bs.length, 1, 1)
decreasing_by
  all_goals first
    | exact lex_of_le (by omega) (Prod.Lex.left _ _ (by decide))
    | exact Prod.Lex.left _ _ (by omega)

/-- Items read one after another are written one after another in no more bytes, and read
back. -/
theorem Normal.of_readItems {n : Nat} {bs rest : List UInt8} {items : List Value}
    (h : Yields (readItems n bs) items rest) :
    items.length = n ∧ ∃ out, encodeAll items = .ok out ∧ out.length ≤ bs.length - rest.length ∧
      ∀ tail, Yields (readItems n (out ++ tail)) items tail := by
  cases n with
  | zero =>
    obtain ⟨rfl, rfl⟩ := readItems_zero_yields h
    exact ⟨rfl, [], rfl, by simp, readItems_zero⟩
  | succ n =>
    obtain ⟨v, r, vs, hv, hs, rfl⟩ := readItems_succ_yields h
    have hr := hv.length_le
    have hrest := hs.length_le
    obtain ⟨a, ea, la, ra⟩ := Normal.of_readValue hv
    obtain ⟨hn, b, eb, lb, rb⟩ := Normal.of_readItems hs
    refine ⟨by simp [hn], a ++ b, encodeAll_cons.mpr ⟨a, b, ea, eb, rfl⟩, by simp; omega,
      fun tail => ?_⟩
    rw [List.append_assoc]
    exact readItems_succ (ra (b ++ tail)) (rb tail)
termination_by (bs.length, 2, n)
decreasing_by
  all_goals first
    | exact lex_of_le (by omega) (Prod.Lex.left _ _ (by omega))
    | exact lex_of_le (by omega) (Prod.Lex.right _ (by omega))

/-- Entries read one after another are written one after another in no more bytes, and read
back. -/
theorem Normal.of_readEntries {n : Nat} {bs rest : List UInt8} {entries : List (Value × Value)}
    (h : Yields (readEntries n bs) entries rest) :
    entries.length = n ∧ ∃ out, encodeEntries entries = .ok out ∧
      out.length ≤ bs.length - rest.length ∧
      ∀ tail, Yields (readEntries n (out ++ tail)) entries tail := by
  cases n with
  | zero =>
    obtain ⟨rfl, rfl⟩ := readEntries_zero_yields h
    exact ⟨rfl, [], rfl, by simp, readEntries_zero⟩
  | succ n =>
    obtain ⟨k, r, v, r2, es, hk, hv, hs, rfl⟩ := readEntries_succ_yields h
    have hr := hk.length_le
    have hr2 := hv.length_le
    have hrest := hs.length_le
    obtain ⟨a, ea, la, ra⟩ := Normal.of_readValue hk
    obtain ⟨b, eb, lb, rb⟩ := Normal.of_readValue hv
    obtain ⟨hn, c, ec, lc, rc⟩ := Normal.of_readEntries hs
    refine ⟨by simp [hn], a ++ b ++ c, encodeEntries_cons.mpr ⟨a, b, c, ea, eb, ec, rfl⟩,
      by simp; omega, fun tail => ?_⟩
    rw [List.append_assoc, List.append_assoc]
    exact readEntries_succ (ra (b ++ (c ++ tail))) (rb (c ++ tail)) (rc tail)
termination_by (bs.length, 2, n)
decreasing_by
  all_goals first
    | exact lex_of_le (by omega) (Prod.Lex.left _ _ (by omega))
    | exact lex_of_le (by omega) (Prod.Lex.right _ (by omega))

/-- Bodies read one after another under an element constructor are written one after another
under it in no more bytes, and read back. -/
theorem Normal.of_readElements {c : UInt8} (hc : c ≠ Code.described.toByte) {n : Nat}
    {bs rest : List UInt8} {items : List Value} (h : Yields (readElements c n bs) items rest) :
    items.length = n ∧ ∃ out, elementBodies c items = .ok out ∧
      out.length ≤ bs.length - rest.length ∧
      ∀ tail, Yields (readElements c n (out ++ tail)) items tail := by
  cases n with
  | zero =>
    obtain ⟨rfl, rfl⟩ := readElements_zero_yields h
    exact ⟨rfl, [], rfl, by simp, readElements_zero c⟩
  | succ n =>
    obtain ⟨v, r, vs, hv, hs, rfl⟩ := readElements_succ_yields h
    have hr := hv.length_le
    have hrest := hs.length_le
    obtain ⟨a, ea, la, ra⟩ := (Normal.of_readBody hv).2 hc
    obtain ⟨hn, b, eb, lb, rb⟩ := Normal.of_readElements hc hs
    refine ⟨by simp [hn], a ++ b, elementBodies_cons.mpr ⟨a, b, ea, eb, rfl⟩, by simp; omega,
      fun tail => ?_⟩
    rw [List.append_assoc]
    exact readElements_succ (ra (b ++ tail)) (rb tail)
termination_by (bs.length, 2, n)
decreasing_by
  all_goals first
    | exact lex_of_le (by omega) (Prod.Lex.left _ _ (by omega))
    | exact lex_of_le (by omega) (Prod.Lex.right _ (by omega))

end

/-! ## Decoding normalises -/

/-- Encoding what was decoded succeeds, takes no more bytes than the decoder read, and gives
bytes that decode, in full, to the same value: decoding and encoding again reproduces them. -/
theorem decode_encode_decode {bs : List UInt8} {v : Value} {n : Nat} (h : decode bs = .ok (v, n)) :
    ∃ out, v.encode = .ok out ∧ out.length ≤ n ∧ decode out = .ok (v, out.length) := by
  unfold decode at h
  split at h
  · rename_i v' r hr e
    simp only [Except.ok.injEq, Prod.mk.injEq] at h
    obtain ⟨rfl, rfl⟩ := h
    obtain ⟨out, he, hle, hback⟩ := Normal.of_readValue ⟨hr, e⟩
    refine ⟨out, he, hle, ?_⟩
    have hy := hback []
    rw [List.append_nil] at hy
    obtain ⟨_, e'⟩ := hy
    simp [decode, e']
  · cases h

/-- A list of one small unsigned integer under wide fields is read from eleven bytes and written
in five, under one-byte fields, which read back as the same list. -/
theorem wide_list_normalises :
    decode [0xd0, 0, 0, 0, 6, 0, 0, 0, 1, 0x52, 7] = .ok (.list [.uint 7], 11) ∧
      ∃ out, (Value.list [.uint 7]).encode = .ok out ∧ out.length ≤ 11 ∧
        decode out = .ok (.list [.uint 7], out.length) := by
  have hc : readCompound false [0, 0, 0, 6, 0, 0, 0, 1, 0x52, 7] =
      .ok ⟨[0x52, 7], 1, [], by decide, by decide⟩ := by
    simp [readCompound, ofBigEndian]
  have hi : Yields (readItems 1 [0x52, 7]) [.uint 7] [] :=
    readItems_succ (readValue_cons (readBody_scalarBody (c := .smallUint) (v := .uint 7) rfl
      (by decide) [])) (readItems_zero [])
  have hl := readList_of_items hc hi
  have hd : decode [0xd0, 0, 0, 0, 6, 0, 0, 0, 1, 0x52, 7] = .ok (.list [.uint 7], 11) := by
    rw [← readBody_list false] at hl
    obtain ⟨_, e⟩ := readValue_cons hl
    have e' : readValue [0xd0, 0, 0, 0, 6, 0, 0, 0, 1, 0x52, 7] = _ := e
    simp [decode, e']
  exact ⟨hd, decode_encode_decode hd⟩

end Courier.Amqp
