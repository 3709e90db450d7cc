import Courier.Hash.Ring

/-!
# Finding a key's position

`search` halves a range of indices until one index is left: the first where the predicate holds,
as long as the predicate stays true once it holds (`search_spec`). On ascending positions,
"at or after the key's digest" is such a predicate. So the index found splits the positions into
those below the digest and those at or after it, and the lookup answers the owner of the first
position of the second part, or of the first position of all when that part is empty
(`Ring.get_of_split`). That position is the one the digest falls to: the smallest at or after
it, or the smallest of all (`FallsTo`, `Ring.get_eq_some_iff`).
-/

set_option autoImplicit false

namespace Courier.Hash

/-! ## The halving search -/

section Search

variable {n : Nat} {p : Nat → Bool}

/-- The halving search keeps its two bounds: started with the predicate failing below `i` and
holding at `j` unless `j` is the end, it answers an index of `[i, j]` that has both facts. -/
theorem search.go_spec (mono : ∀ a b, a ≤ b → b < n → p a = true → p b = true) (i j : Nat)
    (hij : i ≤ j) (hj : j ≤ n) (below : ∀ k < i, p k = false) (at_j : j < n → p j = true) :
    i ≤ search.go p i j ∧ search.go p i j ≤ j ∧ (∀ k < search.go p i j, p k = false) ∧
      (search.go p i j < n → p (search.go p i j) = true) := by
  fun_induction search.go p i j with
  | case1 i j hlt m hm ih =>
    -- the predicate holds at the middle, which becomes the upper bound
    obtain ⟨h₁, h₂, h₃, h₄⟩ := ih (by omega) (by omega) below fun _ => hm
    exact ⟨h₁, by omega, h₃, h₄⟩
  | case2 i j hlt m hm ih =>
    -- it fails at the middle, so at every index up to it: the lower bound moves past it
    have below' : ∀ k < m + 1, p k = false := by
      intro k hk
      cases hpk : p k
      · rfl
      · exact absurd (mono k _ (by omega) (by omega) hpk) hm
    obtain ⟨h₁, h₂, h₃, h₄⟩ := ih (by omega) hj below' at_j
    exact ⟨by omega, h₂, h₃, h₄⟩
  | case3 i j hge =>
    obtain rfl : i = j := by omega
    exact ⟨Nat.le_refl _, Nat.le_refl _, below, at_j⟩

/-- The halving search finds the first index below `n` where a predicate holds that stays true
once it holds, or `n` when it holds nowhere. -/
theorem search_spec (mono : ∀ a b, a ≤ b → b < n → p a = true → p b = true) :
    search n p ≤ n ∧ (∀ k < search n p, p k = false) ∧
      (search n p < n → p (search n p) = true) := by
  obtain ⟨-, h₂, h₃, h₄⟩ := search.go_spec mono 0 n (Nat.zero_le n) (Nat.le_refl n)
    (fun _ hk => absurd hk (Nat.not_lt_zero _)) fun hn => absurd hn (Nat.lt_irrefl n)
  exact ⟨h₂, h₃, h₄⟩

end Search

/-! ## The position a digest falls to -/

section FallsTo

variable {hs below above : List UInt64} {t x y : UInt64}

/-- The position a digest falls to: the smallest position at or after it, or the smallest of all
when every position is below it. -/
def FallsTo (hs : List UInt64) (t x : UInt64) : Prop :=
  x ∈ hs ∧ ((t ≤ x ∧ ∀ y ∈ hs, t ≤ y → x ≤ y) ∨ ((∀ y ∈ hs, y < t) ∧ ∀ y ∈ hs, x ≤ y))

instance (hs : List UInt64) (t x : UInt64) : Decidable (FallsTo hs t x) :=
  inferInstanceAs (Decidable (x ∈ hs ∧ ((t ≤ x ∧ ∀ y ∈ hs, t ≤ y → x ≤ y) ∨
    ((∀ y ∈ hs, y < t) ∧ ∀ y ∈ hs, x ≤ y))))

/-- A position a digest falls to stands no later than any other. -/
theorem FallsTo.le (hx : FallsTo hs t x) (hy : FallsTo hs t y) : x ≤ y := by
  obtain ⟨hxm, ⟨hxt, least⟩ | ⟨-, least⟩⟩ := hx
  · -- the smallest at or after the digest: the other is at or after it too
    obtain ⟨hym, ⟨hyt, -⟩ | ⟨all, -⟩⟩ := hy
    · exact least y hym hyt
    · exact absurd (all x hxm) (UInt64.not_lt.mpr hxt)
  · exact least y hy.1

/-- A digest falls to one position at most. -/
theorem FallsTo.unique (hx : FallsTo hs t x) (hy : FallsTo hs t y) : x = y :=
  UInt64.le_antisymm (hx.le hy) (hy.le hx)

/-- A position a digest falls to, kept among fewer positions, is still the one it falls to. -/
theorem FallsTo.of_subset {hs' : List UInt64} (hx : FallsTo hs t x) (hmem : x ∈ hs')
    (hsub : ∀ y ∈ hs', y ∈ hs) : FallsTo hs' t x := by
  obtain ⟨-, ⟨hxt, least⟩ | ⟨all, least⟩⟩ := hx
  · exact ⟨hmem, .inl ⟨hxt, fun y hy => least y (hsub y hy)⟩⟩
  · exact ⟨hmem, .inr ⟨fun y hy => all y (hsub y hy), fun y hy => least y (hsub y hy)⟩⟩

/-- The first of ascending positions is the smallest. -/
theorem head_le_of_ascending (hasc : (x :: hs).Pairwise (· < ·)) : ∀ y ∈ x :: hs, x ≤ y := by
  intro y hy
  rcases List.mem_cons.mp hy with rfl | hy
  · exact UInt64.le_refl _
  · exact UInt64.le_of_lt (List.rel_of_pairwise_cons hasc hy)

/-- On ascending positions split at a digest, the first position after the split, or the very
first when nothing is after it, is the one the digest falls to. -/
theorem fallsTo_of_split (hasc : (below ++ above).Pairwise (· < ·)) (hb : ∀ y ∈ below, y < t)
    (ha : ∀ y ∈ above, t ≤ y) (hx : (above ++ below).head? = some x) :
    FallsTo (below ++ above) t x := by
  cases above with
  | cons z rest =>
    obtain rfl : z = x := by simpa using hx
    have hrest : (z :: rest).Pairwise (· < ·) := (List.pairwise_append.mp hasc).2.1
    refine ⟨by simp, .inl ⟨ha z List.mem_cons_self, fun y hy hty => ?_⟩⟩
    -- a position at or after the digest is none of those below it
    rcases List.mem_append.mp hy with hy | hy
    · exact absurd (hb y hy) (UInt64.not_lt.mpr hty)
    · exact head_le_of_ascending hrest y hy
  | nil =>
    -- every position is below the digest: the lookup wraps round to the first
    cases below with
    | nil => simp at hx
    | cons z rest =>
      obtain rfl : z = x := by simpa using hx
      simp only [List.append_nil] at hasc hb ⊢
      exact ⟨List.mem_cons_self, .inr ⟨hb, head_le_of_ascending hasc⟩⟩

end FallsTo

/-! ## The lookup -/

namespace Ring

variable {r : Ring}

/-- On ascending positions, "at or after the digest", read along the indices, stays true once it
holds. -/
theorem atOrAfter_mono (hasc : r.hashes.Pairwise (· < ·)) (t : UInt64) :
    ∀ a b, a ≤ b → b < r.hashes.length →
      decide (t ≤ r.hashes.getD a 0) = true → decide (t ≤ r.hashes.getD b 0) = true := by
  intro a b hab hb ha
  have hle : r.hashes[a] ≤ r.hashes[b] := by
    rcases Nat.lt_or_eq_of_le hab with hlt | rfl
    · exact UInt64.le_of_lt (List.pairwise_iff_getElem.mp hasc a b (by omega) hb hlt)
    · exact UInt64.le_refl _
  simp only [List.getD_eq_getElem?_getD, List.getElem?_eq_getElem (Nat.lt_of_le_of_lt hab hb),
    List.getElem?_eq_getElem hb, Option.getD_some, decide_eq_true_eq] at ha ⊢
  exact UInt64.le_trans ha hle

/-- The lookup on ascending positions: the search splits them into those below the key's digest
and those at or after it, and the answer is the owner of the first position after the split, or
of the very first position when nothing is after it. -/
theorem get_of_split (hasc : r.hashes.Pairwise (· < ·)) (key : String) :
    ∃ below above, r.hashes = below ++ above ∧ (∀ y ∈ below, y < r.digest key) ∧
      (∀ y ∈ above, r.digest key ≤ y) ∧
      r.get key = ((above ++ below).head?).map fun y => (r.owners y).getD "" := by
  obtain ⟨hle, hfail, hhold⟩ := search_spec (atOrAfter_mono hasc (r.digest key))
  generalize hs : search r.hashes.length (fun i => decide (r.digest key ≤ r.hashes.getD i 0)) = s at hle hfail hhold
  refine ⟨r.hashes.take s, r.hashes.drop s, (List.take_append_drop s r.hashes).symm, ?_, ?_, ?_⟩
  · -- every index the search passed over holds a position below the digest
    intro y hy
    obtain ⟨k, hk, rfl⟩ := List.getElem_of_mem hy
    have hks : k < s := by simp at hk; omega
    have := hfail k hks
    simp only [List.getD_eq_getElem?_getD, List.getElem_take, decide_eq_false_iff_not,
      List.getElem?_eq_getElem (Nat.lt_of_lt_of_le hks hle), Option.getD_some] at this ⊢
    exact UInt64.not_le.mp this
  · -- every later index holds a position at or after the one the search stopped at
    intro y hy
    obtain ⟨k, hk, rfl⟩ := List.getElem_of_mem hy
    have hks : s + k < r.hashes.length := by simp at hk; omega
    have hat := hhold (by omega)
    have := atOrAfter_mono hasc (r.digest key) s (s + k) (by omega) hks hat
    simp only [List.getD_eq_getElem?_getD, List.getElem?_eq_getElem hks, Option.getD_some,
      decide_eq_true_eq] at this
    simpa using this
  · unfold get
    dsimp only
    rw [hs]
    by_cases hnil : r.hashes = []
    · simp [hnil]
    by_cases hend : s = r.hashes.length
    · -- nothing at or after the digest: the first position of all
      obtain ⟨z, zs, hz⟩ := List.exists_cons_of_ne_nil hnil
      simp [hend, hz]
    · have hlt : s < r.hashes.length := by omega
      simp [hnil, hend, List.getD_eq_getElem?_getD, List.getElem?_eq_getElem hlt,
        List.head?_drop]

/-- The lookup finds no node exactly when the ring has no position. -/
theorem get_eq_none_iff (key : String) : r.get key = none ↔ r.hashes = [] := by
  unfold get
  by_cases hnil : r.hashes = [] <;> simp [hnil]

/-- On ascending positions that all have owners, the lookup answers exactly the owner of the
position the key's digest falls to. -/
theorem get_eq_some_iff (hasc : r.hashes.Pairwise (· < ·))
    (howned : ∀ y ∈ r.hashes, (r.owners y).isSome) (key : String) (n : String) :
    r.get key = some n ↔ ∃ x, FallsTo r.hashes (r.digest key) x ∧ r.owners x = some n := by
  obtain ⟨below, above, hsplit, hb, ha, hget⟩ := r.get_of_split hasc key
  rw [hget]
  rw [hsplit] at hasc howned ⊢
  -- the owner read at a position is its owner, since every position has one
  have hread : ∀ y ∈ below ++ above, (r.owners y).getD "" = n → r.owners y = some n := by
    intro y hy hn
    obtain ⟨m, hm⟩ := Option.isSome_iff_exists.mp (howned y hy)
    rw [hm] at hn ⊢
    rw [← hn]
    rfl
  constructor
  · intro e
    obtain ⟨x, hx, hn⟩ := Option.map_eq_some_iff.mp e
    have hfalls := fallsTo_of_split hasc hb ha hx
    exact ⟨x, hfalls, hread x hfalls.1 hn⟩
  · rintro ⟨x, hfalls, hown⟩
    -- some position is taken, and it is the one the digest falls to
    obtain ⟨z, hz⟩ : ∃ z, (above ++ below).head? = some z := by
      refine Option.isSome_iff_exists.mp (List.isSome_head?.mpr fun hnil => ?_)
      simp only [List.append_eq_nil_iff] at hnil
      obtain ⟨rfl, rfl⟩ := hnil
      exact absurd hfalls.1 (by simp)
    rw [hz, (fallsTo_of_split hasc hb ha hz).unique hfalls]
    simp [hown]

end Ring

end Courier.Hash
