import Courier.Proofs.Hash.Calls

/-!
# Where keys go

On every ring built by calls the lookup meets its specification: a key's digest falls to the
smallest position at or after it, or to the smallest of all, and the key goes to that position's
owner (`Ring.get_owner_at_or_after`). Two consequences follow.

Removing a node moves only the keys it owned and leaves none with it, and adding one moves keys
only to it (`Ring.run_minimal_disruption`): a key whose position keeps its owner keeps its node,
since fewer positions around it cannot draw its digest elsewhere (`Ring.get_eq_of_subset`).

When no two nodes ever added have a point at the same position, the positions and owners are
those of the members and nothing else: every member owns all its points, and each position has
the one member it belongs to (`Ring.Complete`). So two rings with the same members place every
key alike, whatever calls built them (`Ring.run_get_eq_of_members`).
-/

set_option autoImplicit false

namespace Courier.Hash

/-- No two distinct nodes among `names` have a point at the same position, among the first
`replicas` points of each. Points of one node may coincide. -/
def PointsApart (digest : String → UInt64) (names : List String) (replicas : Nat) : Prop :=
  ∀ n ∈ names, ∀ m ∈ names, ∀ i < replicas, ∀ j < replicas,
    pointOf digest n i = pointOf digest m j → n = m

instance (digest : String → UInt64) (names : List String) (replicas : Nat) :
    Decidable (PointsApart digest names replicas) :=
  inferInstanceAs (Decidable (∀ n ∈ names, ∀ m ∈ names, ∀ i < replicas, ∀ j < replicas,
    pointOf digest n i = pointOf digest m j → n = m))

namespace Ring

variable {r s : Ring}

/-! ## The lookup on rings built by calls -/

/-- Ring lookup meets its specification on every ring built by calls, for every key. `Ring.get`
finds no node exactly when the ring has no position; otherwise it answers the owner of the
smallest position at or after the key's digest, or of the smallest of all when every position is
below the digest. The halving search behind it is sound because the positions ascend: they split
into those below the digest and those at or after it, and the answer is the owner of the first
position of the second part, or of the very first position when that part is empty. -/
theorem get_owner_at_or_after (digest : String → UInt64) (replicas : Int) (calls : List RingCall)
    (key : String) :
    let r := (Ring.empty digest replicas).run calls
    (r.get key = none ↔ r.hashes = []) ∧
      (∀ n, r.get key = some n ↔ ∃ h, FallsTo r.hashes (digest key) h ∧ r.owners h = some n) ∧
      ∃ below above, r.hashes = below ++ above ∧ (∀ h ∈ below, h < digest key) ∧
        (∀ h ∈ above, digest key ≤ h) ∧ r.get key = ((above ++ below).head?).bind r.owners := by
  intro r
  have hr : r.WellFormed := (WellFormed.empty digest replicas).run calls
  have hdigest : r.digest = digest := digest_run calls
  obtain ⟨below, above, hsplit, hb, ha, hget⟩ := r.get_of_split hr.ascending key
  rw [hdigest] at hb ha
  refine ⟨get_eq_none_iff key, fun n => ?_, below, above, hsplit, hb, ha, ?_⟩
  · rw [← hdigest]
    exact get_eq_some_iff hr.ascending hr.owned key n
  · -- the position taken has an owner, which is the one read
    rw [hget]
    cases hhead : (above ++ below).head? with
    | none => rfl
    | some x =>
      have hx : x ∈ r.hashes := by
        rw [hsplit, List.mem_append, or_comm, ← List.mem_append]
        exact List.mem_of_mem_head? hhead
      obtain ⟨m, hm⟩ := Option.isSome_iff_exists.mp (hr.owned x hx)
      simp [hm]

/-! ## Minimal disruption -/

/-- A key keeps its node on a ring with fewer positions, placing by the same digest, when the
position it falls to on the larger ring stays there with its owner. -/
theorem get_eq_of_subset (hr : r.WellFormed) (hs : s.WellFormed) (hd : s.digest = r.digest)
    (hsub : ∀ y ∈ s.hashes, y ∈ r.hashes) {key : String} {x : UInt64}
    (hx : FallsTo r.hashes (r.digest key) x) (hmem : x ∈ s.hashes) (hown : s.owners x = r.owners x) :
    s.get key = r.get key := by
  obtain ⟨n, hn⟩ := Option.isSome_iff_exists.mp (hr.owned x hx.1)
  have hrget : r.get key = some n := (get_eq_some_iff hr.ascending hr.owned key n).mpr ⟨x, hx, hn⟩
  have hsx : FallsTo s.hashes (s.digest key) x := hd ▸ hx.of_subset hmem hsub
  rw [hrget]
  exact (get_eq_some_iff hs.ascending hs.owned key n).mpr ⟨x, hsx, hown.trans hn⟩

variable {x k : String}

/-- Removing a node leaves every key that it did not own with its node. -/
theorem WellFormed.get_remove_of_ne (hr : r.WellFormed) (h : r.get k ≠ some x) :
    (r.remove x).get k = r.get k := by
  by_cases hx : x ∈ r.members
  · obtain ⟨hh, ho, -⟩ := hr.toSound.remove_eq hx
    cases hget : r.get k with
    | none =>
      -- no position before, and none after
      rw [get_eq_none_iff] at hget ⊢
      rw [hh, hget, List.filter_nil]
    | some n =>
      obtain ⟨p, hp, hpn⟩ := (get_eq_some_iff hr.ascending hr.owned k n).mp hget
      have hnx : r.owners p ≠ some x := fun e => h (by rw [hget, ← hpn, e])
      rw [← hget]
      refine get_eq_of_subset hr (hr.remove x) digest_remove (fun y hy => ?_) hp ?_ ?_
      · rw [hh] at hy
        exact (List.mem_filter.mp hy).1
      · rw [hh]
        exact List.mem_filter.mpr ⟨hp.1, by simpa using hnx⟩
      · rw [ho p, if_neg hnx]
  · rw [Ring.remove, if_neg (by simpa using hx)]

/-- No key goes to a node once it is removed. -/
theorem WellFormed.get_remove_ne (hr : r.WellFormed) (x k : String) : (r.remove x).get k ≠ some x := by
  intro e
  obtain ⟨p, -, hp⟩ := (get_eq_some_iff (hr.remove x).ascending (hr.remove x).owned k x).mp e
  by_cases hx : x ∈ r.members
  · obtain ⟨-, ho, -⟩ := hr.toSound.remove_eq hx
    rw [ho p] at hp
    by_cases hpx : r.owners p = some x
    · simp [hpx] at hp
    · rw [if_neg hpx] at hp
      exact hpx hp
  · -- a node that is not a member owns nothing
    rw [Ring.remove, if_neg (by simpa using hx)] at hp
    exact hx (hr.owner_mem p x hp)

/-- Adding a node moves keys only to it. -/
theorem WellFormed.get_add_singleton (hr : r.WellFormed) (x k : String) :
    (r.add [x]).get k = r.get k ∨ (r.add [x]).get k = some x := by
  by_cases hx : x ∈ r.members
  · exact .inl (by rw [hr.add_of_mem fun n hn => by rwa [List.mem_singleton.mp hn]])
  have hr' := hr.add [x]
  -- the owners after adding: the old ones, and the node on its points that had none
  have howners : ∀ y, (r.add [x]).owners y = (r.owners y).or
      (if ∃ i < r.replicas, y = pointOf r.digest x i then some x else none) := fun y => owners_join hx y
  cases hget : (r.add [x]).get k with
  | none =>
    -- no position after adding, so none before
    refine .inl ((get_eq_none_iff k).mpr ?_).symm
    have hnil := (get_eq_none_iff k).mp hget
    exact List.eq_nil_iff_forall_not_mem.mpr fun y hy => by
      simpa [hnil] using hashes_add_subset [x] y hy
  | some n =>
    by_cases hnx : n = x
    · exact .inr (hnx ▸ rfl)
    left
    obtain ⟨p, hp, hpn⟩ := (get_eq_some_iff hr'.ascending hr'.owned k n).mp hget
    -- the position found is not the node's, so it had its owner before
    have hold : r.owners p = some n := by
      rw [howners p] at hpn
      cases ho : r.owners p with
      | some m => rwa [ho, Option.some_or] at hpn
      | none =>
        rw [ho, Option.none_or] at hpn
        split at hpn
        · exact absurd (Option.some.inj hpn).symm hnx
        · cases hpn
    have hmem : p ∈ r.hashes := (hr.mem_iff p).mpr (by simp [hold])
    rw [← hget]
    exact (get_eq_of_subset hr' hr (digest_add (r := r) [x]).symm (fun y hy => hashes_add_subset [x] y hy) hp hmem
      (by rw [hold, hpn])).symm

/-- Minimal disruption: on every ring built by calls, removing a node `x` leaves each key that
`x` did not own with its node and leaves no key with `x`; adding `x` either leaves a key with its
node or gives it to `x` (a node already present changes nothing at all). -/
theorem run_minimal_disruption (digest : String → UInt64) (replicas : Int) (calls : List RingCall)
    (x k : String) :
    let r := (Ring.empty digest replicas).run calls
    (((r.remove x).get k = r.get k ∨ r.get k = some x) ∧ (r.remove x).get k ≠ some x) ∧
      ((r.add [x]).get k = r.get k ∨ (r.add [x]).get k = some x) := by
  intro r
  have hr : r.WellFormed := (WellFormed.empty digest replicas).run calls
  refine ⟨⟨?_, hr.get_remove_ne x k⟩, hr.get_add_singleton x k⟩
  by_cases h : r.get k = some x
  · exact .inr h
  · exact .inl (hr.get_remove_of_ne h)

/-! ## A function of the members -/

/-- A sound ring whose members all come from `names` and own every one of their points. -/
structure Complete (names : List String) (r : Ring) : Prop where
  sound : r.Sound
  members_mem : ∀ n ∈ r.members, n ∈ names
  full : ∀ n ∈ r.members, ∀ i < r.replicas, r.owners (pointOf r.digest n i) = some n

section Complete

variable {names : List String} (hapart : PointsApart r.digest names r.replicas)

theorem Complete.empty (digest : String → UInt64) (a : Int) (names : List String) :
    Complete names (Ring.empty digest a) :=
  ⟨(WellFormed.empty digest a).toSound, by simp [Ring.empty], by simp [Ring.empty]⟩

/-- On a complete ring a position has an owner exactly when it is one of the owner's points. -/
theorem Complete.owners_eq_some_iff (hc : Complete names r) (h : UInt64) (n : String) :
    r.owners h = some n ↔ n ∈ r.members ∧ ∃ i < r.replicas, h = pointOf r.digest n i := by
  constructor
  · intro e
    exact ⟨hc.sound.owner_mem h n e, hc.sound.pointOf_owner h n e⟩
  · rintro ⟨hn, i, hi, rfl⟩
    exact hc.full n hn i hi

include hapart in
/-- Joining a node of `names` keeps a ring complete: a point of the node that already has an
owner has it by one of the owner's points, and the points of two nodes of `names` never meet. -/
theorem Complete.join {node : String} (hc : Complete names r) (hn : node ∈ names) : Complete names (r.join node) := by
  by_cases hm : node ∈ r.members
  · rwa [join_of_mem hm]
  refine ⟨hc.sound.join node, fun n hn' => ?_, fun n hn' i hi => ?_⟩
  · rw [members_join_of_not_mem hm, List.mem_append, List.mem_singleton] at hn'
    rcases hn' with hn' | rfl
    · exact hc.members_mem n hn'
    · exact hn
  rw [members_join_of_not_mem hm, List.mem_append, List.mem_singleton] at hn'
  rw [replicas_join] at hi
  rw [digest_join, owners_join hm]
  rcases hn' with hn' | rfl
  · rw [hc.full n hn' i hi, Option.some_or]
  · -- the node's own point: nobody else stood there
    cases ho : r.owners (pointOf r.digest n i) with
    | some m =>
      obtain ⟨j, hj, hpos⟩ := hc.sound.pointOf_owner _ m ho
      have hmn : n = m := hapart n hn m (hc.members_mem m (hc.sound.owner_mem _ m ho)) i hi j hj hpos
      exact absurd (hmn ▸ hc.sound.owner_mem _ m ho) hm
    | none =>
      have hpoint : ∃ j < r.replicas, pointOf r.digest n i = pointOf r.digest n j := ⟨i, hi, rfl⟩
      simp [hpoint]

include hapart in
/-- Adding nodes of `names` keeps a ring complete. -/
theorem Complete.add (hc : Complete names r) {nodes : List String} (hns : ∀ n ∈ nodes, n ∈ names) :
    Complete names (r.add nodes) := by
  have hjoins : Complete names (nodes.foldl Ring.join r) := by
    induction nodes generalizing r with
    | nil => exact hc
    | cons n ns ih =>
      have hapart' : PointsApart (r.join n).digest names (r.join n).replicas := by
        rwa [digest_join, replicas_join]
      exact ih hapart' (hc.join hapart (hns n List.mem_cons_self))
        fun m hm => hns m (List.mem_cons_of_mem _ hm)
  exact ⟨(hc.sound.add nodes).toSound, hjoins.members_mem, hjoins.full⟩

theorem Complete.remove (hc : Complete names r) (node : String) : Complete names (r.remove node) := by
  by_cases hm : node ∈ r.members
  · obtain ⟨-, ho, hmem⟩ := hc.sound.remove_eq hm
    refine ⟨hc.sound.remove node, fun n hn => ?_, fun n hn i hi => ?_⟩
    · rw [hmem] at hn
      exact hc.members_mem n (List.mem_filter.mp hn).1
    · rw [hmem, List.mem_filter] at hn
      rw [replicas_remove] at hi
      have hne : n ≠ node := by simpa using hn.2
      rw [digest_remove, ho, hc.full n hn.1 i hi, if_neg (fun e => hne (Option.some.inj e))]
  · rwa [Ring.remove, if_neg (by simpa using hm)]

include hapart in
/-- Calls that add only nodes of `names` keep a ring complete. -/
theorem Complete.run (hc : Complete names r) {calls : List RingCall}
    (hcalls : ∀ n ∈ calls.flatMap RingCall.added, n ∈ names) : Complete names (r.run calls) := by
  induction calls generalizing r with
  | nil => exact hc
  | cons c cs ih =>
    have hc' : Complete names (c.apply r) := by
      cases c with
      | add nodes => exact hc.add hapart fun n hn => hcalls n (by simp [RingCall.added, hn])
      | remove node => exact hc.remove node
    have hapart' : PointsApart (c.apply r).digest names (c.apply r).replicas := by
      cases c <;> simpa [RingCall.apply] using hapart
    exact ih hapart' hc' fun n hn => hcalls n (List.mem_append_right _ hn)

/-- Two complete rings with the same digest, points per node and members have the same owners and
the same positions: each owner is the member whose point stands there, and the positions are the
ascending list of the owned ones. -/
theorem Complete.eq_of_members {names' : List String} (hr : Complete names r) (hs : Complete names' s)
    (hwr : r.WellFormed) (hws : s.WellFormed) (hd : r.digest = s.digest) (hrep : r.replicas = s.replicas)
    (hmem : ∀ n, n ∈ r.members ↔ n ∈ s.members) : r.owners = s.owners ∧ r.hashes = s.hashes := by
  have howners : r.owners = s.owners := by
    funext h
    refine Option.ext fun n => ?_
    rw [hr.owners_eq_some_iff, hs.owners_eq_some_iff, hmem, hd, hrep]
  refine ⟨howners, eq_of_ascending hwr.ascending hws.ascending fun h => ?_⟩
  rw [hwr.mem_iff, hws.mem_iff, howners]

end Complete

/-- The lookup reads only the digest, the positions and their owners. -/
theorem get_congr (hd : r.digest = s.digest) (hh : r.hashes = s.hashes) (ho : r.owners = s.owners)
    (key : String) : r.get key = s.get key := by
  simp only [get, hd, hh, ho]

/-- A ring is a function of its members: two sequences of calls on rings with the same digest and
the same number of points per node that end with the same members place every key on the same
node, as long as no two distinct nodes that the calls add have a point at the same position. -/
theorem run_get_eq_of_members (digest : String → UInt64) (a b : Int) (cs ds : List RingCall)
    (hrep : (Ring.empty digest a).replicas = (Ring.empty digest b).replicas)
    (hapart : PointsApart digest ((cs ++ ds).flatMap RingCall.added) (Ring.empty digest a).replicas)
    (hmem : ∀ n, n ∈ ((Ring.empty digest a).run cs).members ↔ n ∈ ((Ring.empty digest b).run ds).members)
    (k : String) : ((Ring.empty digest a).run cs).get k = ((Ring.empty digest b).run ds).get k := by
  have hc := (Complete.empty digest a _).run hapart fun n hn => by
    rw [List.flatMap_append]; exact List.mem_append_left _ hn
  have hd := (Complete.empty digest b _).run (hrep ▸ hapart) fun n hn => by
    rw [List.flatMap_append]; exact List.mem_append_right _ hn
  have hdigest : ((Ring.empty digest a).run cs).digest = ((Ring.empty digest b).run ds).digest := by
    simp [Ring.empty]
  obtain ⟨ho, hh⟩ := hc.eq_of_members hd ((WellFormed.empty digest a).run cs)
    ((WellFormed.empty digest b).run ds) hdigest (by simpa using hrep) hmem
  exact get_congr hdigest hh ho k

/-- Adding two nodes at once, or one by one in the other order with a third added and removed
between them, places a key alike. -/
theorem get_independent_of_order :
    let cs : List RingCall := [.add ["a", "b"]]
    let ds : List RingCall := [.add ["b"], .add ["c"], .remove "c", .add ["a"]]
    PointsApart xxh64Text ((cs ++ ds).flatMap RingCall.added) 2 ∧
      ((create 2).run cs).get "k" = ((create 2).run ds).get "k" := by
  intro cs ds
  have hapart : PointsApart xxh64Text ((cs ++ ds).flatMap RingCall.added) 2 := by decide +kernel
  have hmembers : ((create 2).run cs).members = ["a", "b"] ∧
      ((create 2).run ds).members = ["b", "a"] := by
    decide +kernel
  refine ⟨hapart, run_get_eq_of_members xxh64Text 2 2 cs ds rfl hapart (fun n => ?_) "k"⟩
  rw [show (Ring.empty xxh64Text 2).run cs = (create 2).run cs from rfl,
    show (Ring.empty xxh64Text 2).run ds = (create 2).run ds from rfl, hmembers.1, hmembers.2]
  simp only [List.mem_cons, List.not_mem_nil, or_false]
  exact or_comm

end Ring

end Courier.Hash
