import Mathlib.Data.List.Sort
import Courier.Proofs.Hash.Search

/-!
# Rings built by adding and removing nodes

A ring is made empty and changed by calls that add nodes or remove one. Its positions and its
owners are kept apart, and every call keeps them in step (`Ring.Sound`): no position is listed
twice, a position is listed exactly when it has an owner, and every owner is a member standing
at one of its own points. A claim puts a point only where no owner stands, and lists it as it
takes it; the pass that removes a node forgets the owner of each position as it drops it
(`dropOwned_eq`). Adding sorts the positions once the call is done, so between calls they
ascend (`Ring.WellFormed`), and adding members again changes nothing (`Ring.run_wellFormed`).

The joins of an add do not read the order of the positions, which the sort then forgets: adding
nodes in one call or in several gives the same ring (`Ring.add_append`).
-/

set_option autoImplicit false

namespace Courier.Hash

/-- A call that changes a ring: adding nodes, or removing one. -/
inductive RingCall where
  | add (nodes : List String)
  | remove (node : String)

namespace RingCall

/-- The ring after the call. -/
def apply : RingCall → Ring → Ring
  | add nodes, r => r.add nodes
  | remove node, r => r.remove node

/-- The nodes a call adds. -/
def added : RingCall → List String
  | add nodes => nodes
  | remove _ => []

end RingCall

/-! ## Sorting the positions -/

/-- The ring's sort is insertion sort by `≤`. -/
theorem sortAscending_eq (l : List UInt64) : sortAscending l = l.insertionSort (· ≤ ·) := by
  have hinsert : ∀ (h : UInt64) (l : List UInt64), insertAscending h l = l.orderedInsert (· ≤ ·) h := by
    intro h l
    induction l with
    | nil => rfl
    | cons k ks ih => simp [insertAscending, List.orderedInsert, ih]
  induction l with
  | nil => rfl
  | cons h hs ih => rw [sortAscending, ih, hinsert]; rfl

theorem perm_sortAscending (l : List UInt64) : (sortAscending l).Perm l := by
  rw [sortAscending_eq]
  exact List.perm_insertionSort _ l

theorem pairwise_sortAscending (l : List UInt64) : (sortAscending l).Pairwise (· ≤ ·) := by
  rw [sortAscending_eq]
  exact List.pairwise_insertionSort _ l

/-- Sorting leaves ascending positions alone. -/
theorem sortAscending_of_pairwise {l : List UInt64} (h : l.Pairwise (· ≤ ·)) : sortAscending l = l := by
  rw [sortAscending_eq]
  exact h.insertionSort_eq

/-- Sorting forgets the order of the positions: positions that are a permutation of each other
sort alike. -/
theorem sortAscending_eq_of_perm {l l' : List UInt64} (hp : l.Perm l') :
    sortAscending l = sortAscending l' :=
  List.Perm.eq_of_pairwise (fun _ _ _ _ hab hba => UInt64.le_antisymm hab hba)
    (pairwise_sortAscending l) (pairwise_sortAscending l')
    ((perm_sortAscending l).trans (hp.trans (perm_sortAscending l').symm))

/-- Ascending, distinct positions with the same members are the same list. -/
theorem eq_of_ascending {l l' : List UInt64} (hl : l.Pairwise (· < ·)) (hl' : l'.Pairwise (· < ·))
    (hmem : ∀ h, h ∈ l ↔ h ∈ l') : l = l' := by
  have hnd : ∀ {l : List UInt64}, l.Pairwise (· < ·) → l.Nodup :=
    fun hl => hl.imp fun hlt => UInt64.ne_of_lt hlt
  refine List.Perm.eq_of_pairwise (fun _ _ _ _ hab hba => ?_) hl hl'
    ((List.perm_ext_iff_of_nodup (hnd hl) (hnd hl')).mpr hmem)
  exact absurd (UInt64.lt_trans hab hba) (UInt64.lt_irrefl _)

namespace Ring

/-- The ring after calls in turn. -/
def run (r : Ring) (calls : List RingCall) : Ring := calls.foldl (fun r c => c.apply r) r

variable {r : Ring} {node : String} {h : UInt64}

/-! ## Claiming a position -/

theorem claim_of_owned {m : String} (hm : r.owners h = some m) : r.claim node h = r := by
  simp [claim, hm]

theorem claim_of_free (hf : r.owners h = none) :
    r.claim node h =
      { r with owners := fun k => if k = h then some node else r.owners k, hashes := r.hashes ++ [h] } := by
  simp [claim, hf]

/-- A claim changes only the positions and their owners. -/
theorem claim_fields : (r.claim node h).digest = r.digest ∧ (r.claim node h).replicas = r.replicas ∧
    (r.claim node h).members = r.members := by
  cases hh : r.owners h with
  | some m => simp [claim_of_owned hh]
  | none => simp [claim_of_free hh]

@[simp] theorem digest_claim : (r.claim node h).digest = r.digest := claim_fields.1

@[simp] theorem replicas_claim : (r.claim node h).replicas = r.replicas := claim_fields.2.1

@[simp] theorem members_claim : (r.claim node h).members = r.members := claim_fields.2.2

/-- A claim never takes a position from its owner. -/
theorem owners_claim (k : UInt64) :
    (r.claim node h).owners k = (r.owners k).or (if k = h then some node else none) := by
  by_cases hk : k = h
  · subst hk
    cases hh : r.owners k with
    | some m => simp [claim_of_owned hh, hh]
    | none => simp [claim_of_free hh]
  · cases hh : r.owners h with
    | some m => simp [claim_of_owned hh, hk]
    | none => simp [claim_of_free hh, hk]

/-- A claim lists the position it takes, and nothing else. -/
theorem hashes_claim :
    (r.claim node h).hashes = if (r.owners h).isSome then r.hashes else r.hashes ++ [h] := by
  cases hh : r.owners h with
  | some m => simp [claim_of_owned hh]
  | none => simp [claim_of_free hh]

/-- A claim keeps the positions and their owners in step: listed once each, and listed exactly
when owned. -/
theorem claim_inStep (node : String) (h : UInt64) (hnd : r.hashes.Nodup) (hmem : ∀ k, k ∈ r.hashes ↔ (r.owners k).isSome) :
    (r.claim node h).hashes.Nodup ∧
      ∀ k, k ∈ (r.claim node h).hashes ↔ ((r.claim node h).owners k).isSome := by
  cases hh : r.owners h with
  | some m =>
    rw [claim_of_owned hh]
    exact ⟨hnd, hmem⟩
  | none =>
    -- a free position is not listed yet, so listing it keeps the list free of repeats
    have hout : h ∉ r.hashes := by simp [hmem, hh]
    rw [claim_of_free hh]
    refine ⟨List.nodup_append.mpr ⟨hnd, List.nodup_singleton h, ?_⟩, fun k => ?_⟩
    · simp only [List.mem_singleton]
      rintro a ha b rfl rfl
      exact hout ha
    · by_cases hk : k = h
      · subst hk; simp
      · simp [hk, hmem]

/-! ## Joining a node -/

section Claims

variable {pos : Nat → UInt64} {idx : List Nat} {s : Ring}

/-- Claims in turn change only the positions and their owners. -/
theorem foldl_claim_fields :
    (idx.foldl (fun s i => s.claim node (pos i)) s).digest = s.digest ∧
      (idx.foldl (fun s i => s.claim node (pos i)) s).replicas = s.replicas ∧
      (idx.foldl (fun s i => s.claim node (pos i)) s).members = s.members := by
  induction idx generalizing s with
  | nil => exact ⟨rfl, rfl, rfl⟩
  | cons i idx ih =>
    obtain ⟨h₁, h₂, h₃⟩ := ih (s := s.claim node (pos i))
    simpa using And.intro h₁ (And.intro h₂ h₃)

/-- Claims in turn give the node every position claimed that had no owner. -/
theorem owners_foldl_claim (k : UInt64) :
    (idx.foldl (fun s i => s.claim node (pos i)) s).owners k =
      (s.owners k).or (if ∃ i ∈ idx, k = pos i then some node else none) := by
  induction idx generalizing s with
  | nil => simp
  | cons i idx ih =>
    rw [List.foldl_cons, ih, owners_claim, Option.or_assoc]
    congr 1
    by_cases h₁ : k = pos i <;> by_cases h₂ : ∃ j ∈ idx, k = pos j <;> simp [h₁, h₂]

/-- Claims in turn keep the positions and their owners in step. -/
theorem foldl_claim_inStep (node : String) (pos : Nat → UInt64) (idx : List Nat)
    (hnd : s.hashes.Nodup) (hmem : ∀ k, k ∈ s.hashes ↔ (s.owners k).isSome) :
    (idx.foldl (fun s i => s.claim node (pos i)) s).hashes.Nodup ∧
      ∀ k, k ∈ (idx.foldl (fun s i => s.claim node (pos i)) s).hashes ↔
        ((idx.foldl (fun s i => s.claim node (pos i)) s).owners k).isSome := by
  induction idx generalizing s with
  | nil => exact ⟨hnd, hmem⟩
  | cons i idx ih =>
    obtain ⟨hnd', hmem'⟩ := claim_inStep node (pos i) hnd hmem
    exact ih hnd' hmem'

/-- Claims in turn only add positions. -/
theorem hashes_foldl_claim_sublist : s.hashes.Sublist (idx.foldl (fun s i => s.claim node (pos i)) s).hashes := by
  induction idx generalizing s with
  | nil => exact List.Sublist.refl _
  | cons i idx ih =>
    refine List.Sublist.trans ?_ (ih (s := s.claim node (pos i)))
    rw [hashes_claim]
    split
    · exact List.Sublist.refl _
    · exact List.sublist_append_left _ _

end Claims

theorem join_of_mem (hn : node ∈ r.members) : r.join node = r := by
  simp [join, hn]

theorem join_of_not_mem (hn : node ∉ r.members) :
    r.join node = (List.range r.replicas).foldl (fun s i => s.claim node (pointOf r.digest node i))
      { r with members := r.members ++ [node] } := by
  simp [join, hn]

@[simp] theorem digest_join : (r.join node).digest = r.digest := by
  by_cases hn : node ∈ r.members
  · rw [join_of_mem hn]
  · rw [join_of_not_mem hn, foldl_claim_fields.1]

@[simp] theorem replicas_join : (r.join node).replicas = r.replicas := by
  by_cases hn : node ∈ r.members
  · rw [join_of_mem hn]
  · rw [join_of_not_mem hn, foldl_claim_fields.2.1]

theorem members_join_of_not_mem (hn : node ∉ r.members) : (r.join node).members = r.members ++ [node] := by
  rw [join_of_not_mem hn, foldl_claim_fields.2.2]

/-- A new node takes every one of its points that had no owner, and no other. -/
theorem owners_join (hn : node ∉ r.members) (k : UInt64) :
    (r.join node).owners k =
      (r.owners k).or (if ∃ i < r.replicas, k = pointOf r.digest node i then some node else none) := by
  rw [join_of_not_mem hn, owners_foldl_claim]
  simp only [List.mem_range]

/-- Joining only adds positions. -/
theorem hashes_join_sublist : r.hashes.Sublist (r.join node).hashes := by
  by_cases hn : node ∈ r.members
  · rw [join_of_mem hn]
  · rw [join_of_not_mem hn]
    exact hashes_foldl_claim_sublist (s := { r with members := r.members ++ [node] })

/-! ## The invariant -/

/-- A ring whose positions and owners are in step, and whose owners stand by right: no position
is listed twice; a position is listed exactly when it has an owner; every owner is a member, and
stands at one of its own points. -/
structure Sound (r : Ring) : Prop where
  nodup : r.hashes.Nodup
  mem_iff : ∀ h, h ∈ r.hashes ↔ (r.owners h).isSome
  owner_mem : ∀ h n, r.owners h = some n → n ∈ r.members
  pointOf_owner : ∀ h n, r.owners h = some n → ∃ i < r.replicas, h = pointOf r.digest n i

/-- What every ring keeps between calls: it is sound, and its positions ascend. -/
structure WellFormed (r : Ring) : Prop extends r.Sound where
  ascending : r.hashes.Pairwise (· < ·)

theorem Sound.owned (hr : r.Sound) : ∀ y ∈ r.hashes, (r.owners y).isSome :=
  fun y hy => (hr.mem_iff y).mp hy

theorem WellFormed.empty (digest : String → UInt64) (a : Int) : (Ring.empty digest a).WellFormed :=
  ⟨⟨List.nodup_nil, by simp [Ring.empty], by simp [Ring.empty], by simp [Ring.empty]⟩, List.Pairwise.nil⟩

theorem Sound.join (hr : r.Sound) (node : String) : (r.join node).Sound := by
  by_cases hn : node ∈ r.members
  · rwa [join_of_mem hn]
  have hstep : (r.join node).hashes.Nodup ∧
      ∀ k, k ∈ (r.join node).hashes ↔ ((r.join node).owners k).isSome := by
    rw [join_of_not_mem hn]
    exact foldl_claim_inStep node (pointOf r.digest node) (List.range r.replicas) hr.nodup hr.mem_iff
  -- an owner after the join was the owner before, or is the node at one of its points
  have howner : ∀ k m, (r.join node).owners k = some m →
      r.owners k = some m ∨ (m = node ∧ ∃ i < r.replicas, k = pointOf r.digest node i) := by
    intro k m hk
    rw [owners_join hn] at hk
    cases ho : r.owners k with
    | some m' =>
      rw [ho, Option.some_or] at hk
      exact .inl hk
    | none =>
      rw [ho, Option.none_or] at hk
      split at hk
      · exact .inr ⟨(Option.some.inj hk).symm, ‹_›⟩
      · cases hk
  refine ⟨hstep.1, hstep.2, fun k m hk => ?_, fun k m hk => ?_⟩
  · rw [members_join_of_not_mem hn]
    rcases howner k m hk with ho | ⟨rfl, -⟩
    · exact List.mem_append_left _ (hr.owner_mem k m ho)
    · exact List.mem_append_right _ (List.mem_singleton_self _)
  · rw [replicas_join, digest_join]
    rcases howner k m hk with ho | ⟨rfl, hp⟩
    · exact hr.pointOf_owner k m ho
    · exact hp

theorem Sound.foldl_join (hr : r.Sound) (nodes : List String) : (nodes.foldl Ring.join r).Sound := by
  induction nodes generalizing r with
  | nil => exact hr
  | cons n ns ih => exact ih (hr.join n)

/-- Adding sorts the positions: sound before, well formed after. -/
theorem Sound.add (hr : r.Sound) (nodes : List String) : (r.add nodes).WellFormed := by
  have hs := hr.foldl_join nodes
  have hperm := perm_sortAscending (nodes.foldl Ring.join r).hashes
  have hnd := hperm.nodup_iff.mpr hs.nodup
  refine ⟨⟨hnd, fun k => ?_, hs.owner_mem, hs.pointOf_owner⟩, ?_⟩
  · exact hperm.mem_iff.trans (hs.mem_iff k)
  · -- sorted and free of repeats: strictly ascending
    exact (pairwise_sortAscending _).imp₂
      (fun a b hab hne => UInt64.lt_of_le_of_ne hab hne) hnd

/-! ## Removing a node -/

/-- The pass that removes a node, over positions listed once each: it keeps the positions the
node does not own, and forgets the owner of those it drops. -/
theorem dropOwned_eq (owners : UInt64 → Option String) {hs : List UInt64} (hnd : hs.Nodup) :
    dropOwned node hs owners = (hs.filter fun h => (owners h).getD "" != node,
      fun k => if k ∈ hs ∧ (owners k).getD "" = node then none else owners k) := by
  induction hs generalizing owners with
  | nil => simp [dropOwned]
  | cons h hs ih =>
    obtain ⟨hout, hnd'⟩ := List.nodup_cons.mp hnd
    by_cases hkeep : (owners h).getD "" = node
    · -- dropped: the owners forgotten so far differ from `owners` only at `h`, which is not
      -- listed again
      have hfilter : (hs.filter fun k => ((if k = h then none else owners k).getD "" != node)) =
          hs.filter fun k => (owners k).getD "" != node :=
        List.filter_congr fun k hk => by rw [if_neg (show ¬k = h from fun e => hout (e ▸ hk))]
      simp only [dropOwned, hkeep, bne_self_eq_false, Bool.false_eq_true, if_false, ih _ hnd',
        hfilter, List.filter_cons, Prod.mk.injEq, true_and]
      funext k
      by_cases hk : k = h
      · subst hk; simp [hout, hkeep]
      · simp [hk]
    · simp only [dropOwned, bne_iff_ne, ne_eq, hkeep, not_false_eq_true, if_true, ih _ hnd',
        List.filter_cons, Prod.mk.injEq, true_and]
      funext k
      by_cases hk : k = h
      · subst hk; simp [hout, hkeep]
      · simp [hk]

@[simp] theorem digest_remove : (r.remove node).digest = r.digest := by
  unfold Ring.remove; split <;> rfl

@[simp] theorem replicas_remove : (r.remove node).replicas = r.replicas := by
  unfold Ring.remove; split <;> rfl

/-- Removing a member from a sound ring drops exactly its positions and their owners. -/
theorem Sound.remove_eq (hr : r.Sound) (hn : node ∈ r.members) :
    (r.remove node).hashes = r.hashes.filter (fun h => r.owners h != some node) ∧
      (∀ k, (r.remove node).owners k = if r.owners k = some node then none else r.owners k) ∧
      (r.remove node).members = r.members.filter (· != node) := by
  -- on a listed position the owner read is its owner
  have hread : ∀ k ∈ r.hashes, ((r.owners k).getD "" = node ↔ r.owners k = some node) := by
    intro k hk
    obtain ⟨m, hm⟩ := Option.isSome_iff_exists.mp (hr.owned k hk)
    simp [hm]
  have hfilter : (r.hashes.filter fun h => (r.owners h).getD "" != node) =
      r.hashes.filter fun h => r.owners h != some node :=
    List.filter_congr fun k hk => by rw [Bool.eq_iff_iff]; simp only [bne_iff_ne, ne_eq, hread k hk]
  have howners : (fun k => if k ∈ r.hashes ∧ (r.owners k).getD "" = node then none else r.owners k) =
      fun k => if r.owners k = some node then none else r.owners k := by
    funext k
    by_cases hk : k ∈ r.hashes
    · simp [hk, hread k hk]
    · -- an unlisted position has no owner
      have : r.owners k = none := by simpa [hr.mem_iff] using hk
      simp [hk, this]
  simp only [Ring.remove, List.contains_iff_mem, hn, if_true, dropOwned_eq r.owners hr.nodup, hfilter,
    howners, implies_true, and_self]

theorem Sound.remove (hr : r.Sound) (node : String) : (r.remove node).Sound := by
  by_cases hn : node ∈ r.members
  · obtain ⟨hh, ho, hm⟩ := hr.remove_eq hn
    refine ⟨hh ▸ hr.nodup.filter _, fun k => ?_, fun k m hk => ?_, fun k m hk => ?_⟩
    · rw [hh, ho k]
      by_cases hko : r.owners k = some node
      · simp [hko]
      · simp [hko, hr.mem_iff]
    · rw [ho k] at hk
      rw [hm]
      by_cases hko : r.owners k = some node
      · simp [hko] at hk
      · rw [if_neg hko] at hk
        have hne : m ≠ node := fun e => hko (e ▸ hk)
        exact List.mem_filter.mpr ⟨hr.owner_mem k m hk, by simpa using hne⟩
    · rw [ho k] at hk
      rw [digest_remove, replicas_remove]
      by_cases hko : r.owners k = some node
      · simp [hko] at hk
      · rw [if_neg hko] at hk
        exact hr.pointOf_owner k m hk
  · rwa [Ring.remove, if_neg (by simpa using hn)]

theorem WellFormed.remove (hr : r.WellFormed) (node : String) : (r.remove node).WellFormed := by
  refine ⟨hr.toSound.remove node, ?_⟩
  by_cases hn : node ∈ r.members
  · rw [(hr.toSound.remove_eq hn).1]
    exact hr.ascending.filter _
  · rw [Ring.remove, if_neg (by simpa using hn)]
    exact hr.ascending

/-! ## Runs -/

@[simp] theorem digest_add (nodes : List String) : (r.add nodes).digest = r.digest := by
  induction nodes generalizing r with
  | nil => rfl
  | cons n ns ih => exact (ih (r := r.join n)).trans digest_join

@[simp] theorem replicas_add (nodes : List String) : (r.add nodes).replicas = r.replicas := by
  induction nodes generalizing r with
  | nil => rfl
  | cons n ns ih => exact (ih (r := r.join n)).trans replicas_join

@[simp] theorem digest_run (calls : List RingCall) : (r.run calls).digest = r.digest := by
  induction calls generalizing r with
  | nil => rfl
  | cons c cs ih =>
    refine (ih (r := c.apply r)).trans ?_
    cases c <;> simp [RingCall.apply]

@[simp] theorem replicas_run (calls : List RingCall) : (r.run calls).replicas = r.replicas := by
  induction calls generalizing r with
  | nil => rfl
  | cons c cs ih =>
    refine (ih (r := c.apply r)).trans ?_
    cases c <;> simp [RingCall.apply]

theorem WellFormed.add (hr : r.WellFormed) (nodes : List String) : (r.add nodes).WellFormed :=
  hr.toSound.add nodes

theorem WellFormed.run (hr : r.WellFormed) (calls : List RingCall) : (r.run calls).WellFormed := by
  induction calls generalizing r with
  | nil => exact hr
  | cons c cs ih =>
    cases c with
    | add nodes => exact ih (hr.add nodes)
    | remove node => exact ih (hr.remove node)

/-- Adding nodes that are all present changes nothing: the joins pass over them, and sorting
ascending positions leaves them. -/
theorem WellFormed.add_of_mem (hr : r.WellFormed) {nodes : List String}
    (h : ∀ n ∈ nodes, n ∈ r.members) : r.add nodes = r := by
  have hjoin : nodes.foldl join r = r := by
    induction nodes with
    | nil => rfl
    | cons n ns ih =>
      rw [List.foldl_cons, join_of_mem (h n List.mem_cons_self)]
      exact ih fun m hm => h m (List.mem_cons_of_mem _ hm)
  have hsorted : sortAscending r.hashes = r.hashes :=
    sortAscending_of_pairwise (hr.ascending.imp UInt64.le_of_lt)
  simp only [Ring.add, hjoin, hsorted]

/-- The representation of every ring built by calls: its positions strictly ascend; a position is
listed exactly when it has an owner; every owner is a member, and stands there by one of its own
points; and adding nodes already present changes nothing. -/
theorem run_wellFormed (digest : String → UInt64) (replicas : Int) (calls : List RingCall) :
    let r := (Ring.empty digest replicas).run calls
    r.hashes.Pairwise (· < ·) ∧ (∀ h, h ∈ r.hashes ↔ (r.owners h).isSome) ∧
      (∀ h n, r.owners h = some n → n ∈ r.members) ∧
      (∀ h n, r.owners h = some n → ∃ i < r.replicas, h = pointOf digest n i) ∧
      ∀ nodes : List String, (∀ n ∈ nodes, n ∈ r.members) → r.add nodes = r := by
  intro r
  have hr : r.WellFormed := (WellFormed.empty digest replicas).run calls
  have hdigest : r.digest = digest := digest_run calls
  refine ⟨hr.ascending, hr.mem_iff, hr.owner_mem, fun h n e => ?_, fun _ => hr.add_of_mem⟩
  rw [← hdigest]
  exact hr.pointOf_owner h n e

/-- After adding two nodes to a ring of two points each and removing the first, the second's
first point is on the ring, and adding the second again changes nothing. -/
theorem second_node_point_after_removal :
    let r := (create 2).run [.add ["a", "b"], .remove "a"]
    r.owners (pointOf xxh64Text "b" 0) = some "b" ∧ ("b" ∈ r.members ∧ ∃ i < r.replicas,
      pointOf xxh64Text "b" 0 = pointOf xxh64Text "b" i) ∧ r.add ["b"] = r := by
  intro r
  have hown : r.owners (pointOf xxh64Text "b" 0) = some "b" := by decide +kernel
  have hmem : ∀ n ∈ ["b"], n ∈ r.members := by decide +kernel
  -- the ring is one built by calls from an empty ring placing by xxHash
  have hr : (Ring.empty xxh64Text 2).run [.add ["a", "b"], .remove "a"] = r := rfl
  obtain ⟨-, -, hmembers, hpoint, hadd⟩ := run_wellFormed xxh64Text 2 [.add ["a", "b"], .remove "a"]
  rw [hr] at hmembers hpoint hadd
  exact ⟨hown, ⟨hmembers _ _ hown, hpoint _ _ hown⟩, hadd ["b"] hmem⟩

/-! ## Every key has a node -/

/-- On a well formed ring with a position, every key goes to a member. -/
theorem WellFormed.get_mem (hr : r.WellFormed) (hp : r.hashes ≠ []) (key : String) :
    ∃ name, r.get key = some name ∧ name ∈ r.members := by
  cases hget : r.get key with
  | none => exact absurd ((get_eq_none_iff key).mp hget) hp
  | some name =>
    obtain ⟨x, -, hx⟩ := (get_eq_some_iff hr.ascending hr.owned key name).mp hget
    exact ⟨name, rfl, hr.owner_mem x name hx⟩

/-- Joins in turn only add positions. -/
theorem hashes_foldl_join_sublist (nodes : List String) :
    r.hashes.Sublist (nodes.foldl Ring.join r).hashes := by
  induction nodes generalizing r with
  | nil => exact List.Sublist.refl _
  | cons n ns ih => exact hashes_join_sublist.trans (ih (r := r.join n))

/-- Adding only adds positions. -/
theorem hashes_add_subset (nodes : List String) : ∀ y ∈ r.hashes, y ∈ (r.add nodes).hashes :=
  fun _ hy => (perm_sortAscending _).mem_iff.mpr ((hashes_foldl_join_sublist nodes).subset hy)

/-- A new node on a sound ring with points per node leaves the ring with a position after it is
added. -/
theorem Sound.hashes_add_ne_nil (hr : r.Sound) (hrep : 0 < r.replicas) (hn : node ∉ r.members)
    (nodes : List String) : (r.add (node :: nodes)).hashes ≠ [] := by
  -- the node's first point has an owner after it joins, so it is listed
  have hown : ((r.join node).owners (pointOf r.digest node 0)).isSome := by
    have hpoint : ∃ i < r.replicas, pointOf r.digest node 0 = pointOf r.digest node i := ⟨0, hrep, rfl⟩
    rw [owners_join hn]
    cases r.owners (pointOf r.digest node 0) <;> simp [hpoint]
  have hmem := ((hr.join node).mem_iff _).mpr hown
  show sortAscending (nodes.foldl Ring.join (r.join node)).hashes ≠ []
  have := hashes_add_subset (r := r.join node) nodes _ hmem
  exact List.ne_nil_of_mem this

/-- Adding distinct new nodes appends them to the members, in order. -/
theorem members_add (nodes : List String) (hn : nodes.Nodup) (hfresh : ∀ n ∈ nodes, n ∉ r.members) :
    (r.add nodes).members = r.members ++ nodes := by
  induction nodes generalizing r with
  | nil => simp [Ring.add]
  | cons n ns ih =>
    obtain ⟨hn', hns⟩ := List.nodup_cons.mp hn
    have hm : n ∉ r.members := hfresh n List.mem_cons_self
    have step := members_join_of_not_mem hm
    have hrest : ∀ m ∈ ns, m ∉ (r.join n).members := by
      intro m hm' h
      rw [step, List.mem_append, List.mem_singleton] at h
      rcases h with h | rfl
      · exact hfresh m (List.mem_cons_of_mem _ hm') h
      · exact hn' hm'
    rw [show (r.add (n :: ns)).members = ((r.join n).add ns).members from rfl, ih hns hrest, step]
    simp

/-! ## One call or several -/

/-- A claim does not read the order of the positions: on the same ring with its positions
permuted it does the same, up to the order of the positions. -/
theorem claim_perm (node : String) (h : UInt64) {H : List UInt64} (hp : H.Perm r.hashes) :
    ∃ H', H'.Perm (r.claim node h).hashes ∧
      ({ r with hashes := H } : Ring).claim node h = { r.claim node h with hashes := H' } := by
  cases hh : r.owners h with
  | some m =>
    refine ⟨H, by rwa [claim_of_owned hh], ?_⟩
    rw [claim_of_owned hh, claim_of_owned (r := { r with hashes := H }) hh]
  | none =>
    refine ⟨H ++ [h], by rw [claim_of_free hh]; exact hp.append_right _, ?_⟩
    rw [claim_of_free hh, claim_of_free (r := { r with hashes := H }) hh]

/-- Claims in turn do not read the order of the positions. -/
theorem foldl_claim_perm {pos : Nat → UInt64} (idx : List Nat) {s : Ring} {H : List UInt64}
    (hp : H.Perm s.hashes) :
    ∃ H', H'.Perm (idx.foldl (fun s i => s.claim node (pos i)) s).hashes ∧
      idx.foldl (fun s i => s.claim node (pos i)) { s with hashes := H } =
        { idx.foldl (fun s i => s.claim node (pos i)) s with hashes := H' } := by
  induction idx generalizing s H with
  | nil => exact ⟨H, hp, rfl⟩
  | cons i idx ih =>
    obtain ⟨H₁, hp₁, e₁⟩ := claim_perm node (pos i) hp
    obtain ⟨H₂, hp₂, e₂⟩ := ih (s := s.claim node (pos i)) hp₁
    exact ⟨H₂, hp₂, by rw [List.foldl_cons, List.foldl_cons, e₁, e₂]⟩

/-- A join does not read the order of the positions. -/
theorem join_perm (node : String) {H : List UInt64} (hp : H.Perm r.hashes) :
    ∃ H', H'.Perm (r.join node).hashes ∧
      ({ r with hashes := H } : Ring).join node = { r.join node with hashes := H' } := by
  by_cases hn : node ∈ r.members
  · refine ⟨H, by rwa [join_of_mem hn], ?_⟩
    rw [join_of_mem hn, join_of_mem (r := { r with hashes := H }) hn]
  · rw [join_of_not_mem hn, join_of_not_mem (r := { r with hashes := H }) hn]
    exact foldl_claim_perm (s := { r with members := r.members ++ [node] }) _ hp

/-- Joins in turn do not read the order of the positions. -/
theorem foldl_join_perm (nodes : List String) {H : List UInt64} (hp : H.Perm r.hashes) :
    ∃ H', H'.Perm (nodes.foldl join r).hashes ∧
      nodes.foldl join { r with hashes := H } = { nodes.foldl join r with hashes := H' } := by
  induction nodes generalizing r H with
  | nil => exact ⟨H, hp, rfl⟩
  | cons n ns ih =>
    obtain ⟨H₁, hp₁, e₁⟩ := join_perm n hp
    obtain ⟨H₂, hp₂, e₂⟩ := ih (r := r.join n) hp₁
    exact ⟨H₂, hp₂, by rw [List.foldl_cons, List.foldl_cons, e₁, e₂]⟩

/-- Adding nodes in one call or in two gives the same ring: the joins of the second call do not
read the order the first call's sort left, and the second sort forgets it. -/
theorem add_append (xs ys : List String) : (r.add xs).add ys = r.add (xs ++ ys) := by
  obtain ⟨H, hp, e⟩ := foldl_join_perm (r := xs.foldl join r) ys
    (perm_sortAscending (xs.foldl join r).hashes)
  simp only [add, List.foldl_append]
  rw [e]
  simp only [sortAscending_eq_of_perm hp]

/-- A ring whose positions ascend is left alone by adding no node. -/
theorem add_nil (hs : r.hashes.Pairwise (· ≤ ·)) : r.add [] = r := by
  simp only [add, List.foldl_nil, sortAscending_of_pairwise hs]

/-- Adding nodes one call at a time, to a ring whose positions ascend, is adding them in one
call. -/
theorem foldl_add_singleton (hs : r.hashes.Pairwise (· ≤ ·)) (nodes : List String) :
    nodes.foldl (fun r n => r.add [n]) r = r.add nodes := by
  induction nodes generalizing r with
  | nil => exact (add_nil hs).symm
  | cons n ns ih =>
    rw [List.foldl_cons, ih (pairwise_sortAscending _), add_append]
    rfl

end Ring

end Courier.Hash
