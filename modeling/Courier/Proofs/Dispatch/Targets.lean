import Courier.Dispatch.Control
import Courier.Proofs.Dispatch.Ledger

/-!
# Where the chains of targets lead

A serial queue runs its items by posting a drain to its target, which may be another serial
queue, and workers take items only from the shared queues and from their own. `Grounded e q`
says that following targets from `q` ends, after finitely many serial queues, in a shared or a
worker's queue; `Closed e ids` says that the serial queues `ids` all target one another.
Retargeting refuses only a queue that would be its own target, so a set of queues can close
into a loop, and posting to such a loop never reaches a queue that a worker takes from.

- `Engine.setTarget_of_some`: what retargeting does;
- `Engine.Grounded.setTarget`: a new target whose chain is grounded and avoids the queue keeps
  every grounded queue grounded;
- `Engine.not_grounded_of_closed`: no queue of a closed set is grounded;
- `Engine.postWithin_closed`: posting to a closed set changes only serial queues;
- `Engine.setTarget_pair_closed`: two distinct serial queues pointed at each other are both
  accepted, and they form a closed set.
-/

set_option autoImplicit false

namespace Courier.Dispatch

namespace Engine

variable {e : Engine}

/-- Following targets from the queue ends in a shared or a worker's queue. -/
inductive Grounded (e : Engine) : QueueRef → Prop
  | global (p : Priority) : Grounded e (.global p)
  | thread (w : WorkerId) (p : Priority) : Grounded e (.thread w p)
  | serial {id : Nat} {s : Serial} (hs : e.serials[id]? = some s) (h : Grounded e s.target) :
      Grounded e (.serial id)

/-- Following targets from the queue passes serial queue `id`. -/
inductive Passes (e : Engine) (id : Nat) : QueueRef → Prop
  | here : Passes e id (.serial id)
  | next {j : Nat} {s : Serial} (hs : e.serials[j]? = some s) (h : Passes e id s.target) :
      Passes e id (.serial j)

/-- The serial queues `ids` exist and each targets one of them. -/
def Closed (e : Engine) (ids : List Nat) : Prop :=
  ∀ j ∈ ids, ∃ s, e.serials[j]? = some s ∧ ∃ k ∈ ids, s.target = .serial k

/-! ## Retargeting -/

/-- Retargeting a serial queue: refused, with nothing changed, when the queue would be its own
target, and otherwise only its target changes. -/
theorem setTarget_of_some {id : Nat} {s : Serial} (hs : e.serials[id]? = some s)
    (onto : Option QueueRef) :
    e.setTarget id onto =
      if onto.getD (.global s.prio) = .serial id then
        (.error (.aborted "dispatch: serial queue cannot target itself"), e)
      else (.ok (), e.modifySerial id fun s' => { s' with target := onto.getD (.global s.prio) }) := by
  simp only [setTarget, hs, beq_iff_eq]

/-- A grounded chain that avoids serial queue `id` stays grounded whatever happens to `id`. -/
theorem Grounded.modifySerial {id : Nat} {q : QueueRef} (h : e.Grounded q) (hn : ¬ e.Passes id q)
    (f : Serial → Serial) : (e.modifySerial id f).Grounded q := by
  induction h with
  | global p => exact .global p
  | thread w p => exact .thread w p
  | @serial j s hs _ ih =>
    have hj : id ≠ j := fun hj => hn (hj ▸ .here)
    have hs' : (e.modifySerial id f).serials[j]? = some s := by
      simp [Array.getElem?_modify, hs, hj]
    exact .serial hs' (ih fun hp => hn (.next hs hp))

/-- Retargeting a queue at a queue whose chain is grounded and avoids it keeps every grounded
queue grounded. -/
theorem Grounded.setTarget {id : Nat} {onto : Option QueueRef} {q : QueueRef} (h : e.Grounded q)
    (hg : ∀ s, e.serials[id]? = some s →
      e.Grounded (onto.getD (.global s.prio)) ∧ ¬ e.Passes id (onto.getD (.global s.prio))) :
    (e.setTarget id onto).2.Grounded q := by
  cases hs : e.serials[id]? with
  | none => simpa [Engine.setTarget, hs] using h
  | some s =>
    rw [setTarget_of_some hs]
    split
    · exact h
    · obtain ⟨hgt, hnp⟩ := hg s hs
      -- the queue itself now leads to the new target, every other queue where it led before
      induction h with
      | global p => exact .global p
      | thread w p => exact .thread w p
      | @serial j s' hs' _ ih =>
        by_cases hj : id = j
        · subst hj
          have hs1 : (e.modifySerial id fun s' => { s' with target := onto.getD (.global s.prio) }).serials[id]? =
              some { s' with target := onto.getD (.global s.prio) } := by
            simp [Array.getElem?_modify, hs']
          exact .serial hs1 (hgt.modifySerial hnp _)
        · have hs1 : (e.modifySerial id fun s' => { s' with target := onto.getD (.global s.prio) }).serials[j]? =
              some s' := by
            simp [Array.getElem?_modify, hs', hj]
          exact .serial hs1 ih

/-! ## Loops -/

/-- No queue of a closed set is grounded: its chain of targets stays within the set. -/
theorem not_grounded_of_closed {ids : List Nat} (hc : e.Closed ids) {j : Nat} (hj : j ∈ ids) :
    ¬ e.Grounded (.serial j) := by
  intro h
  generalize hq : QueueRef.serial j = q at h
  induction h generalizing j with
  | global p => cases hq
  | thread w p => cases hq
  | @serial id s hs _ ih =>
    obtain rfl : j = id := QueueRef.serial.inj hq
    obtain ⟨s', hs', k, hk, ht⟩ := hc j hj
    obtain rfl : s = s' := Option.some.inj (hs.symm.trans hs')
    exact ih hk ht.symm

theorem Closed.modifySerial {ids : List Nat} (hc : e.Closed ids) (id : Nat) {f : Serial → Serial}
    (hf : ∀ s, (f s).target = s.target) : (e.modifySerial id f).Closed ids := by
  intro j hj
  obtain ⟨s, hs, k, hk, ht⟩ := hc j hj
  by_cases hid : id = j
  · subst hid
    exact ⟨f s, by simp [Array.getElem?_modify, hs], k, hk, by rw [hf, ht]⟩
  · exact ⟨s, by simp [Array.getElem?_modify, hs, hid], k, hk, ht⟩

/-- A queue that follows its callers stays put while it targets a serial queue. -/
theorem followCaller_of_serial {id k : Nat} {s : Serial} (hs : e.serials[id]? = some s)
    (ht : s.target = .serial k) (scope : Scope) : e.followCaller scope id = e := by
  unfold followCaller
  rw [hs]
  split
  · rename_i s' _ hs'
    cases hs'
    rw [ht]
  · rfl

/-- Posting to a queue of a closed set changes only serial queues and keeps the set closed: every
drain it posts goes into a serial queue of the set, never where a worker takes work. -/
theorem postWithin_closed {ids : List Nat} : ∀ (hops : Nat) {e : Engine} {scope : Scope} {j : Nat}
    {it : Item}, e.Closed ids → j ∈ ids →
      (e.postWithin hops scope (.serial j) it).global = e.global ∧
        (e.postWithin hops scope (.serial j) it).main = e.main ∧
        (e.postWithin hops scope (.serial j) it).workers = e.workers ∧
        (e.postWithin hops scope (.serial j) it).Closed ids
  | 0, _, _, _, _, hc, _ => ⟨rfl, rfl, rfl, hc⟩
  | hops + 1, e, scope, j, it, hc, hj => by
    obtain ⟨s, hs, k, hk, ht⟩ := hc j hj
    simp only [postWithin, hs]
    rw [followCaller_of_serial hs ht, ite_self]
    generalize (if s.pooled.isSome && !it.internal then
        { it with caller := scope.poolWorker, callerCtx := scope.pooled } else it) = it'
    -- the item joins the queue, whose target stays in the set
    have hc1 := hc.modifySerial j (f := fun s => { s with tasks := s.tasks.push it', size := s.size + 1 })
      fun _ => rfl
    split
    · unfold triggerWith
      have hs1 : (e.modifySerial j fun s => { s with tasks := s.tasks.push it', size := s.size + 1 }).serials[j]? =
          some { s with tasks := s.tasks.push it', size := s.size + 1 } := by
        simp [Array.getElem?_modify, hs]
      rw [hs1]
      simp only
      split
      · exact ⟨rfl, rfl, rfl, hc1⟩
      · -- the drain goes to the next queue of the set
        have hc2 := hc1.modifySerial j (f := fun s => { s with triggered := true }) fun _ => rfl
        obtain ⟨hg, hm, hw, hc3⟩ := @postWithin_closed ids hops _ scope k ⟨.drain j, none, none⟩ hc2 hk
        rw [ht]
        exact ⟨hg, hm, hw, hc3⟩
    · exact ⟨rfl, rfl, rfl, hc1⟩

/-- A task posted to a queue of a closed set reaches no queue a worker takes from. -/
theorem dispatchAsync_closed {ids : List Nat} (hc : e.Closed ids) {j : Nat} (hj : j ∈ ids)
    (scope : Scope) (t : Task) :
    (e.dispatchAsync scope (.serial j) t).global = e.global ∧
      (e.dispatchAsync scope (.serial j) t).main = e.main ∧
      (e.dispatchAsync scope (.serial j) t).workers = e.workers :=
  let h := @postWithin_closed ids (e.serials.size + 1) e scope j ⟨.task t, none, none⟩ hc hj
  ⟨h.1, h.2.1, h.2.2.1⟩

/-- Two distinct serial queues pointed at each other: retargeting checks only that a queue is
not its own target, so both calls are accepted, and the two queues then form a closed set, so
neither is grounded. -/
theorem setTarget_pair_closed {a b : Nat} (hab : a ≠ b) (ha : a < e.serials.size)
    (hb : b < e.serials.size) :
    (e.setTarget a (some (.serial b))).1 = .ok () ∧
      ((e.setTarget a (some (.serial b))).2.setTarget b (some (.serial a))).1 = .ok () ∧
      ((e.setTarget a (some (.serial b))).2.setTarget b (some (.serial a))).2.Closed [a, b] := by
  obtain ⟨sa, hsa⟩ : ∃ s, e.serials[a]? = some s := ⟨_, Array.getElem?_eq_getElem ha⟩
  obtain ⟨sb, hsb⟩ : ∃ s, e.serials[b]? = some s := ⟨_, Array.getElem?_eq_getElem hb⟩
  have hne : QueueRef.serial b ≠ .serial a := fun h => hab (QueueRef.serial.inj h).symm
  rw [setTarget_of_some hsa, if_neg (by simpa using hne)]
  dsimp only [Option.getD_some]
  have hsb1 : (e.modifySerial a fun s' => { s' with target := .serial b }).serials[b]? = some sb := by
    simp [Array.getElem?_modify, hsb, hab]
  rw [setTarget_of_some hsb1, if_neg (by simpa using hne.symm)]
  dsimp only [Option.getD_some]
  refine ⟨rfl, rfl, fun j hj => ?_⟩
  simp only [List.mem_cons, List.not_mem_nil, or_false] at hj
  rcases hj with rfl | rfl
  · exact ⟨{ sa with target := .serial b }, by simp [Array.getElem?_modify, hsa, Ne.symm hab],
      b, by simp, rfl⟩
  · exact ⟨{ sb with target := .serial a }, by simp [Array.getElem?_modify, hsb, hab], a, by simp, rfl⟩

end Engine

end Courier.Dispatch
