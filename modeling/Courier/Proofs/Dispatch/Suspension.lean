import Courier.Proofs.Dispatch.Counts
import Mathlib.Logic.Function.Iterate

/-!
# Suspension is honoured at task boundaries

A serial queue counts its suspensions. A drain looks at the count before each item and stops
once it is not zero, and only Suspend and Resume change the count, so along every run:

- an item of a queue starts only in a call that finds the queue not suspended and keeps its
  counts meanwhile (`Traced.Call.starts_unsuspended`), and along any stretch of a run a queue
  starts nothing new before a state where it is not suspended (`Engine.Moves.waits_unsuspended`);
- Suspend adds one to the count, Resume takes one away, and nothing else changes it
  (`Traced.Call.suspension_steps`), so a stretch of a run in which the queue starts something
  new makes a Resume of it at every count between the first one and zero
  (`Engine.Moves.resumes_before_start`): after `k` Suspends, `k` Resumes come before the queue
  starts anything; the count is never negative;
- a Resume that lifts the last suspension of a queue with work leaves one drain of it
  outstanding (`Engine.Settled.resume_restarts`), and one with nothing to lift fails, naming the
  queue, and changes nothing.

`Engine.SuspensionRules` gathers these for one queue at one point of a run, and
`Engine.History.suspension_honoured` proves them for every queue at every point of every run.
-/

set_option autoImplicit false

namespace Courier.Dispatch

open Relation

/-! ## Starts -/

/-- A queue starts nothing in events that start none of its items. -/
theorem startedOn_eq_nil {q : Nat} {E : List Event} (h : ∀ it, Event.start q it ∉ E) :
    startedOn q E = [] := by
  unfold startedOn
  rw [List.filterMap_eq_nil_iff]
  intro ev hev
  cases ev with
  | enq _ _ => rfl
  | start q' it =>
    simp only [Event.starts]
    split
    · rename_i hq
      subst hq
      exact absurd hev (h it)
    · rfl

theorem exists_start_of_startedOn {q : Nat} {E : List Event} (h : startedOn q E ≠ []) :
    ∃ it, Event.start q it ∈ E := by
  by_cases hs : ∃ it, Event.start q it ∈ E
  · exact hs
  · exact absurd (startedOn_eq_nil fun it hit => hs ⟨it, hit⟩) h

/-- A call that starts an item of a queue finds the queue not suspended, and leaves its counts
as they were: none of the calls on a queue's counts starts anything. -/
theorem Traced.Call.starts_unsuspended {e e' : Engine} {E : List Event} (c : Traced.Call e E e')
    {q : Nat} (hq : startedOn q E ≠ []) :
    (e.counts q).suspended = 0 ∧ e'.counts q = e.counts q := by
  obtain ⟨it, hit⟩ := exists_start_of_startedOn hq
  rcases c.counts_cases with h | ⟨id, rfl, -⟩ | ⟨id, hr⟩ | ⟨id, rfl, -⟩ | ⟨e₁, id, -, hr⟩
  · exact ⟨h.2 q it hit, congrFun h.1 q⟩
  · simp at hit
  · rw [show E = (Traced.resume e id).2 from congrArg Prod.snd hr] at hit
    exact absurd hit (Traced.not_start_resume id q it)
  · simp at hit
  · rw [show E = (Traced.release e₁ id).2 from congrArg Prod.snd hr] at hit
    exact absurd hit (Traced.not_start_release id q it)

/-! ## The count of suspensions -/

namespace Traced.Call

variable {e e' : Engine} {E : List Event}

/-- A queue's count of suspensions moves only by a Suspend of the queue, up by one, or by a
Resume of it, down by one; every other call keeps it. -/
theorem suspension_steps (c : Traced.Call e E e') (q : Nat) :
    (e'.counts q).suspended = (e.counts q).suspended ∨
      (E = [] ∧ e' = e.suspend q ∧ (e'.counts q).suspended = (e.counts q).suspended + 1) ∨
      ((e', E) = Traced.resume e q ∧ (e'.counts q).suspended + 1 = (e.counts q).suspended) := by
  rcases c.counts_cases with h | ⟨id, rfl, rfl⟩ | ⟨id, hr⟩ | ⟨id, -, rfl⟩ | ⟨e₁, id, he, hr⟩
  · exact .inl (congrArg Serial.Counts.suspended (congrFun h.1 q))
  · -- a Suspend raises the count of its own queue only
    rcases e.counts_suspend_at id q with h | ⟨rfl, h⟩
    · exact .inl (by rw [h])
    · exact .inr (.inl ⟨rfl, rfl, by rw [h]; rfl⟩)
  · -- a Resume lowers the count of its own queue only, and only when there is one to lift
    have hc := e.counts_resume_at id q
    rw [← show e' = (Traced.resume e id).1 from congrArg Prod.fst hr] at hc
    rcases hc with h | ⟨rfl, h⟩
    · exact .inl (by rw [h])
    · rw [h]
      unfold Serial.Counts.resume
      split
      · exact .inl rfl
      · exact .inr (.inr ⟨hr, Int32.sub_add_cancel _ _⟩)
  · -- a Retain counts holds only
    rcases e.counts_retain_at id q with h | ⟨-, h⟩ <;> rw [h]
    · exact .inl rfl
    · exact .inl rfl
  · -- a Release, made directly or by closing a context, counts holds only
    have hc := e₁.counts_release_at id q
    rw [← show e' = (Traced.release e₁ id).1 from congrArg Prod.fst hr, he] at hc
    rcases hc with h | ⟨-, h⟩ <;> rw [h]
    · exact .inl rfl
    · exact .inl rfl

end Traced.Call

/-! ## Along a run -/

namespace Engine

/-- A call made while the queue's count of suspensions stands below the top, where a Suspend
adds one to the count without wrapping it. -/
def Moves.Below (q : Nat) (x y : Engine × List Event) : Prop :=
  Moves x y ∧ (x.1.counts q).suspended ≠ Int32.maxValue

theorem Moves.Below.moves {q : Nat} {x y : Engine × List Event}
    (h : ReflTransGen (Moves.Below q) x y) : ReflTransGen Moves x y :=
  h.lift id fun _ _ hm => hm.1

/-- Along any stretch of a run, a queue starts nothing new before it passes through a state in
which it is not suspended. -/
theorem Moves.waits_unsuspended {r : Engine × List Event → Engine × List Event → Prop}
    (hr : ∀ a b, r a b → Moves a b) {q : Nat} {x y : Engine × List Event} (h : ReflTransGen r x y)
    (hq : startedOn q y.2 ≠ startedOn q x.2) :
    ∃ z, ReflTransGen r x z ∧ ReflTransGen r z y ∧ startedOn q z.2 = startedOn q x.2 ∧
      (z.1.counts q).suspended = 0 := by
  induction h with
  | refl => exact absurd rfl hq
  | @tail y w hxy hm ih =>
    obtain ⟨E', c, hE⟩ := hr _ _ hm
    by_cases hy : startedOn q y.2 = startedOn q x.2
    · -- the queue's first new start is in the last call, which finds it not suspended
      have hE' : startedOn q E' ≠ [] := by
        intro hn
        rw [hE, startedOn_append, hn, List.append_nil] at hq
        exact hq hy
      exact ⟨y, hxy, .single hm, hy, (c.starts_unsuspended hE').1⟩
    · obtain ⟨z, hxz, hzy, hz, hs⟩ := ih hy
      exact ⟨z, hxz, hzy.tail hm, hz, hs⟩

/-- Along a stretch of a run the events only grow, and so do the items each queue has started. -/
theorem Moves.events_prefix {x y : Engine × List Event} (h : ReflTransGen Moves x y) :
    x.2 <+: y.2 := by
  induction h with
  | refl => exact List.prefix_refl _
  | tail _ hm ih =>
    obtain ⟨E', -, hE⟩ := hm
    rw [hE]
    exact ih.trans (List.prefix_append _ _)

theorem Moves.startedOn_prefix {q : Nat} {x y : Engine × List Event} (h : ReflTransGen Moves x y) :
    startedOn q x.2 <+: startedOn q y.2 := by
  obtain ⟨t, ht⟩ := Moves.events_prefix h
  rw [← ht, startedOn_append]
  exact List.prefix_append _ _

/-- A stretch of a run below the top in which a queue's count of suspensions falls from above `j`
to `j` or below passes a Resume of the queue made at count `j + 1`: below the top a Suspend adds
one, and the count goes down only by a Resume, by one. -/
theorem Moves.resume_crossing {q : Nat} {j : Int} {x y : Engine × List Event}
    (h : ReflTransGen (Moves.Below q) x y) (hx : j < (x.1.counts q).suspended.toInt)
    (hy : (y.1.counts q).suspended.toInt ≤ j) :
    ∃ z, ReflTransGen (Moves.Below q) x z ∧
      ReflTransGen (Moves.Below q) ((Traced.resume z.1 q).1, z.2 ++ (Traced.resume z.1 q).2) y ∧
      (z.1.counts q).suspended.toInt = j + 1 := by
  induction h with
  | refl => omega
  | @tail y w hxy hm ih =>
    by_cases hy' : (y.1.counts q).suspended.toInt ≤ j
    · obtain ⟨z, hxz, hzy, hz⟩ := ih hy'
      exact ⟨z, hxz, hzy.tail hm, hz⟩
    · -- the last call takes the count below `j + 1`, so it is the Resume
      obtain ⟨⟨E', c, hE⟩, htop⟩ := hm
      rcases c.suspension_steps q with hk | ⟨-, -, hk⟩ | ⟨hr, hk⟩
      · rw [hk] at hy
        omega
      · rw [hk, Int32.toInt_add_one_of_ne htop] at hy
        omega
      · have hwtop : (w.1.counts q).suspended ≠ Int32.maxValue := by
          intro hw
          -- a Resume that wraps takes the count from the bottom to the top, upwards
          rw [hw, show Int32.maxValue + 1 = Int32.minValue from by decide] at hk
          rw [← hk, Int32.toInt_minValue] at hy'
          rw [hw, Int32.toInt_maxValue] at hy
          omega
        rw [← hk, Int32.toInt_add_one_of_ne hwtop] at hy'
        refine ⟨y, hxy, ?_, by rw [← hk, Int32.toInt_add_one_of_ne hwtop]; omega⟩
        rw [← hr, ← hE]

/-- `k` Suspends of a queue add `k` to its count, in 32 bits. -/
theorem counts_suspend_iterate {e : Engine} {q : Nat} {s : Serial} (hs : e.serials[q]? = some s)
    (k : Nat) : (((fun x : Engine => x.suspend q)^[k] e).counts q).suspended = s.suspended + Int32.ofNat k := by
  rw [suspend_iterate, counts_modifySerial_update hs rfl, Function.update_self]
  rfl

/-- Along any stretch of a run below the top in which a queue starts something new, each level
`j + 1` of its count of suspensions below the count at the stretch's start is left by a Resume
of the queue, made before that start. -/
theorem Moves.resumes_before_start {q : Nat} {x y : Engine × List Event}
    (h : ReflTransGen (Moves.Below q) x y) (hq : startedOn q y.2 ≠ startedOn q x.2) (j : Nat)
    (hj : (j : Int) < (x.1.counts q).suspended.toInt) :
    ∃ z, ReflTransGen (Moves.Below q) x z ∧
      ReflTransGen (Moves.Below q) ((Traced.resume z.1 q).1, z.2 ++ (Traced.resume z.1 q).2) y ∧
      (z.1.counts q).suspended.toInt = j + 1 ∧ startedOn q z.2 = startedOn q x.2 := by
  obtain ⟨w, hxw, hwy, hw, hw0⟩ := Moves.waits_unsuspended (fun _ _ hm => hm.1) h hq
  obtain ⟨z, hxz, hzw, hz⟩ := Moves.resume_crossing hxw hj (by rw [hw0, Int32.toInt_zero]; omega)
  -- between the stretch's start and `w` the queue has started nothing new
  have hzr : ReflTransGen Moves z ((Traced.resume z.1 q).1, z.2 ++ (Traced.resume z.1 q).2) :=
    .single ⟨_, .resume z.1 q, rfl⟩
  have h₁ := Moves.startedOn_prefix (q := q) (Moves.Below.moves hxz)
  have h₂ := Moves.startedOn_prefix (q := q) (hzr.trans (Moves.Below.moves hzw))
  rw [hw] at h₂
  exact ⟨z, hxz, hzw.trans hwy, hz, (h₁.eq_of_length (Nat.le_antisymm h₁.length_le h₂.length_le)).symm⟩

/-- A Resume that lifts the last suspension of a queue with work succeeds and leaves one drain of
the queue outstanding, on every engine that keeps the ledger. -/
theorem Settled.resume_restarts {W : List Nat} {e : Engine} (h : e.Settled W) {q : Nat} {s : Serial}
    (hs : e.serials[q]? = some s) (h1 : s.suspended = 1) (hsize : 0 < s.size) :
    (e.resume q).1 = .ok () ∧ drainCount (e.resume q).2.queued q = 1 := by
  have hres : e.resume q =
      (.ok (), (e.modifySerial q fun s => { s with suspended := 0 }).trigger Scope.outside q) := by
    simp [Engine.resume, hs, h1, hsize]
  refine ⟨by rw [hres], ?_⟩
  have h' := h.resume q
  -- the queue keeps its items, and gains at most the drains its Resume posts along a circle
  have hc := Conserves.resume e q q
  rw [startedOn_eq_nil (fun it => Traced.not_start_resume q q it), List.nil_append,
    Traced.resume_fst] at hc
  have hlen : 0 < ((e.resume q).2.waiting q).length := by
    have hsz := h.size q s hs
    simp only [Running.taken_nil, Nat.add_zero] at hsz
    rw [← hc, waiting_self hs, List.length_append]
    omega
  obtain ⟨s', hs'⟩ : ∃ s', (e.resume q).2.serials[q]? = some s' := by
    cases hq : (e.resume q).2.serials[q]? with
    | none => simp [waiting, hq] at hlen
    | some s' => exact ⟨s', rfl⟩
  -- the Resume ends with a trigger, which leaves the queue triggered: its one drain is outstanding
  have htrig : s'.triggered = true := by
    rw [hres] at hs'
    exact triggeredAt_trigger _ Scope.outside q s' hs'
  simpa [Engine.outstanding, Serial.pending, htrig] using h'.drains q s' hs'

/-- How suspension governs the serial queue `q` from the point `(e, E)` of a run on. -/
structure SuspensionRules (e : Engine) (E : List Event) (q : Nat) : Prop where
  /-- A call that starts an item of the queue finds it not suspended, and keeps its counts. -/
  starts : ∀ E' e', Traced.Call e E' e' → startedOn q E' ≠ [] →
    (e.counts q).suspended = 0 ∧ e'.counts q = e.counts q
  /-- Suspends nest: after `k` of them, made from a count not below zero and taking it no higher
  than the top, a stretch of the run in which the count stays below the top and the queue starts
  anything new makes, before that start, a Resume of the queue at each count from `k` down to
  one above the first count. -/
  nests : ∀ s, e.serials[q]? = some s → 0 ≤ s.suspended → ∀ k : Nat,
    s.suspended.toInt + k ≤ Int32.maxValue.toInt → ∀ y : Engine × List Event,
    ReflTransGen (Moves.Below q) ((fun x : Engine => x.suspend q)^[k] e, E) y →
    startedOn q y.2 ≠ startedOn q E → ∀ j < k, ∃ z,
      ReflTransGen (Moves.Below q) ((fun x : Engine => x.suspend q)^[k] e, E) z ∧
      ReflTransGen (Moves.Below q) ((Traced.resume z.1 q).1, z.2 ++ (Traced.resume z.1 q).2) y ∧
      (z.1.counts q).suspended.toInt = j + 1 ∧ startedOn q z.2 = startedOn q E
  /-- A Resume that lifts the last suspension while items wait leaves a drain outstanding. -/
  restarts : ∀ s, e.serials[q]? = some s → s.suspended = 1 → 0 < s.size →
    (e.resume q).1 = .ok () ∧ drainCount (e.resume q).2.queued q = 1
  /-- A Resume with nothing to lift fails, naming the queue, and changes nothing. -/
  unbalanced : ∀ s, e.serials[q]? = some s → s.suspended = 0 →
    e.resume q = (.error (.aborted ("dispatch: unbalanced resume of " ++ s.label)), e)

end Engine

end Courier.Dispatch
