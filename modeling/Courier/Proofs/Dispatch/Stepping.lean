import Courier.Proofs.Dispatch.Draining
import Courier.Dispatch.Control

/-!
# Worker steps keep the drain ledger

A worker step takes the next item from the worker's own queue or, for a pool worker, from the
shared queue, and runs it; a pool worker that ran its stopping job leaves, handing what is left
in its own queues to the shared queues and its contexts to another worker. Between steps no drain
runs and nothing is being posted, and the next step begins with every serial queue there is: that
is `Engine.Settled`.

- `Engine.takeAt_queued`: taking an item removes it from the waiting items;
- `Ledger.start`: an item taken from the queues starts running;
- `Ledger.handOver`, `Ledger.adoptOrphans`, `Ledger.exitWorker`: a worker that leaves keeps the
  ledger;
- `Engine.Settled.stepWorker`: a step keeps a settled engine settled; and so do the runs of steps,
  `Settled.runPoolFor`, `Settled.runMainFor` and `Settled.runBothFor`.
-/

set_option autoImplicit false

namespace Courier.Dispatch

open Courier.Queue

/-- The ledger between steps: no drain runs, nothing is being posted, and the next step begins
with every serial queue there is. The queues `W` are exempt from the suspension rules. -/
def Engine.Settled (W : List Nat) (e : Engine) : Prop := Ledger W e.serials.size [] [] e

/-- Once a step is over, its ledger is the settled one. -/
theorem Ledger.settled {W : List Nat} {n : Nat} {e : Engine} (h : Ledger W n [] [] e) : e.Settled W :=
  h.mono h.grown (Nat.le_refl _)

/-! ## Taking an item -/

namespace Engine

variable {e : Engine}

theorem LanesWF.setLane (hwf : e.LanesWF) {w : WorkerId} {wk : Worker} (hw : e.worker? w = some wk)
    {p : Priority} {l : Lane} (hl : l.mine.WF) :
    (e.modifyWorker w fun wk => { wk with lanes := wk.lanes.set p l }).LanesWF := by
  intro w' wk' hw'
  rw [worker?_modifyWorker] at hw'
  split at hw'
  · rename_i hww
    subst hww
    rw [hw] at hw'
    obtain rfl := Option.some.inj hw'
    exact Worker.WF.setLane (hwf _ wk hw) hl
  · exact hwf w' wk' hw'

/-- Taking an item for a worker removes it from the waiting items and leaves the serial queues
as they were. -/
theorem takeAt_queued {w : WorkerId} {p : Priority} {scope : Scope} {it : Item} {e' : Engine}
    (hwf : e.LanesWF) (ht : e.takeAt w p = some (scope, it, e')) :
    (it :: e'.queued).Perm e.queued ∧ e'.serials = e.serials ∧ e'.LanesWF := by
  classical
  unfold takeAt at ht
  split at ht
  · simp at ht
  · rename_i wk hw
    split at ht
    · -- from the worker's own queue
      rename_i it' l hp
      simp only [Option.some.injEq, Prod.mk.injEq] at ht
      obtain ⟨-, rfl, rfl⟩ := ht
      obtain ⟨hl, hwfl⟩ := Lane.pop_some (hwf w wk hw p) hp
      refine ⟨?_, by cases w <;> rfl, hwf.setLane hw hwfl⟩
      have h1 := e.queued_modifyWorker w (fun wk => { wk with lanes := wk.lanes.set p l }) hw
      have h2 := Worker.queued_setLane wk p l
      rw [hl] at h2
      simp only [List.perm_iff_count, List.count_append, List.count_cons] at h1 h2 ⊢
      intro x; have := h1 x; have := h2 x; omega
    · split at ht
      · simp at ht
      · -- from the shared queue
        split at ht
        · rename_i it' g hp
          simp only [Option.some.injEq, Prod.mk.injEq] at ht
          obtain ⟨-, rfl, rfl⟩ := ht
          have hg : (e.global.get p).toList = it' :: g.toList := by
            have h1 := Linked.pop_fst (e.global.get p)
            have h2 := Linked.toList_pop (e.global.get p)
            rw [hp] at h1 h2
            cases hl : (e.global.get p).toList with
            | nil => rw [hl] at h1; simp at h1
            | cons a t => rw [hl] at h1 h2; simp_all
          refine ⟨?_, rfl, fun w' wk' hw' => hwf w' wk' (by cases w' <;> exact hw')⟩
          have h1 := e.queued_setGlobal p g
          rw [hg] at h1
          simp only [List.perm_iff_count, List.count_append, List.count_cons] at h1 ⊢
          intro x; have := h1 x; omega
        · simp at ht

theorem nextItem_eq_some {w : WorkerId} {r : Scope × Item × Engine} (h : e.nextItem w = some r) :
    ∃ p, e.takeAt w p = some r := by
  obtain ⟨p, -, hp⟩ := List.exists_of_findSome?_eq_some h
  exact ⟨p, hp⟩

end Engine

namespace Ledger

variable {n : Nat} {W : List Nat} {R : Running} {extra : List Item} {e : Engine}

/-- An item taken out of the queues starts running: a drain joins the running drains. -/
theorem start (h : Ledger W n R extra e) {it : Item} {e' : Engine} (hn : e.serials.size ≤ n)
    (hq : (it :: e'.queued).Perm e.queued) (hs : e'.serials = e.serials) (hl : e'.LanesWF) :
    Ledger W n (R.start it) extra e' := by
  have hc : ∀ x, drainCount e'.queued x + (if it.drainOf = some x then 1 else 0) =
      drainCount e.queued x := by
    intro x; have := drainCount_eq_of_perm hq x; simp only [drainCount_cons] at this; omega
  refine h.of_moved (fun x => ?_) hs hl (fun x => by simp) (fun x hx => Running.mem_start.mpr (.inr hx))
    fun x hx => ?_
  · have := hc x; rw [Running.count_start]; omega
  · rcases Running.mem_start.mp hx with hx | hx
    · -- a drain that was waiting is of a queue that exists
      have hpos : 0 < e.outstanding R extra x := by
        have := hc x; simp only [hx, if_true] at this; simp only [Engine.outstanding]; omega
      have hlt : x < e.serials.size := by
        by_cases hlt : x < e.serials.size
        · exact hlt
        · have := h.absent x (Array.getElem?_eq_none_iff.mpr (by omega)); omega
      omega
    · exact h.running x hx

/-! ## A worker leaves -/

/-- Items handed to a shared queue one after the other leave the items being posted. -/
theorem pushAll (p : Priority) : ∀ (items : List Item) {e : Engine}, Ledger W n R (items ++ extra) e →
    Ledger W n R extra (items.foldl (fun e it => e.pushGlobal p it) e)
  | [], _, h => h
  | _ :: items, _, h => pushAll p items (h.pushGlobal p)

/-- Emptying a lane of a worker: its items are then being posted. -/
theorem emptyLane (h : Ledger W n R extra e) {w : WorkerId} {wk : Worker} (hw : e.worker? w = some wk)
    (p : Priority) :
    Ledger W n R ((wk.lanes.get p).toList ++ extra)
      (e.modifyWorker w fun wk => { wk with lanes := wk.lanes.set p Lane.empty }) := by
  classical
  refine h.of_queued (fun x => ?_) (by cases w <;> rfl) (h.lanes.setLane hw Chunked.wf_empty)
  have h1 := drainCount_eq_of_perm
    (e.queued_modifyWorker w (fun wk => { wk with lanes := wk.lanes.set p Lane.empty }) hw) x
  have h2 := drainCount_eq_of_perm (Worker.queued_setLane wk p Lane.empty) x
  simp only [drainCount_append] at h1 h2 ⊢
  simp only [Lane.toList_empty, drainCount_nil] at h2
  omega

theorem handOver (h : Ledger W n R extra e) (w : WorkerId) : Ledger W n R extra (e.handOver w) := by
  unfold Engine.handOver
  generalize Priority.all = ps
  induction ps generalizing e with
  | nil => exact h
  | cons p ps ih =>
    apply ih
    dsimp only
    split
    · rename_i wk hw
      exact pushAll p _ (h.emptyLane hw p)
    · exact h

theorem adoptOrphans (h : Ledger W n R extra e) (i : Nat) : Ledger W n R extra (e.adoptOrphans i) :=
  Engine.adoptOrphans_induction (P := Ledger W n R extra) i h (h.of_eq rfl rfl rfl rfl)
    fun _ c _ h' => h'.assignTo c _

theorem exitWorker (h : Ledger W n R extra e) (i : Nat) : Ledger W n R extra (e.exitWorker i) := by
  -- the worker is marked as gone and its queues handed over; the rest touches no queue
  have h1 := (h.modifyWorker (.pool i) (f := fun wk => { wk with status := .terminated })
    fun _ => rfl).handOver (.pool i)
  unfold Engine.exitWorker
  dsimp only
  generalize (e.modifyWorker (.pool i) fun wk => { wk with status := .terminated }).handOver
    (.pool i) = e1 at h1 ⊢
  have h2 : Ledger W n R extra { e1 with live := e1.live.erase i } := h1.of_eq rfl rfl rfl rfl
  split
  · exact h2.of_eq rfl rfl rfl rfl
  · exact (h2.adoptOrphans i).of_eq rfl rfl rfl rfl

end Ledger

/-! ## Steps and runs -/

namespace Engine.Settled

variable {W : List Nat} {e : Engine}

/-- A worker step keeps a settled engine settled: the item it takes runs to its end with more
nesting fuel than there are serial queues. -/
theorem stepWorker (h : e.Settled W) {w : WorkerId} {e' : Engine} (hs : e.stepWorker w = some e') :
    e'.Settled W := by
  unfold Engine.stepWorker at hs
  split at hs
  · simp at hs
  · rename_i scope it e1 hn
    obtain ⟨p, hp⟩ := e.nextItem_eq_some hn
    obtain ⟨hq, hss, hl⟩ := e.takeAt_queued h.lanes hp
    have h1 := Ledger.start h (Nat.le_refl _) hq hss hl
    have hfuel : e1.nestingDepth = e.serials.size + 1 := by simp [Engine.nestingDepth, hss]
    have h2 := Ledger.runJob (e.serials.size + 1) 0 (by omega) [] scope it e1 rfl h1
    rw [← hfuel] at h2
    generalize runJob e1.nestingDepth scope it e1 = e2 at h2 hs
    cases w with
    | main => obtain rfl := Option.some.inj hs; exact h2.settled
    | pool i =>
      simp only at hs
      split at hs
      · obtain rfl := Option.some.inj hs
        split
        · exact (h2.exitWorker i).settled
        · exact h2.settled
      · obtain rfl := Option.some.inj hs; exact h2.settled

/-- The first live pool worker that has work steps. -/
theorem stepPool (h : e.Settled W) {e' : Engine}
    (hs : e.live.findSome? (fun i => e.stepWorker (.pool i)) = some e') : e'.Settled W := by
  obtain ⟨i, -, hi⟩ := List.exists_of_findSome?_eq_some hs
  exact h.stepWorker hi

theorem runPoolFor : ∀ (k : Nat) {e : Engine}, e.Settled W → (Engine.runPoolFor k e).Settled W
  | 0, _, h => h
  | k + 1, e, h => by
    unfold Engine.runPoolFor
    split
    · rename_i e' hs; exact runPoolFor k (h.stepPool hs)
    · exact h

theorem runMainFor : ∀ (k : Nat) {e : Engine}, e.Settled W → (Engine.runMainFor k e).Settled W
  | 0, _, h => h
  | k + 1, e, h => by
    unfold Engine.runMainFor
    split
    · rename_i e' hs; exact runMainFor k (h.stepWorker hs)
    · exact h

theorem runBothFor : ∀ (k : Nat) {e : Engine}, e.Settled W → (Engine.runBothFor k e).Settled W
  | 0, _, h => h
  | k + 1, e, h => by
    unfold Engine.runBothFor
    split
    · rename_i e' hs; exact runBothFor k (h.stepWorker hs)
    · split
      · rename_i e' hs; exact runBothFor k (h.stepPool hs)
      · exact h

end Engine.Settled

end Courier.Dispatch
