import Courier.Proofs.Dispatch.Stepping
import Courier.Dispatch.Partitioned

/-!
# The engine's calls keep the drain ledger

Every call of the engine keeps a settled engine settled: posting, suspending and resuming,
holding and releasing, retargeting, making queues and contexts, starting and stopping, running
groups and the timer. Resuming is the one call that may trigger a queue: the last suspension
lifted from a queue with work posts its drain, unless one is pending.

- `Engine.Settled.suspend`, `Engine.Settled.resume`: suspensions keep the ledger;
- `Engine.Settled.setTarget`: pointing a queue at a queue that exists keeps it;
- `Engine.Settled.release`, `Engine.Settled.closeContext`: the last release posts the disposer;
- `Engine.Settled.start`, `Engine.Settled.stop`, `Engine.Settled.runGroup`,
  `Engine.Settled.dispatchMain`: the calls that run the workers.
-/

set_option autoImplicit false

namespace Courier.Dispatch

open Courier.Queue Courier.Hash

namespace Ledger

variable {n : Nat} {W : List Nat} {R : Running} {extra : List Item} {e : Engine}

/-- A change to a serial queue's suspension count or holds, with its work, flag and target kept,
is a change the ledger allows. -/
theorem keeps (h : Ledger W n R extra e) {id : Nat} {s : Serial} (hs : e.serials[id]? = some s)
    {f : Serial → Serial} (hf : (f s).tasks = s.tasks ∧ (f s).size = s.size ∧
      (f s).triggered = s.triggered ∧ (f s).target = s.target) (hsusp : id ∉ W → 0 ≤ (f s).suspended) :
    Change W n R extra e id s f R extra := by
  obtain ⟨ht, hsz, htr, htg⟩ := hf
  refine ⟨fun x => by simp [ht, Serial.pending, htr], fun _ _ => rfl, fun _ hx _ => hx, h.running,
    by rw [hsz, ht]; exact h.size id s hs, hsusp, by rw [htg]; exact h.target id s hs,
    by rw [htg]; exact h.young id s hs, by rw [ht]; exact h.inner id s hs⟩

/-- A new pool worker, with empty queues, joins. -/
theorem pushWorker (h : Ledger W n R extra e) (name : String) :
    Ledger W n R extra { e with workers := e.workers.push (Worker.create name) } := by
  have hq : (Worker.create name).queued = [] := rfl
  refine h.of_queued (fun x => by simp [Engine.queued, hq]) rfl fun w wk hw => ?_
  cases w with
  | main => exact h.lanes .main wk hw
  | pool i =>
    simp only [Engine.worker?, Array.getElem?_push] at hw
    split at hw
    · obtain rfl := Option.some.inj hw
      intro p; cases p <;> exact Chunked.wf_empty
    · exact h.lanes (.pool i) wk hw

/-- Every pool worker is given its stopping job. -/
theorem pushPills : ∀ (ws : List Nat) {e : Engine}, Ledger W n R extra e →
    Ledger W n R extra (ws.foldl (fun e i => e.pushThread Scope.outside (.pool i) .low ⟨.pill i, none, none⟩) e)
  | [], _, h => h
  | i :: ws, _, h =>
    pushPills ws ((h.cons rfl : Ledger W n R (⟨.pill i, none, none⟩ :: extra) _).pushThread _ _ _)

end Ledger

namespace Engine.Settled

variable {W : List Nat} {e : Engine}

theorem dispatchAsync (h : e.Settled W) (scope : Scope) (q : QueueRef) (t : Task) :
    (e.dispatchAsync scope q t).Settled W :=
  (Ledger.dispatchAsync h scope q t).settled

/-- Suspending a queue keeps the ledger while its count is short of the top, or when the queue
is exempt from the suspension rules. -/
theorem suspend (h : e.Settled W) (id : Nat)
    (hb : id ∈ W ∨ ∀ s, e.serials[id]? = some s → s.suspended ≠ Int32.maxValue) :
    (e.suspend id).Settled W := by
  unfold Engine.suspend
  cases hs : e.serials[id]? with
  | none => rw [e.modifySerial_of_none hs]; exact h
  | some s =>
    have h0 := Ledger.suspension h id s hs
    have hk := h.keeps hs (f := fun s' => { s' with suspended := s'.suspended + 1 }) ⟨rfl, rfl, rfl, rfl⟩
      fun hW => Int32.add_one_nonneg (h0 hW) (hb.resolve_left hW s hs)
    refine (h.modifyRunning hs hk ?_).settled
    -- a queue just suspended has a suspension left, unless its count wrapped round
    intro hW _ _ hz
    exact absurd hz (Int32.add_one_ne_zero_of_nonneg (h0 hW))

/-- A suspension that may wrap the count round keeps the ledger once its queue is exempt from the
suspension rules. -/
theorem suspend_exempt (h : e.Settled W) (id : Nat) : (e.suspend id).Settled (id :: W) := by
  have h' : e.Settled (id :: W) := Ledger.widen h fun _ hx => List.mem_cons_of_mem id hx
  exact h'.suspend id (.inl List.mem_cons_self)

/-- Lifting the last suspension from a queue with work triggers it. -/
theorem resume (h : e.Settled W) (id : Nat) : (e.resume id).2.Settled W := by
  unfold Engine.resume
  cases hs : e.serials[id]? with
  | none => exact h
  | some s =>
    simp only
    split
    · exact h
    · rename_i hn
      have hc := h.keeps hs (f := fun s' => { s' with suspended := s.suspended - 1 }) ⟨rfl, rfl, rfl, rfl⟩
        fun _ => Int32.not_lt.mp hn
      split
      · exact (h.modifyRunning_trigger hs hc Scope.outside).settled
      · rename_i hcond
        refine (h.modifyRunning hs hc fun _ _ hpos hsus => absurd ?_ hcond).settled
        simp only at hpos hsus
        simp [hpos, hsus]

theorem retain (h : e.Settled W) (id : Nat) : (e.retain id).2.Settled W := by
  unfold Engine.retain
  split
  · exact h
  · have h1 := (Ledger.retarget h (r := fun s => { s with refs := s.refs + 1 })
      (fun _ => ⟨rfl, rfl, rfl, rfl, .inl rfl⟩) id).settled
    split <;> exact h1

/-- Dropping the last hold marks the queue let go and posts its disposer, once. -/
theorem release (h : e.Settled W) (id : Nat) : (e.release id).2.Settled W := by
  unfold Engine.release
  split
  · exact h
  · rename_i s _
    have h1 := Ledger.retarget h (r := fun s' => { s' with refs := s.refs - 1 })
      (fun _ => ⟨rfl, rfl, rfl, rfl, .inl rfl⟩) id
    have h2 := h1.retarget (r := fun s => { s with disposed := true, disposer := none })
      (fun _ => ⟨rfl, rfl, rfl, rfl, .inl rfl⟩) id
    simp only
    split
    · exact h1.settled
    · split
      · exact h1.settled
      · split
        · exact (h2.dispatchAsync _ _ _).settled
        · exact h2.settled

theorem setDisposer (h : e.Settled W) (id : Nat) (t : Option Task) : (e.setDisposer id t).Settled W :=
  (Ledger.retarget h (r := fun s => { s with disposer := t }) (fun _ => ⟨rfl, rfl, rfl, rfl, .inl rfl⟩)
    id).settled

/-- Pointing a serial queue at a queue that exists, or at the shared queue of its priority,
keeps the ledger, whatever chains of serial queues it makes. -/
theorem setTarget (h : e.Settled W) (id : Nat) (onto : Option QueueRef)
    (hv : ∀ t, onto = some (.serial t) → t < e.serials.size) : (e.setTarget id onto).2.Settled W := by
  unfold Engine.setTarget
  cases hs : e.serials[id]? with
  | none => exact h
  | some s =>
    simp only
    split
    · exact h
    · have hid : id < e.serials.size := (Array.getElem?_eq_some_iff.mp hs).1
      have htarget : e.validRef (onto.getD (.global s.prio)) := by
        cases onto with
        | none => trivial
        | some q =>
          cases q with
          | serial t => exact hv t rfl
          | _ => trivial
      refine (Ledger.modifySerial h hs _ (fun x => by simp [Serial.pending]) (h.size id s hs)
        (h.idle id s hs) (h.suspension id s hs) htarget (fun hn => absurd hid (by omega))
        (h.inner id s hs)).settled

theorem assignTo (h : e.Settled W) (c w : Nat) : (e.assignTo c w).Settled W :=
  (Ledger.assignTo h c w).settled

theorem requestDispatch (h : e.Settled W) (scope : Scope) (c : Nat) : (e.requestDispatch scope c).Settled W :=
  (Ledger.requestDispatch h scope c).settled

theorem register (h : e.Settled W) (scope : Scope) (label : String) (fn : Option Task)
    (options : QueueOptions) : (e.register scope label fn options).2.Settled W :=
  (Ledger.register h scope label fn options).settled

theorem closeContext (h : e.Settled W) (c : Nat) : (e.closeContext c).2.Settled W := by
  unfold Engine.closeContext
  split
  · exact h
  · split
    · exact h
    · exact ((Ledger.modifyContext h c _).settled.setDisposer _ _).release _

/-- A new serial queue starts idle on the shared queue of its priority. -/
theorem createSerial (h : e.Settled W) (label : String) (prio : Priority) (options : QueueOptions) :
    (e.createSerial label prio options).2.Settled W := by
  have h1 : Ledger W e.serials.size [] [] (e.createSerial label prio options).2 :=
    Ledger.pushSerial h rfl rfl rfl rfl rfl rfl rfl (Int32.le_refl 0)
      (by intro t; exact QueueRef.noConfusion)
  exact h1.settled

theorem createPartitioned (h : e.Settled W) (label : String) (k : Int) (options : QueueOptions) :
    (e.createPartitioned label k options).2.Settled W := by
  unfold Engine.createPartitioned
  split
  · exact h
  · dsimp only
    -- the partitions are named once, from the engine as it was
    generalize (if label.isEmpty then e.freshLabel "partitioned" else label) = name
    generalize (⟨name, Ring.create defaultReplicas, []⟩ : Partitioned) = pq
    generalize List.range k.toNat = is
    induction is generalizing pq e with
    | nil => exact h
    | cons i is ih => exact ih (h.createSerial _ .normal options) _


/-! ## The timer and the runs of the pool -/

/-- The due timer requests are posted, one after the other. -/
theorem fireTimers (h : e.Settled W) : e.fireTimers.Settled W := by
  unfold Engine.fireTimers
  generalize e.timer.advance (e.clock + timerHorizon) = r
  obtain ⟨t, jobs⟩ := r
  have h1 : Engine.Settled W { e with timer := t } := Ledger.of_eq h rfl rfl rfl rfl
  dsimp only
  generalize { e with timer := t } = e1 at h1 ⊢
  induction jobs generalizing e1 with
  | nil => exact h1
  | cons j jobs ih => exact ih _ (Ledger.of_eq (h1.dispatchAsync Scope.outside j.1 j.2) rfl rfl rfl rfl)

theorem runPool (h : e.Settled W) : e.runPool.Settled W := h.fireTimers.runPoolFor _

/-- Shutting down gives every pool worker its stopping job and runs the pool until all have
left. -/
theorem stopAll (h : e.Settled W) : e.stopAll.Settled W := by
  have h1 : Engine.Settled W { e with shutdown := true } := Ledger.of_eq h rfl rfl rfl rfl
  have h2 := (Ledger.pushPills (List.range e.workers.size) h1).settled.runPool
  unfold Engine.stopAll
  dsimp only
  exact Ledger.of_eq h2 rfl rfl rfl rfl

theorem startWorkers : ∀ (k i : Nat) {e : Engine}, e.Settled W → (e.startWorkers i k).2.Settled W
  | 0, _, _, h => h
  | k + 1, i, e, h => by
    have h1 := (Ledger.pushWorker h (e.workerName (.pool i))).settled
    unfold Engine.startWorkers
    dsimp only
    split
    · exact (Ledger.modifyWorker h1 (.pool i) (f := fun wk => { wk with status := .terminated })
        fun _ => rfl).settled.stopAll
    · exact startWorkers k (i + 1) (Ledger.of_eq h1 rfl rfl rfl rfl)

theorem start (h : e.Settled W) : e.start.2.Settled W := by
  unfold Engine.start
  split
  · exact h
  · split
    · exact h
    · exact startWorkers _ 0 (Ledger.of_eq h rfl rfl rfl rfl)

theorem stop (h : e.Settled W) : e.stop.2.Settled W := by
  unfold Engine.stop
  split
  · exact h
  · exact h.stopAll

/-- A group of tasks is posted, and the pool runs until it is idle. -/
theorem runGroup (h : e.Settled W) (scope : Scope) (q : QueueRef) (k : Nat) (task : Nat → Nat → Task) :
    (e.runGroup scope q k task).2.Settled W := by
  unfold Engine.runGroup
  split
  · exact h
  · have h1 : (e.openWait k).2.Settled W := Ledger.of_eq h rfl rfl rfl rfl
    dsimp only
    generalize (e.openWait k).1 = slot
    generalize (e.openWait k).2 = e1 at h1 ⊢
    have h2 : ((List.range k).foldl (fun e i => e.post scope q ⟨.member slot (task slot i), none, none⟩)
        e1).Settled W := by
      generalize List.range k = is
      induction is generalizing e1 with
      | nil => exact h1
      | cons i is ih =>
        apply ih
        have h3 : Ledger W e1.serials.size [] [⟨.member slot (task slot i), none, none⟩] e1 := h1.cons rfl
        exact (h3.post (fun _ hx => by simp at hx) scope).settled
    have h4 := h2.runPool
    split <;> exact h4

theorem dispatchAfter (h : e.Settled W) (q : QueueRef) (t : Task) (delay : Int) :
    (e.dispatchAfter q t delay).2.Settled W := by
  unfold Engine.dispatchAfter
  split
  · exact Ledger.of_eq h rfl rfl rfl rfl
  · exact h

theorem schedule (h : e.Settled W) (scope : Scope) (t : Task) (delay : Int) :
    (e.schedule scope t delay).2.Settled W := by
  have h1 := (Ledger.chooseWorker h scope).settled
  unfold Engine.schedule
  generalize e.chooseWorker scope = r at h1 ⊢
  obtain ⟨o, e1⟩ := r
  cases o with
  | error f => exact h1
  | ok w =>
    dsimp only
    split
    · exact h1.dispatchAsync _ _ _
    · split
      · exact Ledger.of_eq h1 rfl rfl rfl rfl
      · exact h1

/-- The caller's thread serves the main worker, and the pool runs, until neither has work. -/
theorem dispatchMain (h : e.Settled W) (slot : Nat) : (e.dispatchMain slot).2.Settled W := by
  unfold Engine.dispatchMain
  split
  · exact h
  · dsimp only
    have h1 := h.fireTimers.runBothFor stepBudget
    split <;> exact h1

theorem newCell (h : e.Settled W) : e.newCell.2.Settled W := Ledger.of_eq h rfl rfl rfl rfl

theorem openWait (h : e.Settled W) (k : Nat) : (e.openWait k).2.Settled W := Ledger.of_eq h rfl rfl rfl rfl

end Engine.Settled

end Courier.Dispatch
