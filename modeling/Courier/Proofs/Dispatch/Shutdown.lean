import Courier.Proofs.Dispatch.Conservation
import Courier.Proofs.Dispatch.TimerLifecycle

/-!
# Delayed work after a shutdown

Shutting the engine down stops its timer, and nothing the engine does afterwards starts it
again: its workers' steps, its calls and its fatal failures leave the shutdown flag alone and the
timer as stopped as it was, and a later start or shutdown is refused. So along every run, once
the engine is shut down, a task handed over for a queue after a delay is refused by the timer as
stopped, named by the queue, and changes nothing; it is not refused as rejected, as a task
scheduled on a worker is.

- `Engine.Keeps`: a change that leaves the shutdown flag alone and the timer as stopped as it
  was, with one lemma per function of the engine;
- `Engine.Sealed`, `Engine.Run.sealed`: a shut-down engine has a stopped timer, along every run;
- `Engine.Run.delayed_after_shutdown`: what delayed work gets once the engine is shut down.
-/

set_option autoImplicit false

namespace Courier.Dispatch

namespace Timer

variable {α : Type}

/-- An iteration of the loop neither stops the timer nor lifts its stop. -/
theorem stopped_loop (t : Timer α) (horizon : Int) : (t.loop horizon).1.stopped = t.stopped := by
  simpa [apply, TimerOp.isShutdown] using (flags_apply t (.loop horizon)).2

theorem stopped_advance (t : Timer α) (horizon : Int) :
    (t.advance horizon).1.stopped = t.stopped := by
  have h := stopped_loop t horizon
  unfold advance
  generalize t.loop horizon = r at h
  obtain ⟨t', effects⟩ := r
  exact h

/-- A request the timer takes leaves it as stopped as it was. -/
theorem stopped_of_addAfter {t t' : Timer α} {now delay : Int} {job : Option α}
    (h : t.addAfter now delay job = .ok t') : t'.stopped = t.stopped := by
  simpa [apply, h, TimerOp.isShutdown] using (flags_apply t (.addAfter now delay job)).2

/-- An accepted shutdown stops the timer. -/
theorem stopped_of_shutdown {t t' : Timer α} {n : Bool} (h : t.shutdown n = .ok t') :
    t'.stopped = true := by
  cases hs : t.stopped
  · cases hst : t.started <;> simp [shutdown, shutdownWith, hs, hst, Except.map] at h <;> rw [← h]
  · simp [shutdown, shutdownWith, hs, Except.map] at h

/-- A refused shutdown finds the timer stopped. -/
theorem stopped_of_shutdown_error {t : Timer α} {n : Bool} {err : TimerError}
    (h : t.shutdown n = .error err) : t.stopped = true := by
  cases hs : t.stopped
  · cases hst : t.started <;> simp [shutdown, shutdownWith, hs, hst, Except.map] at h
  · rfl

end Timer

namespace Engine

/-- A change of the engine that leaves its shutdown flag alone, and its timer stopped exactly
when it was. -/
structure Keeps (e e' : Engine) : Prop where
  shutdown : e'.shutdown = e.shutdown
  stopped : e'.timer.stopped = e.timer.stopped

namespace Keeps

theorem refl (e : Engine) : Keeps e e := ⟨rfl, rfl⟩

theorem trans {e₁ e₂ e₃ : Engine} (h₁ : Keeps e₁ e₂) (h₂ : Keeps e₂ e₃) : Keeps e₁ e₃ :=
  ⟨h₂.shutdown.trans h₁.shutdown, h₂.stopped.trans h₁.stopped⟩

/-- A change the flag and the timer do not see, then one that keeps them. -/
theorem frame {e₁ e₂ e₃ : Engine} (h : Keeps e₂ e₃) (hs : e₂.shutdown = e₁.shutdown)
    (ht : e₂.timer = e₁.timer) : Keeps e₁ e₃ :=
  (⟨hs, congrArg Timer.stopped ht⟩ : Keeps e₁ e₂).trans h

theorem foldl {α : Type} {g : Engine → α → Engine} (hg : ∀ e a, Keeps e (g e a)) :
    ∀ (l : List α) (e : Engine), Keeps e (l.foldl g e)
  | [], e => refl e
  | a :: l, e => (hg e a).trans (foldl hg l (g e a))

/-! ## Posting -/

theorem modifyWorker (e : Engine) (w : WorkerId) (f : Worker → Worker) :
    Keeps e (e.modifyWorker w f) := by
  cases w <;> exact ⟨rfl, rfl⟩

theorem pushThread (e : Engine) (scope : Scope) (w : WorkerId) (p : Priority) (it : Item) :
    Keeps e (e.pushThread scope w p it) := by
  unfold Engine.pushThread
  split
  · exact ⟨rfl, rfl⟩
  · split <;> exact modifyWorker _ _ _

theorem followCaller (e : Engine) (scope : Scope) (id : Nat) : Keeps e (e.followCaller scope id) := by
  unfold Engine.followCaller
  split
  · split
    · exact ⟨rfl, rfl⟩
    · exact refl e
  · exact refl e

theorem triggerWith {post : Engine → Scope → QueueRef → Item → Engine}
    (hpost : ∀ e scope q it, Keeps e (post e scope q it)) (e : Engine) (scope : Scope) (id : Nat) :
    Keeps e (e.triggerWith post scope id) := by
  unfold Engine.triggerWith
  split
  · split
    · exact refl e
    · exact (hpost _ _ _ _).frame rfl rfl
  · exact refl e

theorem postWithin : ∀ (hops : Nat) (e : Engine) (scope : Scope) (q : QueueRef) (it : Item),
    Keeps e (e.postWithin hops scope q it)
  | hops, e, _, .global p, it => by cases hops <;> exact ⟨rfl, rfl⟩
  | hops, e, scope, .thread w p, it => by cases hops <;> exact pushThread e scope w p it
  | 0, e, _, .serial _, _ => refl e
  | hops + 1, e, scope, .serial id, it => by
    simp only [Engine.postWithin]
    cases e.serials[id]? with
    | none => exact refl e
    | some s =>
      dsimp only
      -- the queue may first follow its caller; then the item joins it
      have hf : Keeps e (if s.options.stickToCaller then e.followCaller scope id else e) := by
        split
        · exact followCaller e scope id
        · exact refl e
      split
      · exact hf.trans ((triggerWith (postWithin hops) _ scope id).frame rfl rfl)
      · exact hf.trans ⟨rfl, rfl⟩

theorem post (e : Engine) (scope : Scope) (q : QueueRef) (it : Item) : Keeps e (e.post scope q it) :=
  postWithin _ e scope q it

theorem dispatchAsync (e : Engine) (scope : Scope) (q : QueueRef) (t : Task) :
    Keeps e (e.dispatchAsync scope q t) :=
  postWithin _ e scope q _

theorem trigger (e : Engine) (scope : Scope) (id : Nat) : Keeps e (e.trigger scope id) :=
  triggerWith (postWithin _) e scope id

theorem requestDispatch (e : Engine) (scope : Scope) (c : Nat) :
    Keeps e (e.requestDispatch scope c) := by
  unfold Engine.requestDispatch
  split
  · split
    · split
      · exact refl e
      · exact (dispatchAsync _ _ _ _).frame rfl rfl
    · exact refl e
  · exact refl e

theorem chooseWorker (e : Engine) (scope : Scope) : Keeps e (e.chooseWorker scope).2 := by
  rcases e.chooseWorker_snd scope with he | he <;> rw [he]
  · exact refl e
  · exact ⟨rfl, rfl⟩

theorem register (e : Engine) (scope : Scope) (label : String) (fn : Option Task)
    (options : QueueOptions) : Keeps e (e.register scope label fn options).2 := by
  have hc := chooseWorker e scope
  unfold Engine.register
  dsimp only
  generalize e.chooseWorker scope = r at hc
  obtain ⟨w, e₁⟩ := r
  cases w with
  | error f => exact hc
  | ok w => exact hc.trans ⟨rfl, rfl⟩

theorem assignTo (e : Engine) (c w : Nat) : Keeps e (e.assignTo c w) := by
  unfold Engine.assignTo
  split
  · split
    · exact refl e
    · exact ⟨rfl, rfl⟩
  · exact refl e

/-! ## Running items -/

theorem perform (scope : Scope) : ∀ (t : Task) (e : Engine), Keeps e (e.perform scope t).1
  | .seq a b, e => by
    have ha := perform scope a e
    simp only [Engine.perform]
    cases hr : e.perform scope a with
    | mk e₁ o =>
      rw [hr] at ha
      cases o with
      | some m => exact ha
      | none => exact ha.trans (perform scope b e₁)
  | .request c, e => requestDispatch e scope c
  | .post q t, e => dispatchAsync e scope q t
  | .register slot label fn opts, e => by
    have h := register e scope label fn opts
    simp only [Engine.perform]
    generalize e.register scope label fn opts = r at h
    obtain ⟨_, e₁⟩ := r
    exact h.trans ⟨rfl, rfl⟩
  | .noop, e | .fail _, e | .log _ _, e | .add _ _, e | .probe _, e | .cancel _, e
  | .closeTracker _, e | .clearPending _, e => ⟨rfl, rfl⟩

theorem execute (e : Engine) (scope : Scope) (it : Item) : Keeps e (e.execute scope it) := by
  unfold Engine.execute
  cases it.job with
  | task t =>
    have h := perform scope t e
    dsimp only
    cases hr : e.perform scope t with
    | mk e₁ o =>
      rw [hr] at h
      cases o with
      | some m => exact h.trans ⟨rfl, rfl⟩
      | none => exact h
  | member slot t =>
    have h := perform scope t e
    dsimp only
    generalize e.perform scope t = r at h ⊢
    obtain ⟨e₁, o⟩ := r
    exact h.trans ⟨rfl, rfl⟩
  | drain _ | pill _ => exact refl e

theorem observe (e : Engine) (c : Nat) (it : Item) : Keeps e (e.observe c it) := by
  unfold Engine.observe
  split
  · exact refl e
  · rename_i ctx _
    dsimp only
    generalize ctx.tracker.observe e.balancer.running (some ctx.owner) it.caller it.callerCtx = r
    obtain ⟨t, target⟩ := r
    have h1 : Keeps e (e.modifyContext c fun ctx => { ctx with tracker := t }) := ⟨rfl, rfl⟩
    cases target with
    | some w =>
      -- the balancer moves the context to another worker
      dsimp only
      exact (h1.trans (assignTo _ c w)).trans ⟨rfl, rfl⟩
    | none => exact h1

theorem drainItems {run : Scope → Item → Engine → Engine}
    (hrun : ∀ scope it e, Keeps e (run scope it e)) (qscope : Scope) (id : Nat) :
    ∀ (n : Nat) (e : Engine) (done : Nat), Keeps e (Engine.drainItems run qscope id n e done).1
  | 0, e, _ => refl e
  | n + 1, e, done => by
    unfold Engine.drainItems
    cases e.serials[id]? with
    | none => exact refl e
    | some s =>
      dsimp only
      split
      · exact refl e
      · cases s.tasks.pop with
        | mk o rest =>
          cases o with
          | none => exact refl e
          | some it =>
            dsimp only
            have h0 : Keeps e (e.modifySerial id fun s => { s with tasks := rest }) := ⟨rfl, rfl⟩
            refine h0.trans (Keeps.trans ?_ (drainItems hrun qscope id n _ _))
            split
            · exact hrun _ _ _
            · -- an item of a context's queue is shown to the balancer first
              cases s.pooled with
              | none => exact execute _ _ _
              | some c => exact (observe _ c it).trans (execute _ _ _)

theorem drainBound {run : Scope → Item → Engine → Engine}
    (hrun : ∀ scope it e, Keeps e (run scope it e)) (e : Engine) (scope : Scope) (id : Nat)
    (s : Serial) : Keeps e (e.drainBound run scope id s) := by
  have h0 := drainItems hrun { scope with queue := some (.serial id), pooled := s.pooled <|> scope.pooled }
    id s.size.toNat e 0
  unfold Engine.drainBound
  dsimp only
  generalize Engine.drainItems run { scope with queue := some (.serial id), pooled := s.pooled <|> scope.pooled }
    id s.size.toNat e 0 = r at h0 ⊢
  obtain ⟨e₁, done⟩ := r
  have h1 : Keeps e (e₁.modifySerial id fun s => { s with size := s.size - done, triggered := false }) :=
    h0.trans ⟨rfl, rfl⟩
  dsimp only
  generalize e₁.modifySerial id (fun s => { s with size := s.size - done, triggered := false }) = e₂ at h1 ⊢
  cases e₂.serials[id]? with
  | none => exact h1
  | some s' =>
    dsimp only
    split
    · exact h1.trans (trigger _ _ _)
    · exact h1

theorem pinTo (e : Engine) (scope : Scope) (id : Nat) (s : Serial) : Keeps e (e.pinTo scope id s) := by
  unfold Engine.pinTo
  split
  · split
    · exact ⟨rfl, rfl⟩
    · exact refl e
  · exact refl e

theorem drainWith {run : Scope → Item → Engine → Engine}
    (hrun : ∀ scope it e, Keeps e (run scope it e)) (e : Engine) (scope : Scope) (id : Nat) :
    Keeps e (e.drainWith run scope id) := by
  rw [Engine.drainWith_eq]
  cases e.serials[id]? with
  | none => exact refl e
  | some s => exact (pinTo e scope id s).trans (drainBound hrun _ scope id s)

theorem runJob : ∀ (fuel : Nat) (scope : Scope) (it : Item) (e : Engine),
    Keeps e (Engine.runJob fuel scope it e)
  | 0, _, _, e => refl e
  | fuel + 1, scope, it, e => by
    unfold Engine.runJob
    cases it.job with
    | drain id => exact drainWith (runJob fuel) e scope id
    | pill w =>
      dsimp only
      split
      · exact modifyWorker _ _ _
      · exact refl e
    | task _ | member _ _ => exact execute e scope it

/-! ## Workers taking and leaving -/

theorem takeAt {e e' : Engine} {w : WorkerId} {p : Priority} {scope : Scope} {it : Item}
    (h : e.takeAt w p = some (scope, it, e')) : Keeps e e' := by
  unfold Engine.takeAt at h
  split at h
  · cases h
  · split at h
    · simp only [Option.some.injEq, Prod.mk.injEq] at h
      obtain ⟨-, -, rfl⟩ := h
      exact modifyWorker _ _ _
    · split at h
      · cases h
      · split at h
        · simp only [Option.some.injEq, Prod.mk.injEq] at h
          obtain ⟨-, -, rfl⟩ := h
          exact ⟨rfl, rfl⟩
        · cases h

theorem nextItem {e e' : Engine} {w : WorkerId} {scope : Scope} {it : Item}
    (h : e.nextItem w = some (scope, it, e')) : Keeps e e' := by
  obtain ⟨p, hp⟩ := Engine.nextItem_eq_some h
  exact takeAt hp

theorem handOver (e : Engine) (w : WorkerId) : Keeps e (e.handOver w) := by
  rw [Engine.handOver_eq]
  refine foldl (fun e p => ?_) _ e
  unfold Engine.handOverAt
  split
  · dsimp only
    exact (modifyWorker _ _ _).trans
      (foldl (fun e it => (⟨rfl, rfl⟩ : Keeps e (e.pushGlobal p it))) _ _)
  · exact refl e

theorem adoptOrphans (e : Engine) (i : Nat) : Keeps e (e.adoptOrphans i) :=
  Engine.adoptOrphans_induction (P := Keeps e) i (refl e) ⟨rfl, rfl⟩
    fun _ c w h => h.trans (assignTo _ c w)

theorem exitWorker (e : Engine) (i : Nat) : Keeps e (e.exitWorker i) := by
  unfold Engine.exitWorker
  dsimp only
  have h1 := (modifyWorker e (.pool i) fun wk => { wk with status := .terminated }).trans
    (handOver _ (.pool i))
  generalize (e.modifyWorker (.pool i) fun wk => { wk with status := .terminated }).handOver
    (.pool i) = e₁ at h1 ⊢
  -- while the engine runs on, the worker's contexts are adopted
  have h3 : ∀ e₂ : Engine, Keeps e e₂ → Keeps e (if e₂.shutdown then e₂ else e₂.adoptOrphans i) := by
    intro e₂ h2
    split
    · exact h2
    · exact h2.trans (adoptOrphans e₂ i)
  exact (h3 { e₁ with live := e₁.live.erase i } (h1.trans ⟨rfl, rfl⟩)).trans ⟨rfl, rfl⟩

theorem stepWorker {e e' : Engine} {w : WorkerId} (h : e.stepWorker w = some e') : Keeps e e' := by
  unfold Engine.stepWorker at h
  cases hn : e.nextItem w with
  | none => simp [hn] at h
  | some r =>
    obtain ⟨scope, it, e₁⟩ := r
    simp only [hn] at h
    have h1 := (nextItem hn).trans (runJob e₁.nestingDepth scope it e₁)
    cases w with
    | main => obtain rfl := Option.some.inj h; exact h1
    | pool i =>
      dsimp only at h
      split at h
      · obtain rfl := Option.some.inj h
        split
        · exact h1.trans (exitWorker _ i)
        · exact h1
      · obtain rfl := Option.some.inj h; exact h1

theorem findStep {e e' : Engine} (h : (e.live.findSome? fun i => e.stepWorker (.pool i)) = some e') :
    Keeps e e' := by
  obtain ⟨i, -, hi⟩ := List.exists_of_findSome?_eq_some h
  exact stepWorker hi

/-! ## Running the pool and the timer -/

theorem runPoolFor : ∀ (k : Nat) (e : Engine), Keeps e (Engine.runPoolFor k e)
  | 0, e => refl e
  | k + 1, e => by
    unfold Engine.runPoolFor
    cases hr : e.live.findSome? fun i => e.stepWorker (.pool i) with
    | none => exact refl e
    | some e' => exact (findStep hr).trans (runPoolFor k e')

/-- Firing the due requests runs the timer's loop, which leaves it as stopped as it was, and
posts their tasks. -/
theorem fireTimers (e : Engine) : Keeps e e.fireTimers := by
  unfold Engine.fireTimers
  have ht := Timer.stopped_advance e.timer (e.clock + Engine.timerHorizon)
  generalize e.timer.advance (e.clock + Engine.timerHorizon) = tj at ht
  obtain ⟨t, jobs⟩ := tj
  have h0 : Keeps e { e with timer := t } := ⟨rfl, ht⟩
  refine h0.trans (foldl (fun e j => ?_) jobs _)
  obtain ⟨q, task⟩ := j
  exact (dispatchAsync e Scope.outside q task).trans ⟨rfl, rfl⟩

theorem runPool (e : Engine) : Keeps e e.runPool :=
  (fireTimers e).trans (runPoolFor _ _)

theorem runBothFor : ∀ (k : Nat) (e : Engine), Keeps e (Engine.runBothFor k e)
  | 0, e => refl e
  | k + 1, e => by
    unfold Engine.runBothFor
    cases hm : e.stepWorker .main with
    | some e' => exact (stepWorker hm).trans (runBothFor k e')
    | none =>
      dsimp only
      cases hr : e.live.findSome? fun i => e.stepWorker (.pool i) with
      | none => exact refl e
      | some e' => exact (findStep hr).trans (runBothFor k e')

/-! ## The calls that leave the shutdown alone -/

theorem runGroup (e : Engine) (scope : Scope) (q : QueueRef) (n : Nat) (task : Nat → Nat → Task) :
    Keeps e (e.runGroup scope q n task).2 := by
  unfold Engine.runGroup
  cases e.accepting with
  | error f => exact refl e
  | ok u =>
    cases u
    have hw : Keeps e (e.openWait n).2 := ⟨rfl, rfl⟩
    dsimp only
    generalize e.openWait n = se at hw
    obtain ⟨slot, e₁⟩ := se
    dsimp only
    -- the members are posted one after the other, then the pool runs
    refine hw.trans ((foldl (fun e' i => post e' scope q ⟨.member slot (task slot i), none, none⟩)
      (List.range n) e₁).trans ?_)
    split <;> exact runPool _

theorem dispatchMain (e : Engine) (slot : Nat) : Keeps e (e.dispatchMain slot).2 := by
  unfold Engine.dispatchMain
  split
  · exact refl e
  · dsimp only
    have h := (fireTimers e).trans (runBothFor Engine.stepBudget e.fireTimers)
    split
    · exact h
    · exact h

theorem resume (e : Engine) (id : Nat) : Keeps e (e.resume id).2 := by
  unfold Engine.resume
  split
  · exact refl e
  · dsimp only
    split
    · exact refl e
    · split
      · exact (trigger _ _ _).frame rfl rfl
      · exact ⟨rfl, rfl⟩

theorem retain (e : Engine) (id : Nat) : Keeps e (e.retain id).2 := by
  unfold Engine.retain
  split
  · exact refl e
  · dsimp only
    split <;> exact ⟨rfl, rfl⟩

theorem release (e : Engine) (id : Nat) : Keeps e (e.release id).2 := by
  unfold Engine.release
  split
  · exact refl e
  · dsimp only
    split
    · exact ⟨rfl, rfl⟩
    · split
      · exact ⟨rfl, rfl⟩
      · split
        · exact (dispatchAsync _ _ _ _).frame rfl rfl
        · exact ⟨rfl, rfl⟩

theorem setTarget (e : Engine) (id : Nat) (onto : Option QueueRef) :
    Keeps e (e.setTarget id onto).2 := by
  unfold Engine.setTarget
  split
  · exact refl e
  · dsimp only
    split
    · exact refl e
    · exact ⟨rfl, rfl⟩

theorem closeContext (e : Engine) (c : Nat) : Keeps e (e.closeContext c).2 := by
  unfold Engine.closeContext
  split
  · exact refl e
  · dsimp only
    split
    · exact refl e
    · exact (release _ _).frame rfl rfl

theorem createPartitioned (e : Engine) (label : String) (k : Int) (options : QueueOptions) :
    Keeps e (e.createPartitioned label k options).2 := by
  unfold Engine.createPartitioned
  split
  · exact refl e
  · dsimp only
    -- every partition is a new serial queue, which the flag and the timer do not see
    generalize (if label.isEmpty then e.freshLabel "partitioned" else label) = name
    generalize (⟨name, Courier.Hash.Ring.create Courier.Hash.defaultReplicas, []⟩ : Partitioned) = pq
    generalize List.range k.toNat = is
    induction is generalizing pq e with
    | nil => exact refl e
    | cons i is ih =>
      have h0 : Keeps e (e.createSerial (name ++ "-" ++ toString i) .normal options).2 := ⟨rfl, rfl⟩
      exact h0.trans (ih _ _)

theorem schedule (e : Engine) (scope : Scope) (t : Task) (delay : Int) :
    Keeps e (e.schedule scope t delay).2 := by
  have hc := chooseWorker e scope
  unfold Engine.schedule
  generalize e.chooseWorker scope = r at hc
  obtain ⟨w, e₁⟩ := r
  cases w with
  | error f => exact hc
  | ok w =>
    dsimp only
    split
    · exact hc.trans (dispatchAsync _ _ _ _)
    · split
      · rename_i t' ht
        exact hc.trans ⟨rfl, Timer.stopped_of_addAfter ht⟩
      · exact hc

theorem dispatchAfter (e : Engine) (q : QueueRef) (t : Task) (delay : Int) :
    Keeps e (e.dispatchAfter q t delay).2 := by
  unfold Engine.dispatchAfter
  split
  · rename_i t' ht
    exact ⟨rfl, Timer.stopped_of_addAfter ht⟩
  · exact refl e

end Keeps

/-! ## A shut-down engine has a stopped timer -/

/-- Once the engine is shut down, its timer is stopped. -/
def Sealed (e : Engine) : Prop := e.shutdown = true → e.timer.stopped = true

theorem Keeps.sealed {e e' : Engine} (h : Keeps e e') (hs : e.Sealed) : e'.Sealed := fun h' => by
  rw [h.stopped]
  exact hs (h.shutdown ▸ h')

/-- Stopping all workers ends with a shutdown of the timer: accepted, or refused because the
timer was already stopped. -/
theorem timer_stopped_stopAll (e : Engine) : e.stopAll.timer.stopped = true := by
  unfold Engine.stopAll
  dsimp only
  rw [Timer.stopped_advance]
  split
  · rename_i t ht
    exact Timer.stopped_of_shutdown ht
  · rename_i err ht
    exact Timer.stopped_of_shutdown_error ht

theorem sealed_stopAll (e : Engine) : e.stopAll.Sealed := fun _ => timer_stopped_stopAll e

/-- Starting workers keeps the engine sealed: each new worker leaves the flag and the timer
alone, and a worker failing to start stops them all. -/
theorem Sealed.startWorkers : ∀ (n : Nat) (e : Engine) (i : Nat), e.Sealed → (e.startWorkers i n).2.Sealed
  | 0, e, _, h => h
  | n + 1, e, i, h => by
    unfold Engine.startWorkers
    dsimp only
    split
    · exact sealed_stopAll _
    · exact Sealed.startWorkers n _ (i + 1) (Keeps.sealed ⟨rfl, rfl⟩ h)

theorem Sealed.start {e : Engine} (h : e.Sealed) : e.start.2.Sealed := by
  unfold Engine.start
  split
  · exact h
  · split
    · exact h
    · exact Sealed.startWorkers _ _ 0 (Keeps.sealed ⟨rfl, rfl⟩ h)

theorem Sealed.stop {e : Engine} (h : e.Sealed) : e.stop.2.Sealed := by
  unfold Engine.stop
  split
  · exact h
  · exact sealed_stopAll e

/-- Every move of the engine keeps it sealed. -/
theorem Act.sealed {e e' : Engine} {F : List Flow} (a : Act e F e') (h : e.Sealed) : e'.Sealed := by
  cases a with
  | dispatchAsync scope q t => exact (Keeps.dispatchAsync e scope q t).sealed h
  | step w hs => exact (Keeps.stepWorker hs).sealed h
  | fail hn => exact ((Keeps.nextItem hn).trans (Keeps.exitWorker _ _)).sealed h
  | suspend id => exact Keeps.sealed ⟨rfl, rfl⟩ h
  | resume id => exact (Keeps.resume e id).sealed h
  | retain id => exact (Keeps.retain e id).sealed h
  | release id => exact (Keeps.release e id).sealed h
  | setDisposer id t => exact Keeps.sealed ⟨rfl, rfl⟩ h
  | setTarget id onto => exact (Keeps.setTarget e id onto).sealed h
  | assignTo c w => exact (Keeps.assignTo e c w).sealed h
  | createSerial label prio options => exact Keeps.sealed ⟨rfl, rfl⟩ h
  | createPartitioned label k options => exact (Keeps.createPartitioned e label k options).sealed h
  | register scope label fn options => exact (Keeps.register e scope label fn options).sealed h
  | requestDispatch scope c => exact (Keeps.requestDispatch e scope c).sealed h
  | closeContext c => exact (Keeps.closeContext e c).sealed h
  | start => exact h.start
  | stop => exact h.stop
  | runGroup scope q k task => exact (Keeps.runGroup e scope q k task).sealed h
  | dispatchAfter q t delay => exact (Keeps.dispatchAfter e q t delay).sealed h
  | schedule scope t delay => exact (Keeps.schedule e scope t delay).sealed h
  | runPool => exact (Keeps.runPool e).sealed h
  | dispatchMain slot => exact (Keeps.dispatchMain e slot).sealed h
  | newCell => exact Keeps.sealed ⟨rfl, rfl⟩ h
  | openWait k => exact Keeps.sealed ⟨rfl, rfl⟩ h

/-- Along every run the engine is sealed: it is made running, and every move keeps it so. -/
theorem Run.sealed {e : Engine} {F : List Flow} (h : Run e F) : e.Sealed := by
  induction h with
  | create s cpus b failAt tag clock hc =>
    intro hs
    unfold Engine.create at hc
    cases hv : s.validate with
    | error f => simp [hv] at hc
    | ok u =>
      simp only [hv] at hc
      obtain rfl := Except.ok.inj hc
      cases hs
  | act _ a ih => exact a.sealed ih

/-! ## Delayed work once shut down -/

/-- A task handed to a stopped timer for a queue is refused as stopped, named by the queue, and
the engine is left as it was. -/
theorem dispatchAfter_of_stopped {e : Engine} (h : e.timer.stopped = true) (q : QueueRef) (t : Task)
    (delay : Int) : e.dispatchAfter q t delay = (.error (.scheduleFailed (e.queueLabel q) .stopped), e) := by
  simp [Engine.dispatchAfter, Timer.addAfter, Timer.addAt, h]

/-- Delayed work once the engine is shut down. Along every run of the engine, whatever its calls,
its workers' steps and fatal failures, once it is shut down a task handed over for a queue after
a delay is refused because the timer is stopped, with the queue's label, and not as rejected;
the engine is left as it was. A task scheduled on a worker, with or without a delay, is refused
as rejected instead, and leaves the engine as it was too. -/
theorem Run.delayed_after_shutdown {e : Engine} {F : List Flow} (h : Run e F)
    (hs : e.shutdown = true) (q : QueueRef) (scope : Scope) (t : Task) (delay : Int) :
    e.dispatchAfter q t delay = (.error (.scheduleFailed (e.queueLabel q) .stopped), e) ∧
      e.schedule scope t delay = (.error .rejected, e) := by
  refine ⟨dispatchAfter_of_stopped (h.sealed hs) q t delay, ?_⟩
  simp [Engine.schedule, Engine.chooseWorker, hs]

end Engine

end Courier.Dispatch
