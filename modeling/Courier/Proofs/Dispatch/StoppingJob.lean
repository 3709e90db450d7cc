import Courier.Proofs.Dispatch.Conservation

/-!
# The stopping job runs after the work ahead of it

A shutdown gives every pool worker a stopping job: an item of the engine's own, posted from
outside to the worker's low queue, so that it joins the worker's low shared list behind
everything waiting there. A worker takes work most urgent priority first, and at each priority
its local list, then its shared list, then the shared queue of the priority. So when a worker
takes an item off its low shared list, everything it looks at before is empty: its high and
normal queues, the high and normal shared queues, and its low local list. And the low shared
list is a queue: items join it only at its end, and only its worker takes items from its front.
Along every run, then, whatever waits ahead of the stopping job has been taken and run by the
worker before the job itself. A stopping job run by another worker, as happens to one handed to
a shared queue by a worker that left, changes nothing.

- `Engine.lowShared`, `Engine.Gone`: a pool worker's low shared list, and whether it has left;
- `Engine.Grows`, `Engine.Appends`: changes that touch the low shared lists only by adding items
  at their ends, with one lemma per function of the engine;
- `Engine.Turn`, `Engine.Turns`: the runs of the engine one worker step at a time, and
  `Engine.Act.turnsTo`: every move of the engine is such a run;
- `Engine.nextItem_off_lowShared`: what a worker has found empty when it takes an item off its
  low shared list;
- `Engine.Turn.tracks`, `Engine.Turns.fifo`: what one turn and a whole run do to a low shared list;
- `Engine.stopping_job_runs_last`: the stopping job of a worker runs after everything ahead of it.
-/

set_option autoImplicit false

namespace Courier.Dispatch

open Courier.Queue

namespace Engine

/-! ## A pool worker's low shared list -/

/-- The low shared list of pool worker `i`: the items posted to its low queue from elsewhere,
oldest first. None for a worker the engine lacks. -/
def lowShared (e : Engine) (i : Nat) : List Item :=
  (e.workers[i]?.map fun wk => (wk.lanes.get .low).others.toList).getD []

/-- The status of pool worker `i`, if the engine has it. -/
def status? (e : Engine) (i : Nat) : Option WorkerStatus := e.workers[i]?.map Worker.status

/-- Pool worker `i` has left. -/
def Gone (e : Engine) (i : Nat) : Prop := e.status? i = some .terminated

/-- Pool worker `i` has left, or ran its stopping job and leaves after the current item. -/
def Leaving (e : Engine) (i : Nat) : Prop :=
  e.status? i = some .terminated ∨ e.status? i = some .stopping

theorem lowShared_of_workers {e e' : Engine} (h : e'.workers = e.workers) (i : Nat) :
    e'.lowShared i = e.lowShared i := by
  simp only [lowShared, h]

theorem status?_of_workers {e e' : Engine} (h : e'.workers = e.workers) (i : Nat) :
    e'.status? i = e.status? i := by
  simp only [status?, h]

theorem lowShared_modifyWorker (e : Engine) (j : Nat) (f : Worker → Worker) (i : Nat) :
    (e.modifyWorker (.pool j) f).lowShared i =
      if j = i then (e.workers[i]?.map fun wk => ((f wk).lanes.get .low).others.toList).getD []
      else e.lowShared i := by
  simp only [lowShared, modifyWorker, Array.getElem?_modify]
  split <;> simp [Function.comp_def]

theorem status?_modifyWorker (e : Engine) (j : Nat) (f : Worker → Worker) (i : Nat) :
    (e.modifyWorker (.pool j) f).status? i =
      if j = i then e.workers[i]?.map fun wk => (f wk).status else e.status? i := by
  simp only [status?, modifyWorker, Array.getElem?_modify]
  split <;> simp [Function.comp_def]

theorem lowShared_of_some {e : Engine} {i : Nat} {wk : Worker} (h : e.workers[i]? = some wk) :
    e.lowShared i = (wk.lanes.get .low).others.toList := by
  simp [lowShared, h]

theorem status?_of_some {e : Engine} {i : Nat} {wk : Worker} (h : e.workers[i]? = some wk) :
    e.status? i = some wk.status := by
  simp [status?, h]

/-! ## Changes that only add to the low shared lists -/

/-- A change that keeps every pool worker's status and touches the low shared lists only by
adding items at their ends: none to a worker that has left, nor to `k`, the worker it runs on,
whose own posts go to its local lists. -/
def Grows (k : Option Nat) (e e' : Engine) : Prop :=
  ∀ i, e'.status? i = e.status? i ∧
    ∃ xs, e'.lowShared i = e.lowShared i ++ xs ∧ (k = some i ∨ e.Gone i → xs = [])

namespace Grows

variable {k : Option Nat} {e e' e₁ e₂ : Engine}

theorem refl (e : Engine) : Grows k e e := fun _ => ⟨rfl, [], by simp, fun _ => rfl⟩

theorem trans (h₁ : Grows k e e₁) (h₂ : Grows k e₁ e₂) : Grows k e e₂ := by
  intro i
  obtain ⟨hs₁, xs, hl₁, hx₁⟩ := h₁ i
  obtain ⟨hs₂, ys, hl₂, hy₂⟩ := h₂ i
  refine ⟨hs₂.trans hs₁, xs ++ ys, by rw [hl₂, hl₁, List.append_assoc], fun h => ?_⟩
  -- a worker that has left before has left after the first change too
  have h' : k = some i ∨ e₁.Gone i := h.imp id fun hg => by unfold Gone at hg ⊢; rw [hs₁]; exact hg
  rw [hx₁ h, hy₂ h', List.append_nil]

/-- A change the workers do not see. -/
theorem of_workers (h : e'.workers = e.workers) : Grows k e e' :=
  fun i => ⟨status?_of_workers h i, [], by rw [lowShared_of_workers h, List.append_nil], fun _ => rfl⟩

/-- A change the workers do not see, then one that grows. -/
theorem frame (h : Grows k e₁ e₂) (hw : e₁.workers = e.workers) : Grows k e e₂ :=
  (of_workers hw).trans h

/-- Growing on a worker's behalf is growing on nobody's. -/
theorem outside (h : Grows k e e') : Grows none e e' := by
  intro i
  obtain ⟨hs, xs, hl, hx⟩ := h i
  exact ⟨hs, xs, hl, fun h' => hx (.inr (h'.resolve_left (by simp)))⟩

theorem foldl {α : Type} {g : Engine → α → Engine} (hg : ∀ e a, Grows k e (g e a)) :
    ∀ (l : List α) (e : Engine), Grows k e (l.foldl g e)
  | [], e => refl e
  | a :: l, e => (hg e a).trans (foldl hg l (g e a))

/-- A change to one pool worker that keeps its status and adds to its low shared list only at
the end, and nothing when the change runs on it or it has left. -/
theorem modifyWorker {j : Nat} {f : Worker → Worker} (hs : ∀ wk, (f wk).status = wk.status)
    (hl : ∀ wk, e.workers[j]? = some wk → ∃ xs,
      ((f wk).lanes.get .low).others.toList = (wk.lanes.get .low).others.toList ++ xs ∧
      (k = some j ∨ wk.status = .terminated → xs = [])) :
    Grows k e (e.modifyWorker (.pool j) f) := by
  intro i
  rw [status?_modifyWorker, lowShared_modifyWorker]
  by_cases hji : j = i
  · subst hji
    cases hw : e.workers[j]? with
    | none => exact ⟨by simp [status?, hw], [], by simp [lowShared, hw], fun _ => rfl⟩
    | some wk =>
      obtain ⟨xs, hxs, hx⟩ := hl wk hw
      refine ⟨by simp [status?, hw, hs], xs, by simp [lowShared, hw, hxs], fun h => hx ?_⟩
      exact h.imp id fun hg => by simpa [Gone, status?, hw] using hg
  · rw [if_neg hji, if_neg hji]
    exact ⟨rfl, [], by simp, fun _ => rfl⟩

end Grows

/-- What a post does to a lane's shared list at the low priority. -/
theorem others_modify_mine (lanes : PerPriority Lane) (p : Priority) (g : Chunked Item → Chunked Item) :
    ((lanes.modify p fun l => { l with mine := g l.mine }).get .low).others = (lanes.get .low).others := by
  cases p <;> rfl

theorem others_modify_others (lanes : PerPriority Lane) (p : Priority) (it : Item) :
    ((lanes.modify p fun l => { l with others := l.others.push it }).get .low).others.toList =
      (lanes.get .low).others.toList ++ if p = .low then [it] else [] := by
  cases p <;> simp [PerPriority.modify, PerPriority.set, PerPriority.get]

/-- A post to a worker's own queue adds to its low shared list only when it is posted at the
low priority from elsewhere to a worker that has not left. -/
theorem Grows.pushThread (e : Engine) (scope : Scope) (w : WorkerId) (p : Priority) (it : Item) :
    Grows scope.poolWorker e (e.pushThread scope w p it) := by
  unfold Engine.pushThread
  split
  · exact Grows.of_workers rfl
  · rename_i ht
    cases w with
    | main => split <;> exact Grows.of_workers rfl
    | pool j =>
      split
      · exact Grows.modifyWorker (fun _ => rfl) fun wk _ =>
          ⟨[], by rw [others_modify_mine _ _ fun m => m.push it, List.append_nil], fun _ => rfl⟩
      · rename_i hsc
        refine Grows.modifyWorker (fun _ => rfl) fun wk hw => ⟨_, others_modify_others _ _ _, ?_⟩
        rintro (hk | hg)
        · -- the post comes from the worker itself, which the branch rules out
          simp only [Scope.poolWorker] at hk
          split at hk <;> simp_all
        · simp [terminated, worker?, hw, hg] at ht

namespace Grows

theorem triggerWith {k : Option Nat} {post : Engine → Scope → QueueRef → Item → Engine} {scope : Scope}
    (hpost : ∀ e q it, Grows k e (post e scope q it)) (e : Engine) (id : Nat) :
    Grows k e (e.triggerWith post scope id) := by
  unfold Engine.triggerWith
  split
  · split
    · exact refl e
    · exact (hpost _ _ _).frame rfl
  · exact refl e

/-- A post, through any chain of serial queues, grows on behalf of the worker it comes from. -/
theorem postWithin : ∀ (hops : Nat) (e : Engine) (scope : Scope) (q : QueueRef) (it : Item),
    Grows scope.poolWorker e (e.postWithin hops scope q it)
  | hops, e, _, .global p, it => by cases hops <;> exact of_workers rfl
  | hops, e, scope, .thread w p, it => by cases hops <;> exact Grows.pushThread e scope w p it
  | 0, e, _, .serial _, _ => refl e
  | hops + 1, e, scope, .serial id, it => by
    simp only [Engine.postWithin]
    cases e.serials[id]? with
    | none => exact refl e
    | some s =>
      dsimp only
      -- the queue may first follow its caller; then the item joins it, which no worker sees
      have hf : (if s.options.stickToCaller then e.followCaller scope id else e).workers = e.workers := by
        split
        · rw [followCaller_eq]; rfl
        · rfl
      split
      · exact (triggerWith (postWithin hops · scope) _ id).frame hf
      · exact of_workers hf

theorem post (e : Engine) (scope : Scope) (q : QueueRef) (it : Item) :
    Grows scope.poolWorker e (e.post scope q it) :=
  postWithin _ e scope q it

theorem dispatchAsync (e : Engine) (scope : Scope) (q : QueueRef) (t : Task) :
    Grows scope.poolWorker e (e.dispatchAsync scope q t) :=
  postWithin _ e scope q _

theorem trigger (e : Engine) (scope : Scope) (id : Nat) : Grows scope.poolWorker e (e.trigger scope id) :=
  triggerWith (postWithin _ · scope) e id

theorem requestDispatch (e : Engine) (scope : Scope) (c : Nat) :
    Grows scope.poolWorker e (e.requestDispatch scope c) := by
  unfold Engine.requestDispatch
  split
  · split
    · split
      · exact refl e
      · exact (dispatchAsync _ _ _ _).frame rfl
    · exact refl e
  · exact refl e

theorem chooseWorker (e : Engine) (scope : Scope) (k : Option Nat) : Grows k e (e.chooseWorker scope).2 := by
  rcases e.chooseWorker_snd scope with he | he <;> rw [he]
  · exact refl e
  · exact of_workers rfl

theorem register (e : Engine) (scope : Scope) (label : String) (fn : Option Task)
    (options : QueueOptions) (k : Option Nat) : Grows k e (e.register scope label fn options).2 := by
  have hc := chooseWorker e scope k
  unfold Engine.register
  dsimp only
  generalize e.chooseWorker scope = r at hc
  obtain ⟨w, e₁⟩ := r
  cases w with
  | error f => exact hc
  | ok w => exact hc.trans (of_workers rfl)

theorem assignTo (e : Engine) (c w : Nat) (k : Option Nat) : Grows k e (e.assignTo c w) :=
  of_workers (e.assignTo_queues c w).2

theorem perform (scope : Scope) : ∀ (t : Task) (e : Engine), Grows scope.poolWorker e (e.perform scope t).1
  | .seq a b, e => by
    have ha := perform scope a e
    simp only [Engine.perform]
    cases hr : e.perform scope a with
    | mk e₁ o =>
      rw [hr] at ha
      cases o with
      | some m => exact ha
      | none => exact ha.trans (perform scope b e₁)
  | .request c, e => requestDispatch e scope c
  | .post q t, e => dispatchAsync e scope q t
  | .register slot label fn opts, e => by
    have h := register e scope label fn opts scope.poolWorker
    simp only [Engine.perform]
    generalize e.register scope label fn opts = r at h
    obtain ⟨_, e₁⟩ := r
    exact h.trans (of_workers rfl)
  | .noop, e | .fail _, e | .log _ _, e | .add _ _, e | .probe _, e | .cancel _, e
  | .closeTracker _, e | .clearPending _, e => of_workers rfl

theorem execute (e : Engine) (scope : Scope) (it : Item) : Grows scope.poolWorker e (e.execute scope it) := by
  unfold Engine.execute
  cases it.job with
  | task t =>
    have h := perform scope t e
    dsimp only
    cases hr : e.perform scope t with
    | mk e₁ o =>
      rw [hr] at h
      cases o with
      | some m => exact h.trans (of_workers rfl)
      | none => exact h
  | member slot t =>
    have h := perform scope t e
    dsimp only
    generalize e.perform scope t = r at h ⊢
    obtain ⟨e₁, o⟩ := r
    exact h.trans (of_workers rfl)
  | drain _ | pill _ => exact refl e

theorem observe (e : Engine) (c : Nat) (it : Item) (k : Option Nat) : Grows k e (e.observe c it) := by
  unfold Engine.observe
  split
  · exact refl e
  · rename_i ctx _
    dsimp only
    generalize ctx.tracker.observe e.balancer.running (some ctx.owner) it.caller it.callerCtx = r
    obtain ⟨t, target⟩ := r
    have h1 : Grows k e (e.modifyContext c fun ctx => { ctx with tracker := t }) := of_workers rfl
    cases target with
    | some w =>
      -- the balancer moves the context to another worker
      dsimp only
      exact (h1.trans (assignTo _ c w k)).trans (of_workers rfl)
    | none => exact h1

end Grows

/-- A change that touches the low shared lists only by adding items at their ends: none to `k`,
the worker it runs on, whose own posts go to its local lists, nor to a worker that has left. A
worker that has left stays left, but `k` may run its stopping job; once leaving, `k` stays so. -/
def Appends (k : Option Nat) (e e' : Engine) : Prop :=
  ∀ i, ∃ xs, e'.lowShared i = e.lowShared i ++ xs ∧ (k = some i ∨ e.Gone i → xs = []) ∧
    (e.Gone i → e'.Gone i ∨ k = some i) ∧ (k = some i → e.Leaving i → e'.Leaving i)

namespace Appends

variable {k : Option Nat} {e e₁ e₂ : Engine}

theorem trans (h₁ : Appends k e e₁) (h₂ : Appends k e₁ e₂) : Appends k e e₂ := by
  intro i
  obtain ⟨xs, hl₁, hx₁, hg₁, hs₁⟩ := h₁ i
  obtain ⟨ys, hl₂, hy₂, hg₂, hs₂⟩ := h₂ i
  refine ⟨xs ++ ys, by rw [hl₂, hl₁, List.append_assoc], fun h => ?_, fun hg => ?_,
    fun hk hs => hs₂ hk (hs₁ hk hs)⟩
  · -- a worker that has left before has left after the first change, or the change runs on it
    have h' : k = some i ∨ e₁.Gone i := h.elim .inl fun hg => (hg₁ hg).symm
    rw [hx₁ h, hy₂ h', List.append_nil]
  · exact (hg₁ hg).elim hg₂ .inr

theorem of_grows (h : Grows k e e₁) : Appends k e e₁ := by
  intro i
  obtain ⟨hs, xs, hl, hx⟩ := h i
  refine ⟨xs, hl, hx, fun hg => .inl ?_, fun _ hl' => ?_⟩
  · unfold Gone at hg ⊢; rw [hs]; exact hg
  · unfold Leaving at hl' ⊢; rw [hs]; exact hl'

theorem refl (e : Engine) : Appends k e e := of_grows (Grows.refl e)

/-- The worker a change runs on runs its own stopping job. -/
theorem stop {w : Nat} (hk : k = some w) :
    Appends k e (e.modifyWorker (.pool w) fun wk => { wk with status := .stopping }) := by
  intro i
  simp only [Gone, Leaving, lowShared_modifyWorker, status?_modifyWorker]
  by_cases hwi : w = i
  · subst hwi
    refine ⟨[], by simp [lowShared], fun _ => rfl, fun _ => .inr hk, fun _ hl => ?_⟩
    -- the worker is there, since it has a status, and now it stops
    cases hw : e.workers[w]? with
    | none => simp [status?, hw] at hl
    | some wk => simp
  · simp only [hwi, ↓reduceIte]
    exact ⟨[], by simp, fun _ => rfl, .inl, fun _ h => h⟩

/-- A drain's items, each run on the drain's worker by a runner that appends on its behalf. -/
theorem drainItems {run : Scope → Item → Engine → Engine}
    (hrun : ∀ scope it e, Appends scope.poolWorker e (run scope it e)) (qscope : Scope) (id : Nat) :
    ∀ (n : Nat) (e : Engine) (done : Nat),
      Appends qscope.poolWorker e (Engine.drainItems run qscope id n e done).1
  | 0, e, _ => refl e
  | n + 1, e, done => by
    unfold Engine.drainItems
    cases e.serials[id]? with
    | none => exact refl e
    | some s =>
      dsimp only
      split
      · exact refl e
      · cases s.tasks.pop with
        | mk o rest =>
          cases o with
          | none => exact refl e
          | some it =>
            dsimp only
            have h0 : Appends qscope.poolWorker e (e.modifySerial id fun s => { s with tasks := rest }) :=
              of_grows (Grows.of_workers rfl)
            refine h0.trans (Appends.trans ?_ (drainItems hrun qscope id n _ _))
            split
            · exact hrun _ _ _
            · -- an item of a context's queue is shown to the balancer first
              cases s.pooled with
              | none => exact of_grows (Grows.execute _ _ _)
              | some c => exact of_grows ((Grows.observe _ c it _).trans (Grows.execute _ _ _))

theorem drainBound {run : Scope → Item → Engine → Engine}
    (hrun : ∀ scope it e, Appends scope.poolWorker e (run scope it e)) (e : Engine) (scope : Scope)
    (id : Nat) (s : Serial) : Appends scope.poolWorker e (e.drainBound run scope id s) := by
  have h0 := drainItems hrun { scope with queue := some (.serial id), pooled := s.pooled <|> scope.pooled }
    id s.size.toNat e 0
  unfold Engine.drainBound
  dsimp only
  generalize Engine.drainItems run { scope with queue := some (.serial id), pooled := s.pooled <|> scope.pooled }
    id s.size.toNat e 0 = r at h0 ⊢
  obtain ⟨e₁, done⟩ := r
  have h1 : Appends scope.poolWorker e
      (e₁.modifySerial id fun s => { s with size := s.size - done, triggered := false }) :=
    h0.trans (of_grows (Grows.of_workers rfl))
  dsimp only
  generalize e₁.modifySerial id (fun s => { s with size := s.size - done, triggered := false }) = e₂ at h1 ⊢
  cases e₂.serials[id]? with
  | none => exact h1
  | some s' =>
    dsimp only
    split
    · exact h1.trans (of_grows (Grows.trigger _ _ _))
    · exact h1

theorem drainWith {run : Scope → Item → Engine → Engine}
    (hrun : ∀ scope it e, Appends scope.poolWorker e (run scope it e)) (e : Engine) (scope : Scope)
    (id : Nat) : Appends scope.poolWorker e (e.drainWith run scope id) := by
  rw [Engine.drainWith_eq]
  cases e.serials[id]? with
  | none => exact refl e
  | some s =>
    -- binding the queue to its drainer is a change to the queue alone
    have hp : (e.pinTo scope id s).workers = e.workers := by
      unfold Engine.pinTo
      split
      · split <;> rfl
      · rfl
    exact (of_grows (Grows.of_workers hp)).trans (drainBound hrun _ scope id s)

/-- Running an item appends on behalf of the worker that runs it; its own stopping job makes it
leave after the item. -/
theorem runJob : ∀ (fuel : Nat) (scope : Scope) (it : Item) (e : Engine),
    Appends scope.poolWorker e (Engine.runJob fuel scope it e)
  | 0, _, _, e => refl e
  | fuel + 1, scope, it, e => by
    unfold Engine.runJob
    cases it.job with
    | drain id => exact drainWith (runJob fuel) e scope id
    | pill w =>
      dsimp only
      split
      · rename_i hw
        exact stop (by simp only [beq_iff_eq] at hw; simp [Scope.poolWorker, hw])
      · exact refl e
    | task _ | member _ _ => exact of_grows (Grows.execute e scope it)

end Appends

end Engine

/-! ## Taking an item -/

/-- Taking from a lane leaves its shared list as it was, or takes the front of its shared list
when its local list has nothing to give. -/
theorem Lane.pop_others {l l' : Lane} {it : Item} (h : l.pop = some (it, l')) :
    l'.others = l.others ∨ l.mine.pop.1 = none ∧ l.others.toList = it :: l'.others.toList := by
  unfold Lane.pop at h
  rcases hm : l.mine.pop with ⟨_ | it', m⟩ <;> rw [hm] at h <;> simp only at h
  · rcases ho : l.others.pop with ⟨_ | it'', o⟩ <;> rw [ho] at h <;> simp only at h
    · cases h
    · obtain ⟨rfl, rfl⟩ := Prod.mk.inj (Option.some.inj h)
      exact .inr ⟨rfl, Accounted.Linked.toList_of_pop ho⟩
  · obtain ⟨rfl, rfl⟩ := Prod.mk.inj (Option.some.inj h)
    exact .inl rfl

namespace Engine

variable {e : Engine}

/-- The item taken for worker `w` comes with the worker's scope, and the worker is there. -/
theorem takeAt_scope {w : WorkerId} {p : Priority} {scope : Scope} {it : Item} {e' : Engine}
    (h : e.takeAt w p = some (scope, it, e')) : scope.worker = some w ∧ ∃ wk, e.worker? w = some wk := by
  unfold takeAt at h
  split at h
  · cases h
  · rename_i wk hw
    refine ⟨?_, wk, hw⟩
    split at h
    · obtain ⟨rfl, -⟩ := Prod.mk.inj (Option.some.inj h)
      rfl
    · split at h
      · cases h
      · split at h
        · obtain ⟨rfl, -⟩ := Prod.mk.inj (Option.some.inj h)
          rfl
        · cases h

/-- Taking an item keeps every worker's status, and changes a low shared list only when its own
worker takes the front item at the low priority, having found its low local list empty. -/
theorem takeAt_lowShared {w : WorkerId} {p : Priority} {scope : Scope} {it : Item} {e' : Engine}
    (h : e.takeAt w p = some (scope, it, e')) (i : Nat) :
    e'.status? i = e.status? i ∧
      (e'.lowShared i = e.lowShared i ∨ w = .pool i ∧ p = .low ∧ e.lowShared i = it :: e'.lowShared i ∧
        ∃ wk, e.workers[i]? = some wk ∧ (wk.lanes.get .low).mine.pop.1 = none) := by
  unfold takeAt at h
  split at h
  · cases h
  · rename_i wk hw
    split at h
    · rename_i it' l hl
      simp only [Option.some.injEq, Prod.mk.injEq] at h
      obtain ⟨-, rfl, rfl⟩ := h
      cases w with
      | main => exact ⟨rfl, .inl rfl⟩
      | pool j =>
        simp only [worker?] at hw
        rw [status?_modifyWorker, lowShared_modifyWorker]
        by_cases hji : j = i
        · subst hji
          rw [if_pos rfl, if_pos rfl, status?_of_some hw, lowShared_of_some hw, hw]
          simp only [Option.map_some, Option.getD_some, true_and]
          -- only the low lane holds the shared list, and only a take from its front changes it
          cases p with
          | high | normal => exact .inl rfl
          | low =>
            rcases Lane.pop_others hl with ho | ⟨hm, ho⟩
            · exact .inl (by simp [PerPriority.get_set_self, ho])
            · exact .inr ⟨rfl, by simpa using ho, wk, rfl, hm⟩
        · rw [if_neg hji, if_neg hji]
          exact ⟨rfl, .inl rfl⟩
    · split at h
      · cases h
      · split at h
        · simp only [Option.some.injEq, Prod.mk.injEq] at h
          obtain ⟨-, rfl, rfl⟩ := h
          exact ⟨rfl, .inl rfl⟩
        · cases h

/-- A pool worker's take at one priority finds nothing only when its own queue of that priority
and the shared queue of that priority are empty. -/
theorem takeAt_pool_none (hwf : e.LanesWF) {i : Nat} {wk : Worker} (hw : e.workers[i]? = some wk)
    {p : Priority} (h : e.takeAt (.pool i) p = none) :
    (wk.lanes.get p).toList = [] ∧ (e.global.get p).toList = [] := by
  unfold takeAt at h
  simp only [worker?, hw] at h
  split at h
  · cases h
  · rename_i hl
    refine ⟨Lane.pop_none (hwf (.pool i) wk hw p) hl, ?_⟩
    have hg := Linked.pop_fst (e.global.get p)
    rcases hq : (e.global.get p).pop with ⟨_ | it, g⟩
    · rw [hq] at hg
      exact List.head?_eq_none_iff.mp hg.symm
    · simp [hq] at h

/-- Scan order: a pool worker takes an item off its low shared list only when its high and
normal queues, the high and normal shared queues and its low local list are all empty. -/
theorem nextItem_off_lowShared (hwf : e.LanesWF) {i : Nat} {scope : Scope} {it : Item} {e' : Engine}
    (h : e.nextItem (.pool i) = some (scope, it, e')) (hl : e.lowShared i = it :: e'.lowShared i) :
    ∃ wk, e.workers[i]? = some wk ∧ (wk.lanes.get .high).toList = [] ∧
      (wk.lanes.get .normal).toList = [] ∧ (wk.lanes.get .low).mine.toList = [] ∧
      (e.global.get .high).toList = [] ∧ (e.global.get .normal).toList = [] := by
  -- a take that changes the low shared list is one at the low priority, past an empty local list
  have hfront : ∀ p, e.takeAt (.pool i) p = some (scope, it, e') →
      p = .low ∧ ∃ wk, e.workers[i]? = some wk ∧ (wk.lanes.get .low).mine.pop.1 = none := by
    intro p hp
    rcases (takeAt_lowShared hp i).2 with he | ⟨-, hp, -, hm⟩
    · rw [he] at hl
      exact absurd hl.symm (List.cons_ne_self _ _)
    · exact ⟨hp, hm⟩
  unfold nextItem Priority.all at h
  simp only [List.findSome?_cons, List.findSome?_nil] at h
  split at h
  · rename_i hh
    cases (hfront .high (hh.trans h)).1
  · rename_i hh
    split at h
    · rename_i hn
      cases (hfront .normal (hn.trans h)).1
    · rename_i hn
      split at h
      · rename_i hlow
        obtain ⟨-, wk, hw, hm⟩ := hfront .low (hlow.trans h)
        obtain ⟨hhigh, hghigh⟩ := takeAt_pool_none hwf hw hh
        obtain ⟨hnormal, hgnormal⟩ := takeAt_pool_none hwf hw hn
        -- the local list gave nothing, so, having its shape, it is empty
        have hmine := ((hwf (.pool i) wk hw) .low).pop.1
        rw [hm] at hmine
        exact ⟨wk, hw, hhigh, hnormal, List.head?_eq_none_iff.mp hmine.symm, hghigh, hgnormal⟩
      · cases h

/-! ## Leaving -/

theorem worker?_handOver_other {w w' : WorkerId} (h : w' ≠ w) :
    (e.handOver w).worker? w' = e.worker? w' := by
  rw [handOver_eq]
  generalize Priority.all = ps
  induction ps generalizing e with
  | nil => rfl
  | cons p ps ih =>
    rw [List.foldl_cons, ih]
    unfold handOverAt
    split
    · rw [worker?_pushAll, worker?_modifyWorker, if_neg h]
    · rfl

/-- A pool worker that leaves leaves the other workers alone. -/
theorem exitWorker_other {j i : Nat} (hji : j ≠ i) :
    (e.exitWorker j).lowShared i = e.lowShared i ∧ (e.exitWorker j).status? i = e.status? i := by
  have hw : (e.exitWorker j).workers[i]? = e.workers[i]? := by
    rw [(e.exitWorker_queues j).2]
    have h : ((e.modifyWorker (.pool j) fun wk => { wk with status := .terminated }).handOver
        (.pool j)).worker? (.pool i) =
        (e.modifyWorker (.pool j) fun wk => { wk with status := .terminated }).worker? (.pool i) :=
      worker?_handOver_other (by simpa using Ne.symm hji)
    simp only [worker?] at h
    rw [h]
    simp [modifyWorker, Array.getElem?_modify, hji]
  exact ⟨by simp only [lowShared, hw], by simp only [status?, hw]⟩

/-- A pool worker that leaves is gone, with nothing left on its low shared list. -/
theorem exitWorker_self {i : Nat} {wk : Worker} (hw : e.workers[i]? = some wk) :
    (e.exitWorker i).lowShared i = [] ∧ (e.exitWorker i).Gone i := by
  have h := exitWorker_worker hw
  refine ⟨by simp [lowShared, h]; rfl, by simp [Gone, status?, h]⟩

theorem Gone.of_status? {e' : Engine} {i : Nat} (hs : e'.status? i = e.status? i) (h : e.Gone i) :
    e'.Gone i := by
  unfold Gone at h ⊢
  rw [hs]
  exact h

/-- How a pool worker's step ends: it leaves when it ran its stopping job, else the engine stays
as the item left it. -/
theorem stepWorker_pool {k : Nat} {scope : Scope} {it : Item} {e₁ e' : Engine}
    (hn : e.nextItem (.pool k) = some (scope, it, e₁)) (h : e.stepWorker (.pool k) = some e') :
    (runJob e₁.nestingDepth scope it e₁).status? k = some .stopping ∧
        e' = (runJob e₁.nestingDepth scope it e₁).exitWorker k ∨
      (runJob e₁.nestingDepth scope it e₁).status? k ≠ some .stopping ∧
        e' = runJob e₁.nestingDepth scope it e₁ := by
  unfold stepWorker at h
  rw [hn] at h
  dsimp only at h
  generalize runJob e₁.nestingDepth scope it e₁ = e₂ at h ⊢
  split at h
  · rename_i wk hw
    simp only [worker?] at hw
    obtain rfl := Option.some.inj h
    rw [status?_of_some hw]
    by_cases hs : wk.status = .stopping
    · exact .inl ⟨by rw [hs], by simp [hs]⟩
    · exact .inr ⟨by simpa using hs, by simp [hs]⟩
  · rename_i hw
    simp only [worker?] at hw
    exact .inr ⟨by simp [status?, hw], (Option.some.inj h).symm⟩

/-! ## Runs, one turn at a time -/

/-- One turn of the engine, with the worker and the item it took to run, if one did: a worker's
step; a pool worker that takes an item and fails fatally while it runs it, so that it leaves at
once; or a change that only adds at the ends of the low shared lists and keeps the workers'
queues in shape. -/
inductive Turn : Engine → Option (WorkerId × Item) → Engine → Prop
  | step {e e₁ e' : Engine} {w : WorkerId} {scope : Scope} {it : Item}
      (hn : e.nextItem w = some (scope, it, e₁)) (h : e.stepWorker w = some e') :
      Turn e (some (w, it)) e'
  | fail {e e₁ : Engine} {i : Nat} {scope : Scope} {it : Item}
      (hn : e.nextItem (.pool i) = some (scope, it, e₁)) : Turn e none (e₁.exitWorker i)
  | quiet {e e' : Engine} (h : Appends none e e') (hwf : e.LanesWF → e'.LanesWF) : Turn e none e'

/-- The runs of the engine turn by turn, with what the workers took along them. -/
inductive Turns : Engine → List (Option (WorkerId × Item)) → Engine → Prop
  | nil (e : Engine) : Turns e [] e
  | cons {e e₁ e' : Engine} {l : Option (WorkerId × Item)} {T : List (Option (WorkerId × Item))}
      (t : Turn e l e₁) (ts : Turns e₁ T e') : Turns e (l :: T) e'

/-- The items worker `w` took to run along a run, in order. -/
def takenBy (w : WorkerId) (T : List (Option (WorkerId × Item))) : List Item :=
  T.filterMap fun l => l.bind fun (w', it) => if w' = w then some it else none

@[simp] theorem takenBy_cons_self (w : WorkerId) (it : Item) (T : List (Option (WorkerId × Item))) :
    takenBy w (some (w, it) :: T) = it :: takenBy w T := by
  simp [takenBy]

theorem takenBy_sublist_cons (w : WorkerId) (l : Option (WorkerId × Item))
    (T : List (Option (WorkerId × Item))) : (takenBy w T).Sublist (takenBy w (l :: T)) := by
  unfold takenBy
  rw [List.filterMap_cons]
  split
  · exact List.Sublist.refl _
  · exact List.sublist_cons_self _ _

/-- What a turn with label `l` does to pool worker `i`'s low shared list: it adds items at the
end, none if the worker has left, which it stays; or the worker takes the front item, which the
label names; or the worker leaves, and the list is empty. -/
def Tracks (i : Nat) (e : Engine) (l : Option (WorkerId × Item)) (e' : Engine) : Prop :=
  (∃ xs, e'.lowShared i = e.lowShared i ++ xs ∧ (e.Gone i → xs = [] ∧ e'.Gone i)) ∨
    (∃ x r xs, l = some (.pool i, x) ∧ e.lowShared i = x :: r ∧ e'.lowShared i = r ++ xs) ∨
    (e'.lowShared i = [] ∧ e'.Gone i)

/-- A worker that takes an item and leaves at once. -/
theorem tracks_fail {k : Nat} {scope : Scope} {it : Item} {e₁ : Engine}
    (hn : e.nextItem (.pool k) = some (scope, it, e₁)) (i : Nat) : Tracks i e none (e₁.exitWorker k) := by
  obtain ⟨p, hp⟩ := nextItem_eq_some hn
  obtain ⟨hs, hL⟩ := takeAt_lowShared hp i
  by_cases hki : k = i
  · subst hki
    -- the worker is there, and it leaves
    obtain ⟨-, wk, hw⟩ := takeAt_scope hp
    simp only [worker?] at hw
    rw [status?_of_some hw] at hs
    obtain ⟨wk₁, hw₁, -⟩ := Option.map_eq_some_iff.mp hs
    exact .inr (.inr (exitWorker_self hw₁))
  · have hL' : e₁.lowShared i = e.lowShared i := hL.resolve_right fun hc => hki (by cases hc.1; rfl)
    obtain ⟨h1, h2⟩ := exitWorker_other (e := e₁) hki
    exact .inl ⟨[], by rw [h1, hL', List.append_nil], fun hg => ⟨rfl, Gone.of_status? (h2.trans hs) hg⟩⟩

/-- A worker's step: the worker may take the front of its own list, and leaves after its
stopping job; the item it runs adds to the other workers' lists only at their ends. -/
theorem tracks_step {w : WorkerId} {scope : Scope} {it : Item} {e₁ e' : Engine}
    (hn : e.nextItem w = some (scope, it, e₁)) (h : e.stepWorker w = some e') (i : Nat) :
    Tracks i e (some (w, it)) e' := by
  obtain ⟨p, hp⟩ := nextItem_eq_some hn
  obtain ⟨hsc, -⟩ := takeAt_scope hp
  obtain ⟨hs₁, hL₁⟩ := takeAt_lowShared hp i
  obtain ⟨xs, hl₂, hx₂, hg₂, hv₂⟩ := Appends.runJob e₁.nestingDepth scope it e₁ i
  cases w with
  | main =>
    have he' : e' = runJob e₁.nestingDepth scope it e₁ := by
      unfold stepWorker at h
      rw [hn] at h
      exact (Option.some.inj h).symm
    have hk : scope.poolWorker = none := by simp [Scope.poolWorker, hsc]
    rw [hk] at hx₂ hg₂
    have hL : e₁.lowShared i = e.lowShared i := hL₁.resolve_right (by simp)
    subst he'
    refine .inl ⟨xs, by rw [hl₂, hL], fun hg => ?_⟩
    have hg₁ := Gone.of_status? hs₁ hg
    exact ⟨hx₂ (.inr hg₁), (hg₂ hg₁).resolve_right (by simp)⟩
  | pool k =>
    have hk : scope.poolWorker = some k := by simp [Scope.poolWorker, hsc]
    rw [hk] at hx₂ hg₂ hv₂
    by_cases hki : k = i
    · subst hki
      -- the worker's own posts go to its local lists
      rw [hx₂ (.inl rfl), List.append_nil] at hl₂
      rcases stepWorker_pool hn h with ⟨hst, rfl⟩ | ⟨hst, rfl⟩
      · obtain ⟨wk, hw, -⟩ := Option.map_eq_some_iff.mp hst
        exact .inr (.inr (exitWorker_self hw))
      · rcases hL₁ with hL | ⟨-, -, hL, -⟩
        · refine .inl ⟨[], by rw [hl₂, hL, List.append_nil], fun hg => ⟨rfl, ?_⟩⟩
          -- gone before the step, the worker is gone or stopping after it, and it is not stopping
          exact (hv₂ rfl (.inl (Gone.of_status? hs₁ hg))).resolve_right hst
        · exact .inr (.inl ⟨it, e₁.lowShared k, [], rfl, hL, by rw [hl₂, List.append_nil]⟩)
    · have hL : e₁.lowShared i = e.lowShared i := hL₁.resolve_right fun hc => hki (by cases hc.1; rfl)
      have hki' : some k ≠ some i := by simpa using hki
      -- the step may end with this other worker leaving, which the list does not see
      have hend : e'.lowShared i = (runJob e₁.nestingDepth scope it e₁).lowShared i ∧
          e'.status? i = (runJob e₁.nestingDepth scope it e₁).status? i := by
        rcases stepWorker_pool hn h with ⟨-, rfl⟩ | ⟨-, rfl⟩
        · exact exitWorker_other hki
        · exact ⟨rfl, rfl⟩
      refine .inl ⟨xs, by rw [hend.1, hl₂, hL], fun hg => ?_⟩
      have hg₁ := Gone.of_status? hs₁ hg
      exact ⟨hx₂ (.inr hg₁), Gone.of_status? hend.2 ((hg₂ hg₁).resolve_right hki')⟩

theorem Turn.tracks {e e' : Engine} {l : Option (WorkerId × Item)} (t : Turn e l e') (i : Nat) :
    Tracks i e l e' := by
  cases t with
  | step hn h => exact tracks_step hn h i
  | fail hn => exact tracks_fail hn i
  | quiet h _ =>
    obtain ⟨xs, hl, hx, hg, -⟩ := h i
    exact .inl ⟨xs, hl, fun hgi => ⟨hx (.inr hgi), (hg hgi).resolve_right (by simp)⟩⟩

/-- A worker that has left, with nothing on its low shared list, stays so along every run. -/
theorem Turns.gone {e e' : Engine} {T : List (Option (WorkerId × Item))} (ts : Turns e T e')
    {i : Nat} (h : e.lowShared i = [] ∧ e.Gone i) : e'.lowShared i = [] ∧ e'.Gone i := by
  induction ts with
  | nil => exact h
  | cons t _ ih =>
    apply ih
    rcases t.tracks i with ⟨xs, hl, hx⟩ | ⟨x, r, xs, -, hL, -⟩ | hgone
    · obtain ⟨rfl, hg⟩ := hx h.2
      exact ⟨by rw [hl, h.1, List.append_nil], hg⟩
    · rw [h.1] at hL
      cases hL
    · exact hgone

/-- A low shared list is a queue along every run: the items its worker took off its front,
followed by what it holds at the end, are what it held at the start followed by what joined it;
unless the worker left, and then it holds nothing. -/
theorem Turns.fifo {e e' : Engine} {T : List (Option (WorkerId × Item))} (ts : Turns e T e')
    (i : Nat) :
    (∃ taken added, taken.Sublist (takenBy (.pool i) T) ∧
      taken ++ e'.lowShared i = e.lowShared i ++ added) ∨ (e'.lowShared i = [] ∧ e'.Gone i) := by
  induction ts with
  | nil => exact .inl ⟨[], [], List.nil_sublist _, by simp⟩
  | @cons e e₁ e' l T t ts ih =>
    rcases t.tracks i with ⟨xs, hl, -⟩ | ⟨x, r, xs, rfl, hL, hl⟩ | hgone
    · -- items joined at the end
      rcases ih with ⟨taken, added, hs, heq⟩ | hgone
      · refine .inl ⟨taken, xs ++ added, hs.trans (takenBy_sublist_cons _ _ _), ?_⟩
        rw [heq, hl, List.append_assoc]
      · exact .inr hgone
    · -- the worker took the front item
      rcases ih with ⟨taken, added, hs, heq⟩ | hgone
      · refine .inl ⟨x :: taken, xs ++ added, by simpa using hs.cons_cons x, ?_⟩
        rw [List.cons_append, heq, hl, hL, List.cons_append, List.append_assoc]
      · exact .inr hgone
    · exact .inr (ts.gone hgone)

/-- Every turn keeps the workers' queues in shape, and so does every run. -/
theorem Turns.lanesWF {e e' : Engine} {T : List (Option (WorkerId × Item))} (ts : Turns e T e')
    (h : e.LanesWF) : e'.LanesWF := by
  induction ts with
  | nil => exact h
  | cons t _ ih =>
    apply ih
    cases t with
    | step _ hs => exact (Accounted.stepWorker hs h).1
    | fail hn => exact ((Accounted.nextItem hn).after (Accounted.exitWorker _ _) h).1
    | quiet _ hwf => exact hwf h

/-! ## Every move of the engine is a run of turns -/

namespace Grows

theorem fireTimers (e : Engine) : Grows none e e.fireTimers := by
  unfold Engine.fireTimers
  generalize e.timer.advance (e.clock + Engine.timerHorizon) = tj
  obtain ⟨t, jobs⟩ := tj
  refine foldl (fun e j => ?_) jobs _ |>.frame rfl
  obtain ⟨q, task⟩ := j
  exact (dispatchAsync e Scope.outside q task).trans (of_workers rfl)

theorem resume (e : Engine) (id : Nat) : Grows none e (e.resume id).2 := by
  unfold Engine.resume
  cases e.serials[id]? with
  | none => exact refl e
  | some s =>
    dsimp only
    split
    · exact refl e
    · split
      · exact (trigger _ Scope.outside id).frame rfl
      · exact of_workers rfl

theorem release (e : Engine) (id : Nat) : Grows none e (e.release id).2 := by
  unfold Engine.release
  cases e.serials[id]? with
  | none => exact refl e
  | some s =>
    dsimp only
    split
    · exact of_workers rfl
    · split
      · exact of_workers rfl
      · -- the last hold is dropped: the disposer is posted to the queue
        cases s.disposer with
        | some t => exact (dispatchAsync _ Scope.outside _ t).frame rfl
        | none => exact of_workers rfl

theorem closeContext (e : Engine) (c : Nat) : Grows none e (e.closeContext c).2 := by
  unfold Engine.closeContext
  cases e.contexts[c]? with
  | none => exact refl e
  | some ctx =>
    dsimp only
    split
    · exact refl e
    · exact (release _ ctx.queue).frame rfl

theorem schedule (e : Engine) (scope : Scope) (task : Task) (delay : Int) :
    Grows scope.poolWorker e (e.schedule scope task delay).2 := by
  have hc := chooseWorker e scope scope.poolWorker
  unfold Engine.schedule
  generalize e.chooseWorker scope = r at hc
  obtain ⟨w, e₁⟩ := r
  cases w with
  | error f => exact hc
  | ok w =>
    dsimp only
    split
    · exact hc.trans (dispatchAsync _ _ _ _)
    · -- a later post is left to the timer
      split
      · exact hc.trans (of_workers rfl)
      · exact hc

theorem createPartitioned (e : Engine) (label : String) (k : Int) (options : QueueOptions) :
    Grows none e (e.createPartitioned label k options).2 := by
  unfold Engine.createPartitioned
  split
  · exact refl e
  · dsimp only
    -- the partitions are made one after the other, each a fresh serial queue
    generalize (if label.isEmpty then e.freshLabel "partitioned" else label) = name
    generalize (⟨name, Courier.Hash.Ring.create Courier.Hash.defaultReplicas, []⟩ : Partitioned) = pq
    generalize List.range k.toNat = is
    induction is generalizing pq e with
    | nil => exact refl e
    | cons i is ih => exact (ih _ _).frame rfl

theorem retain (e : Engine) (id : Nat) : Grows none e (e.retain id).2 := by
  unfold Engine.retain
  split
  · exact refl e
  · dsimp only
    split <;> exact of_workers rfl

theorem setTarget (e : Engine) (id : Nat) (onto : Option QueueRef) : Grows none e (e.setTarget id onto).2 := by
  unfold Engine.setTarget
  split
  · exact refl e
  · dsimp only
    split
    · exact refl e
    · exact of_workers rfl

theorem dispatchAfter (e : Engine) (q : QueueRef) (t : Task) (delay : Int) :
    Grows none e (e.dispatchAfter q t delay).2 := by
  unfold Engine.dispatchAfter
  split <;> exact of_workers rfl

end Grows

namespace Appends

/-- A new pool worker joins, with nothing on its lists. -/
theorem pushWorker (e : Engine) (name : String) :
    Appends none e { e with workers := e.workers.push (Worker.create name) } := by
  intro i
  -- the new worker takes an index that named no worker
  have hl : ({ e with workers := e.workers.push (Worker.create name) } : Engine).lowShared i =
      e.lowShared i := by
    simp only [lowShared, Array.getElem?_push]
    split
    · rename_i hi
      subst hi
      simp [Worker.create, PerPriority.uniform, PerPriority.get, Lane.empty]
    · rfl
  have hg : e.Gone i → ({ e with workers := e.workers.push (Worker.create name) } : Engine).Gone i := by
    simp only [Gone, status?, Array.getElem?_push]
    split
    · rename_i hi
      subst hi
      simp
    · exact id
  exact ⟨[], by rw [hl, List.append_nil], fun _ => rfl, fun h => .inl (hg h), fun h => by cases h⟩

/-- A pool worker that failed to start is marked as gone. -/
theorem terminate (e : Engine) (j : Nat) :
    Appends none e (e.modifyWorker (.pool j) fun wk => { wk with status := .terminated }) := by
  intro i
  simp only [Gone, Leaving, lowShared_modifyWorker, status?_modifyWorker]
  by_cases hji : j = i
  · subst hji
    refine ⟨[], by simp [lowShared], fun _ => rfl, fun hg => .inl ?_, by simp⟩
    -- the worker had a status, so it is there, and now it has left
    cases hw : e.workers[j]? with
    | none => simp [status?, hw] at hg
    | some wk => simp
  · rw [if_neg hji, if_neg hji]
    exact ⟨[], by simp, fun _ => rfl, .inl, by simp⟩

end Appends

theorem Turns.append {e e₁ e₂ : Engine} {T T' : List (Option (WorkerId × Item))} (h : Turns e T e₁)
    (h' : Turns e₁ T' e₂) : Turns e (T ++ T') e₂ := by
  induction h with
  | nil => exact h'
  | cons t _ ih => exact .cons t (ih h')

/-- `e'` is reached from `e` by a run of turns. -/
def TurnsTo (e e' : Engine) : Prop := ∃ T, Turns e T e'

namespace TurnsTo

variable {e e₁ e₂ : Engine}

theorem refl (e : Engine) : TurnsTo e e := ⟨[], .nil e⟩

theorem trans (h : TurnsTo e e₁) (h' : TurnsTo e₁ e₂) : TurnsTo e e₂ :=
  let ⟨_, hT⟩ := h
  let ⟨_, hT'⟩ := h'
  ⟨_, hT.append hT'⟩

theorem turn {l : Option (WorkerId × Item)} (t : Turn e l e₁) : TurnsTo e e₁ := ⟨_, .cons t (.nil _)⟩

/-- A change that grows and keeps every item is one quiet turn. -/
theorem quiet {k : Option Nat} {F : List Flow} (hg : Grows k e e₁) (ha : Accounted e F e₁) :
    TurnsTo e e₁ :=
  turn (.quiet (Appends.of_grows hg.outside) fun hwf => (ha hwf).1)

/-- A change to what no worker sees, which keeps every item where it is. -/
theorem aside (hw : e₁.workers = e.workers) (hq : e₁.queued = e.queued) (hm : e₁.main = e.main) :
    TurnsTo e e₁ :=
  quiet (k := none) (Grows.of_workers hw) (Accounted.of_queued hq hm hw)

theorem stepWorker {w : WorkerId} (h : e.stepWorker w = some e₁) : TurnsTo e e₁ := by
  cases hn : e.nextItem w with
  | none => simp [Engine.stepWorker, hn] at h
  | some r =>
    obtain ⟨scope, it, e'⟩ := r
    exact turn (.step hn h)

theorem findStep (h : (e.live.findSome? fun i => e.stepWorker (.pool i)) = some e₁) : TurnsTo e e₁ := by
  obtain ⟨i, -, hi⟩ := List.exists_of_findSome?_eq_some h
  exact stepWorker hi

theorem runPoolFor : ∀ (k : Nat) (e : Engine), TurnsTo e (Engine.runPoolFor k e)
  | 0, e => refl e
  | k + 1, e => by
    unfold Engine.runPoolFor
    cases hr : e.live.findSome? fun i => e.stepWorker (.pool i) with
    | none => exact refl e
    | some e' => exact (findStep hr).trans (runPoolFor k e')

theorem runBothFor : ∀ (k : Nat) (e : Engine), TurnsTo e (Engine.runBothFor k e)
  | 0, e => refl e
  | k + 1, e => by
    unfold Engine.runBothFor
    cases hm : e.stepWorker .main with
    | some e' => exact (stepWorker hm).trans (runBothFor k e')
    | none =>
      cases hr : e.live.findSome? fun i => e.stepWorker (.pool i) with
      | none => exact refl e
      | some e' => exact (findStep hr).trans (runBothFor k e')

theorem runPool (e : Engine) : TurnsTo e e.runPool :=
  (quiet (Grows.fireTimers e) (Accounted.fireTimers e)).trans (runPoolFor _ _)

/-- A shutdown: every worker gets its stopping job, the pool runs, and the rest stops. -/
theorem stopAll (e : Engine) : TurnsTo e e.stopAll := by
  unfold Engine.stopAll
  dsimp only
  have hp := (Grows.foldl (fun e i => Grows.pushThread e Scope.outside (.pool i) .low ⟨.pill i, none, none⟩)
    (List.range e.workers.size) { e with shutdown := true }).frame (e := e) rfl
  refine ((quiet hp ((Accounted.of_queued (by rfl) (by rfl) (by rfl)).before (Accounted.pushPills _ _))).trans
    (runPool _)).trans (aside (by rfl) (by rfl) (by rfl))

theorem startWorkers : ∀ (e : Engine) (i n : Nat), TurnsTo e (e.startWorkers i n).2
  | e, _, 0 => refl e
  | e, i, n + 1 => by
    unfold Engine.startWorkers
    dsimp only
    have hw := turn (.quiet (Appends.pushWorker e (e.workerName (.pool i)))
      fun hwf => (Accounted.pushWorker e (e.workerName (.pool i)) hwf).1)
    split
    · -- a worker that fails to start is marked as gone, and stops the engine again
      refine (hw.trans (turn (.quiet (Appends.terminate _ i) fun hwf => ?_))).trans (stopAll _)
      exact (Accounted.modifyWorker_of_lanes _ (.pool i) (f := fun wk => { wk with status := .terminated })
        (fun _ => rfl) hwf).1
    · exact (hw.trans (aside (by rfl) (by rfl) (by rfl))).trans (startWorkers _ (i + 1) n)

theorem start (e : Engine) : TurnsTo e e.start.2 := by
  unfold Engine.start
  split
  · exact refl e
  · split
    · exact refl e
    · exact (aside (by rfl) (by rfl) (by rfl)).trans (startWorkers _ 0 _)

theorem stop (e : Engine) : TurnsTo e e.stop.2 := by
  unfold Engine.stop
  split
  · exact refl e
  · exact stopAll e

theorem runGroup (e : Engine) (scope : Scope) (q : QueueRef) (n : Nat) (task : Nat → Nat → Task) :
    TurnsTo e (e.runGroup scope q n task).2 := by
  unfold Engine.runGroup
  cases e.accepting with
  | error f => exact refl e
  | ok u =>
    cases u
    have hw : TurnsTo e (e.openWait n).2 := aside (by rfl) (by rfl) (by rfl)
    dsimp only
    generalize e.openWait n = se at hw
    obtain ⟨slot, e₁⟩ := se
    dsimp only
    -- the members are posted one after the other, then the pool runs
    have hpost := quiet (Grows.foldl (fun e i => (Grows.post e scope q ⟨.member slot (task slot i), none, none⟩))
      (List.range n) e₁) (Accounted.foldl (fun e i => Accounted.post e scope q _) _ _)
    refine hw.trans (hpost.trans ?_)
    split <;> exact runPool _

theorem dispatchMain (e : Engine) (slot : Nat) : TurnsTo e (e.dispatchMain slot).2 := by
  unfold Engine.dispatchMain
  split
  · exact refl e
  · refine (quiet (Grows.fireTimers e) (Accounted.fireTimers e)).trans ?_
    dsimp only
    split <;> exact runBothFor _ _

end TurnsTo

/-- Every move of the engine is a run of turns: each of its calls, each step of a worker, and a
pool worker's fatal failure. -/
theorem Act.turnsTo {e e' : Engine} {F : List Flow} (a : Act e F e') : TurnsTo e e' := by
  cases a with
  | dispatchAsync scope q t =>
    exact .quiet (Grows.dispatchAsync e scope q t) (Accounted.dispatchAsync e scope q t)
  | step w h => exact .stepWorker h
  | fail h => exact .turn (.fail h)
  | suspend id => exact .quiet (k := none) (Grows.of_workers rfl) (Accounted.modifySerial_of_tasks e id fun _ => rfl)
  | resume id => exact .quiet (Grows.resume e id) (Accounted.resume e id)
  | retain id => exact .quiet (Grows.retain e id) (Accounted.retain e id)
  | release id => exact .quiet (Grows.release e id) (Accounted.release e id)
  | setDisposer id t => exact .quiet (k := none) (Grows.of_workers rfl) (Accounted.setDisposer e id t)
  | setTarget id onto => exact .quiet (Grows.setTarget e id onto) (Accounted.setTarget e id onto)
  | assignTo c w => exact .quiet (Grows.assignTo e c w none) (Accounted.assignTo e c w)
  | createSerial label prio options =>
    exact .quiet (k := none) (Grows.of_workers rfl) (Accounted.createSerial e label prio options)
  | createPartitioned label k options =>
    exact .quiet (Grows.createPartitioned e label k options) (Accounted.createPartitioned e label k options)
  | register scope label fn options =>
    exact .quiet (Grows.register e scope label fn options none) (Accounted.register e scope label fn options)
  | requestDispatch scope c =>
    exact .quiet (Grows.requestDispatch e scope c) (Accounted.requestDispatch e scope c)
  | closeContext c => exact .quiet (Grows.closeContext e c) (Accounted.closeContext e c)
  | start => exact .start e
  | stop => exact .stop e
  | runGroup scope q k task => exact .runGroup e scope q k task
  | dispatchAfter q t delay => exact .quiet (Grows.dispatchAfter e q t delay) (Accounted.dispatchAfter e q t delay)
  | schedule scope t delay => exact .quiet (Grows.schedule e scope t delay) (Accounted.schedule e scope t delay)
  | runPool => exact .runPool e
  | dispatchMain slot => exact .dispatchMain e slot
  | newCell => exact .aside rfl rfl rfl
  | openWait k => exact .aside rfl rfl rfl

/-! ## The stopping job runs last -/

/-- What stood before the first `a` of a list stands before the `a` that ends a prefix of it. -/
theorem prefix_of_ahead {α : Type} {taken pre r s : List α} {a : α} (h : taken ++ a :: r = pre ++ a :: s)
    (ha : a ∉ pre) : pre <+: taken := by
  rcases List.append_eq_append_iff.mp h with ⟨as, hpre, hrest⟩ | ⟨bs, htaken, -⟩
  · cases as with
    | nil => exact ⟨[], by rw [hpre, List.append_nil, List.append_nil]⟩
    | cons b as =>
      -- the `a` after `taken` would stand in `pre`
      obtain ⟨rfl, -⟩ := List.cons_eq_cons.mp hrest
      exact absurd (by rw [hpre]; simp) ha
  · exact ⟨bs, htaken.symm⟩

/-- The stopping job of a pool worker runs after everything that was ahead of it. When the worker
takes its stopping job off its low shared list, where the shutdown put it, its high and normal
queues, the high and normal shared queues and its low local list are all empty; and along every
run up to that step, every item that stood ahead of the job on the list has been taken and run
by the worker, in order. A stopping job run by any other worker changes nothing. -/
theorem stopping_job_runs_last :
    (∀ {e e₁ : Engine} {T : List (Option (WorkerId × Item))}, e.LanesWF → Turns e T e₁ →
      ∀ {i : Nat} {scope : Scope} {job : Item} {e₂ : Engine}, job.job = .pill i →
        e₁.nextItem (.pool i) = some (scope, job, e₂) → e₁.lowShared i = job :: e₂.lowShared i →
        (∃ wk, e₁.workers[i]? = some wk ∧ (wk.lanes.get .high).toList = [] ∧
          (wk.lanes.get .normal).toList = [] ∧ (wk.lanes.get .low).mine.toList = [] ∧
          (e₁.global.get .high).toList = [] ∧ (e₁.global.get .normal).toList = []) ∧
        ∀ pre post, e.lowShared i = pre ++ job :: post → job ∉ pre →
          pre.Sublist (takenBy (.pool i) T)) ∧
    ∀ (fuel : Nat) (scope : Scope) (j : Nat) (c x : Option Nat) (e : Engine),
      scope.worker ≠ some (.pool j) → runJob fuel scope ⟨.pill j, c, x⟩ e = e := by
  refine ⟨fun hwf ts i _ _ _ _ hn hfront => ⟨nextItem_off_lowShared (ts.lanesWF hwf) hn hfront, ?_⟩, ?_⟩
  · intro pre post hpre hnot
    rcases ts.fifo i with ⟨taken, added, hs, heq⟩ | ⟨hnil, -⟩
    · -- the job stands first now, so what stood ahead of it has been taken
      rw [hfront, hpre, List.append_assoc, List.cons_append] at heq
      exact (prefix_of_ahead heq hnot).sublist.trans hs
    · rw [hnil] at hfront
      cases hfront
  · intro fuel scope j c x e hw
    cases fuel with
    | zero => rfl
    | succ fuel => simp [runJob, hw]

/-- A worker whose stopping job is all its low shared list holds takes it with nothing left to
look at first; the job run outside its worker changes nothing. -/
theorem stopping_job_alone :
    ∃ (e e₂ : Engine) (scope : Scope),
      e.LanesWF ∧ e.nextItem (.pool 0) = some (scope, ⟨.pill 0, none, none⟩, e₂) ∧
      e.lowShared 0 = ⟨.pill 0, none, none⟩ :: e₂.lowShared 0 ∧
      (∃ wk, e.workers[0]? = some wk ∧ (wk.lanes.get .high).toList = [] ∧
        (wk.lanes.get .normal).toList = [] ∧ (wk.lanes.get .low).mine.toList = [] ∧
        (e.global.get .high).toList = [] ∧ (e.global.get .normal).toList = []) ∧
      ([] : List Item).Sublist (takenBy (.pool 0) []) ∧
      runJob 1 Scope.outside ⟨.pill 0, none, none⟩ e = e := by
  -- one pool worker, with its stopping job posted to its low queue from outside
  let e₀ : Engine := {
    label := "d", threads := 1, failAt := none, uniqueTag := "t"
    global := PerPriority.uniform Linked.empty, main := Worker.create "d-main", mainQueue := 0
    workers := #[Worker.create "d-0"], live := [0], next := 0, serials := #[], contexts := #[]
    started := true, shutdown := true, counters := ⟨0, 0, 0, 0, 0⟩, balancer := Balancer.inert
    timer := Timer.fresh, clock := 0, waits := #[], journal := #[], cells := #[] }
  have hwf₀ : e₀.LanesWF := by
    intro w wk hw p
    cases w with
    | main => cases hw; cases p <;> exact Chunked.wf_empty
    | pool i =>
      cases i with
      | zero => cases hw; cases p <;> exact Chunked.wf_empty
      | succ i => cases hw
  let e := e₀.pushThread Scope.outside (.pool 0) .low ⟨.pill 0, none, none⟩
  have hwf : e.LanesWF := LanesWF.pushThread _ hwf₀
  let r := (e.nextItem (.pool 0)).getD (Scope.outside, ⟨.pill 0, none, none⟩, e)
  have hn : e.nextItem (.pool 0) = some (r.1, ⟨.pill 0, none, none⟩, r.2.2) := rfl
  have hfront : e.lowShared 0 = ⟨.pill 0, none, none⟩ :: r.2.2.lowShared 0 := by
    have hbefore : e.lowShared 0 = [⟨.pill 0, none, none⟩] := rfl
    -- the list after the take is read in the kernel: the elaborator unfolds the queue slowly
    have hafter : r.2.2.lowShared 0 = [] := List.isEmpty_iff.mp (by decide +kernel)
    rw [hbefore, hafter]
  have hlast := stopping_job_runs_last.1 hwf (.nil e)
    (show (⟨.pill 0, none, none⟩ : Item).job = .pill 0 from rfl) hn hfront
  exact ⟨e, r.2.2, r.1, hwf, hn, hfront, hlast.1, hlast.2 [] [] rfl List.not_mem_nil,
    stopping_job_runs_last.2 1 Scope.outside 0 none none e (by simp [Scope.outside])⟩

end Engine

end Courier.Dispatch
