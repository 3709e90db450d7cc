import Courier.Proofs.Dispatch.Traced

/-!
# Serial queues start their items in order, each once

An item joins a serial queue at its end, and a drain takes items only from the front. So along
every run of the engine, whatever the retargeting, the contexts moving between workers, the
suspensions and the workers leaving do, the items a serial queue has started, followed by the
items it holds, are exactly the items that joined it, in the order they joined: the started
items are a prefix of the enqueued ones, none starts twice, none is skipped and none overtakes
another.

- `Engine.waiting`, `enqueuedOn`, `startedOn`: a queue's items now, and those that joined and
  started along a run;
- `Conserves`: a call keeps every queue's items in order; `Conserves.append` chains two calls;
- `Conserves.enqueue`, `Conserves.take`: the two moves of an item, at the end and at the front;
- `Conserves.postWithin`, `Conserves.drainItems`, `Conserves.runJob`, `Conserves.stepWorker`,
  `Traced.Call.conserves`: every traced function and call conserves;
- `Engine.History`: the runs of the engine from its creation, with their events, and
  `Engine.History.serial_fifo`: in every run each serial queue's started items, followed by its
  waiting items, are its enqueued items.
-/

set_option autoImplicit false

namespace Courier.Dispatch

open Courier.Queue Courier.Hash

/-! ## The items of a serial queue -/

namespace Engine

variable {e : Engine}

/-- The items waiting in serial queue `q`, front first; none for a queue the engine lacks. -/
def waiting (e : Engine) (q : Nat) : List Item :=
  match e.serials[q]? with
  | some s => s.tasks.toList
  | none => []

theorem waiting_self {id : Nat} {s : Serial} (hs : e.serials[id]? = some s) :
    e.waiting id = s.tasks.toList := by
  simp only [waiting, hs]

/-- What waits is read off the serial queues alone. -/
theorem waiting_of_serials {e' : Engine} (h : e'.serials = e.serials) : e'.waiting = e.waiting := by
  funext q; simp only [waiting, h]

theorem waiting_modifySerial (id : Nat) (f : Serial → Serial) (q : Nat) :
    (e.modifySerial id f).waiting q =
      if id = q then ((e.serials[q]?).map fun s => (f s).tasks.toList).getD [] else e.waiting q := by
  unfold waiting
  rw [serials_modifySerial, Array.getElem?_modify]
  by_cases h : id = q
  · subst h
    simp only [↓reduceIte]
    cases e.serials[id]? <;> rfl
  · simp only [h, ↓reduceIte]

/-- A change to a serial queue that keeps its items keeps what waits. -/
theorem waiting_modifySerial_of_tasks (id : Nat) {f : Serial → Serial} (hf : ∀ s, (f s).tasks = s.tasks) :
    (e.modifySerial id f).waiting = e.waiting := by
  funext q
  rw [waiting_modifySerial]
  split
  · rename_i h
    subst h
    unfold waiting
    cases e.serials[id]? <;> simp only [Option.map_some, Option.map_none, Option.getD_some,
      Option.getD_none, hf]
  · rfl

/-- A fresh serial queue holds nothing. -/
theorem waiting_of_push {e' : Engine} {s : Serial} (h : e'.serials = e.serials.push s)
    (hs : s.tasks.toList = []) : e'.waiting = e.waiting := by
  funext q
  unfold waiting
  rw [h, Array.getElem?_push]
  by_cases hq : q = e.serials.size
  · subst hq
    simp only [↓reduceIte, hs, Array.getElem?_eq_none (Nat.le_refl _)]
  · simp only [hq, ↓reduceIte]

@[simp] theorem waiting_modifyWorker (w : WorkerId) (f : Worker → Worker) :
    (e.modifyWorker w f).waiting = e.waiting :=
  waiting_of_serials (by cases w <;> rfl)

@[simp] theorem waiting_pushThread (scope : Scope) (w : WorkerId) (p : Priority) (it : Item) :
    (e.pushThread scope w p it).waiting = e.waiting := by
  unfold pushThread
  split
  · rfl
  · split <;> exact waiting_modifyWorker _ _

theorem waiting_followCaller (scope : Scope) (id : Nat) : (e.followCaller scope id).waiting = e.waiting := by
  rw [followCaller_eq]
  exact waiting_modifySerial_of_tasks id fun s => (retargets_follow scope s).1

theorem size_followCaller (scope : Scope) (id : Nat) :
    (e.followCaller scope id).serials.size = e.serials.size := by
  rw [followCaller_eq, serials_modifySerial, Array.size_modify]

@[simp] theorem waiting_assignTo (c w : Nat) : (e.assignTo c w).waiting = e.waiting := by
  unfold assignTo
  split
  · split
    · rfl
    · exact waiting_modifySerial_of_tasks _ fun _ => rfl
  · rfl

theorem waiting_observe (c : Nat) (it : Item) : (e.observe c it).waiting = e.waiting := by
  unfold observe
  split
  · rfl
  · dsimp only
    split
    · exact waiting_assignTo _ _
    · rfl

theorem waiting_chooseWorker (scope : Scope) : (e.chooseWorker scope).2.waiting = e.waiting := by
  rcases e.chooseWorker_snd scope with he | he <;> rw [he] <;> rfl

theorem waiting_register (scope : Scope) (label : String) (fn : Option Task) (options : QueueOptions) :
    (e.register scope label fn options).2.waiting = e.waiting := by
  have hc := waiting_chooseWorker (e := e) scope
  unfold register
  dsimp only
  generalize e.chooseWorker scope = r at hc
  obtain ⟨w, e1⟩ := r
  cases w with
  | error f => exact hc
  | ok w => exact (waiting_of_push rfl Linked.toList_empty).trans hc

theorem waiting_createSerial (label : String) (prio : Priority) (options : QueueOptions) :
    (e.createSerial label prio options).2.waiting = e.waiting :=
  waiting_of_push rfl Linked.toList_empty

theorem waiting_createPartitioned (label : String) (k : Int) (options : QueueOptions) :
    (e.createPartitioned label k options).2.waiting = e.waiting := by
  unfold createPartitioned
  split
  · rfl
  · dsimp only
    generalize (if label.isEmpty then e.freshLabel "partitioned" else label) = name
    generalize (⟨name, Ring.create defaultReplicas, []⟩ : Partitioned) = pq
    generalize List.range k.toNat = is
    induction is generalizing pq e with
    | nil => rfl
    | cons i is ih => exact (ih _).trans (waiting_createSerial _ _ _)

theorem serials_takeAt {w : WorkerId} {p : Priority} {scope : Scope} {it : Item} {e' : Engine}
    (ht : e.takeAt w p = some (scope, it, e')) : e'.serials = e.serials := by
  unfold takeAt at ht
  split at ht
  · simp at ht
  · split at ht
    · simp only [Option.some.injEq, Prod.mk.injEq] at ht
      obtain ⟨-, -, rfl⟩ := ht
      cases w <;> rfl
    · split at ht
      · simp at ht
      · split at ht
        · simp only [Option.some.injEq, Prod.mk.injEq] at ht
          obtain ⟨-, -, rfl⟩ := ht
          rfl
        · simp at ht

theorem serials_handOver (w : WorkerId) : (e.handOver w).serials = e.serials := by
  unfold handOver
  generalize Priority.all = ps
  induction ps generalizing e with
  | nil => rfl
  | cons p ps ih =>
    refine ih.trans ?_
    dsimp only
    split
    · -- the lane's items go to the shared queue one by one
      rename_i wk _
      have h1 : (e.modifyWorker w fun wk => { wk with lanes := wk.lanes.set p Lane.empty }).serials =
          e.serials := by
        cases w <;> rfl
      generalize (wk.lanes.get p).toList = items
      generalize e.modifyWorker w (fun wk => { wk with lanes := wk.lanes.set p Lane.empty }) = e1 at h1 ⊢
      induction items generalizing e1 with
      | nil => exact h1
      | cons it items ih' => exact ih' _ h1
    · rfl

/-- The orphaned contexts move to the heir, which retargets their queues only. -/
theorem waiting_adoptOrphans (i : Nat) : (e.adoptOrphans i).waiting = e.waiting :=
  adoptOrphans_induction (P := fun e' => e'.waiting = e.waiting) i rfl rfl
    fun _ c _ h => (waiting_assignTo c _).trans h

theorem waiting_exitWorker (i : Nat) : (e.exitWorker i).waiting = e.waiting := by
  have h1 : ((e.modifyWorker (.pool i) fun wk => { wk with status := .terminated }).handOver
      (.pool i)).waiting = e.waiting :=
    (waiting_of_serials (serials_handOver _)).trans (waiting_modifyWorker _ _)
  unfold exitWorker
  dsimp only
  generalize (e.modifyWorker (.pool i) fun wk => { wk with status := .terminated }).handOver
    (.pool i) = e1 at h1 ⊢
  split
  · exact h1
  · exact (waiting_adoptOrphans i).trans h1

theorem waiting_retain (id : Nat) : (e.retain id).2.waiting = e.waiting := by
  unfold retain
  split
  · rfl
  · dsimp only
    split <;> exact waiting_modifySerial_of_tasks id fun _ => rfl

theorem waiting_setTarget (id : Nat) (onto : Option QueueRef) :
    (e.setTarget id onto).2.waiting = e.waiting := by
  unfold setTarget
  split
  · rfl
  · dsimp only
    split
    · rfl
    · exact waiting_modifySerial_of_tasks id fun _ => rfl

theorem waiting_dispatchAfter (q : QueueRef) (t : Task) (delay : Int) :
    (e.dispatchAfter q t delay).2.waiting = e.waiting := by
  unfold dispatchAfter
  split <;> rfl

/-- A new engine holds nothing in its serial queue. -/
theorem waiting_create {s : Settings} {cpus : Nat} {b : Balancer Nat} {failAt : Option Nat}
    {tag : String} {clock : Int} (h : Engine.create s cpus b failAt tag clock = .ok e) (q : Nat) :
    e.waiting q = [] := by
  unfold Engine.create at h
  cases hv : s.validate with
  | error f => simp [hv] at h
  | ok u =>
    simp only [hv] at h
    obtain rfl := Except.ok.inj h
    cases q with
    | zero => rfl
    | succ q => simp [waiting]

end Engine

/-! ## The items that join and start -/

/-- The item an event puts into serial queue `q`. -/
def Event.joins (q : Nat) : Event → Option Item
  | .enq q' it => if q' = q then some it else none
  | .start _ _ => none

/-- The item an event starts from serial queue `q`. -/
def Event.starts (q : Nat) : Event → Option Item
  | .start q' it => if q' = q then some it else none
  | .enq _ _ => none

/-- The items that joined serial queue `q`, in the order they joined. -/
def enqueuedOn (q : Nat) (E : List Event) : List Item := E.filterMap (Event.joins q)

/-- The items that serial queue `q` started, in the order they started. -/
def startedOn (q : Nat) (E : List Event) : List Item := E.filterMap (Event.starts q)

@[simp] theorem enqueuedOn_nil (q : Nat) : enqueuedOn q [] = [] := rfl

@[simp] theorem startedOn_nil (q : Nat) : startedOn q [] = [] := rfl

@[simp] theorem enqueuedOn_append (q : Nat) (E E' : List Event) :
    enqueuedOn q (E ++ E') = enqueuedOn q E ++ enqueuedOn q E' :=
  List.filterMap_append

@[simp] theorem startedOn_append (q : Nat) (E E' : List Event) :
    startedOn q (E ++ E') = startedOn q E ++ startedOn q E' :=
  List.filterMap_append

/-- A call from `e` that ends in `r.1` with events `r.2` keeps every serial queue in order: the
items that waited and then joined are the items that started and then wait. -/
def Conserves (e : Engine) (r : Engine × List Event) : Prop :=
  ∀ q, e.waiting q ++ enqueuedOn q r.2 = startedOn q r.2 ++ r.1.waiting q

namespace Conserves

variable {e : Engine}

/-- A change that keeps every queue's items, with no events. -/
theorem of_waiting {e' : Engine} (h : e'.waiting = e.waiting) : Conserves e (e', []) := by
  intro q; simp [h]

/-- One call after another. -/
theorem append {r r' : Engine × List Event} (h : Conserves e r) (h' : Conserves r.1 r') :
    Conserves e (r'.1, r.2 ++ r'.2) := by
  intro q
  calc e.waiting q ++ enqueuedOn q (r.2 ++ r'.2)
      = (e.waiting q ++ enqueuedOn q r.2) ++ enqueuedOn q r'.2 := by simp
    _ = startedOn q r.2 ++ (r.1.waiting q ++ enqueuedOn q r'.2) := by rw [h q, List.append_assoc]
    _ = startedOn q (r.2 ++ r'.2) ++ r'.1.waiting q := by rw [h' q]; simp

/-- A call after a change that keeps every queue's items. -/
theorem before {e' : Engine} {r : Engine × List Event} (h : Conserves e' r)
    (he : e'.waiting = e.waiting) : Conserves e r := by
  intro q; rw [← he]; exact h q

/-- A change that keeps every queue's items, after a call. -/
theorem after {r : Engine × List Event} (h : Conserves e r) {e' : Engine}
    (h' : e'.waiting = r.1.waiting) : Conserves e (e', r.2) := by
  intro q; rw [h']; exact h q

/-- An item joins the end of a serial queue the engine has. -/
theorem enqueue {id : Nat} (hid : id < e.serials.size) (it : Item) {f : Serial → Serial}
    (hf : ∀ s, (f s).tasks = s.tasks.push it) : Conserves e (e.modifySerial id f, [.enq id it]) := by
  intro q
  rw [Engine.waiting_modifySerial]
  by_cases hq : id = q
  · subst hq
    rw [Engine.waiting_self (Array.getElem?_eq_getElem hid)]
    simp [enqueuedOn, startedOn, Event.joins, Event.starts, Array.getElem?_eq_getElem hid, hf]
  · simp [enqueuedOn, startedOn, Event.joins, Event.starts, hq]

/-- A drain takes the front item of its queue and starts it. -/
theorem take {id : Nat} {s : Serial} (hs : e.serials[id]? = some s) {it : Item} {rest : Linked Item}
    (hpop : s.tasks.pop = (some it, rest)) :
    Conserves e (e.modifySerial id fun s => { s with tasks := rest }, [.start id it]) := by
  have htasks : s.tasks.toList = it :: rest.toList := by
    have h1 := Linked.pop_fst s.tasks
    have h2 := Linked.toList_pop s.tasks
    rw [hpop] at h1 h2
    cases hl : s.tasks.toList with
    | nil => rw [hl] at h1; simp at h1
    | cons a t => rw [hl] at h1 h2; simp_all
  intro q
  rw [Engine.waiting_modifySerial]
  by_cases hq : id = q
  · subst hq
    simp [Engine.waiting_self hs, htasks, enqueuedOn, startedOn, Event.joins, Event.starts, hs]
  · simp [enqueuedOn, startedOn, Event.joins, Event.starts, hq]

/-! ## Every traced function conserves -/

/-- Posting the drain of a queue conserves when the post does. -/
theorem triggerWith {post : Engine → Scope → QueueRef → Item → Engine × List Event}
    (hpost : ∀ e scope q it, Conserves e (post e scope q it)) (e : Engine) (scope : Scope) (id : Nat) :
    Conserves e (Traced.triggerWith post e scope id) := by
  unfold Traced.triggerWith
  split
  · split
    · exact of_waiting rfl
    · exact (hpost _ _ _ _).before (Engine.waiting_modifySerial_of_tasks id fun _ => rfl)
  · exact of_waiting rfl

theorem postWithin : ∀ (hops : Nat) (e : Engine) (scope : Scope) (q : QueueRef) (it : Item),
    Conserves e (Traced.postWithin hops e scope q it)
  | hops, _, _, .global _, _ => by cases hops <;> exact of_waiting rfl
  | hops, _, _, .thread _ _, _ => by cases hops <;> exact of_waiting (Engine.waiting_pushThread _ _ _ _)
  | 0, _, _, .serial _, _ => of_waiting rfl
  | hops + 1, e, scope, .serial id, it => by
    simp only [Traced.postWithin]
    cases hs : e.serials[id]? with
    | none => exact of_waiting rfl
    | some s =>
      dsimp only
      -- the queue may first move to the calling worker, which keeps its items
      have hw : (if s.options.stickToCaller then e.followCaller scope id else e).waiting = e.waiting := by
        split
        · exact Engine.waiting_followCaller scope id
        · rfl
      have hid : id < (if s.options.stickToCaller then e.followCaller scope id else e).serials.size := by
        have hlt : id < e.serials.size := (Array.getElem?_eq_some_iff.mp hs).1
        split
        · rw [Engine.size_followCaller]; exact hlt
        · exact hlt
      generalize (if s.options.stickToCaller then e.followCaller scope id else e) = e1 at hw hid ⊢
      generalize (if s.pooled.isSome && !it.internal then
          { it with caller := scope.poolWorker, callerCtx := scope.pooled } else it) = it'
      have hjoin := (enqueue hid it' (f := fun s =>
        { s with tasks := s.tasks.push it', size := s.size + 1 }) fun _ => rfl).before hw
      split
      · exact hjoin.append (triggerWith (postWithin hops) _ scope id)
      · exact hjoin

theorem post (e : Engine) (scope : Scope) (q : QueueRef) (it : Item) :
    Conserves e (Traced.post e scope q it) :=
  postWithin _ e scope q it

theorem trigger (e : Engine) (scope : Scope) (id : Nat) : Conserves e (Traced.trigger e scope id) :=
  triggerWith (postWithin _) e scope id

theorem dispatchAsync (e : Engine) (scope : Scope) (q : QueueRef) (t : Task) :
    Conserves e (Traced.dispatchAsync e scope q t) :=
  post e scope q _

theorem requestDispatch (e : Engine) (scope : Scope) (c : Nat) :
    Conserves e (Traced.requestDispatch e scope c) := by
  unfold Traced.requestDispatch
  split
  · split
    · split
      · exact of_waiting rfl
      · exact (dispatchAsync _ _ _ _).before rfl
    · exact of_waiting rfl
  · exact of_waiting rfl

theorem perform (scope : Scope) : ∀ (t : Task) (e : Engine),
    Conserves e ((Traced.perform e scope t).1.1, (Traced.perform e scope t).2)
  | .seq a b, e => by
    have ha := perform scope a e
    simp only [Traced.perform]
    split
    · rename_i e1 m hr
      rw [hr] at ha
      exact ha
    · rename_i e1 hr
      rw [hr] at ha
      exact ha.append (perform scope b e1)
  | .request c, e => requestDispatch e scope c
  | .post q t, e => dispatchAsync e scope q t
  | .register _ label fn opts, e => of_waiting (Engine.waiting_register scope label fn opts)
  | .noop, _ | .fail _, _ | .log _ _, _ | .add _ _, _ | .probe _, _ | .cancel _, _
  | .closeTracker _, _ | .clearPending _, _ => of_waiting rfl

theorem execute (e : Engine) (scope : Scope) (it : Item) : Conserves e (Traced.execute e scope it) := by
  unfold Traced.execute
  cases it.job with
  | task t =>
    have h := perform scope t e
    dsimp only
    split
    · rename_i e1 m hr
      rw [hr] at h
      exact h.after rfl
    · rename_i e1 hr
      rw [hr] at h
      exact h
  | member slot t => exact (perform scope t e).after rfl
  | drain _ | pill _ => exact of_waiting rfl

/-- A drain's items: each is taken from the front and run, by a runner that conserves. -/
theorem drainItems {run : Scope → Item → Engine → Engine × List Event}
    (hrun : ∀ scope it e, Conserves e (run scope it e)) (qscope : Scope) (id : Nat) :
    ∀ (n : Nat) (e : Engine) (done : Nat),
      Conserves e ((Traced.drainItems run qscope id n e done).1.1,
        (Traced.drainItems run qscope id n e done).2)
  | 0, _, _ => of_waiting rfl
  | n + 1, e, done => by
    unfold Traced.drainItems
    cases hs : e.serials[id]? with
    | none => exact of_waiting rfl
    | some s =>
      dsimp only
      split
      · exact of_waiting rfl
      · cases hpop : s.tasks.pop with
        | mk o rest =>
          cases o with
          | none => exact of_waiting rfl
          | some it =>
            dsimp only
            have htake := take hs hpop
            split
            · exact htake.append ((hrun _ _ _).append (drainItems hrun qscope id n _ _))
            · -- an item of a context's queue is shown to the balancer first
              cases s.pooled with
              | none => exact htake.append ((execute _ _ _).append (drainItems hrun qscope id n _ _))
              | some c =>
                exact htake.append (((execute _ _ _).before (Engine.waiting_observe c it)).append
                  (drainItems hrun qscope id n _ _))

theorem drainBound {run : Scope → Item → Engine → Engine × List Event}
    (hrun : ∀ scope it e, Conserves e (run scope it e)) (e : Engine) (scope : Scope) (id : Nat)
    (s : Serial) : Conserves e (Traced.drainBound run e scope id s) := by
  have h0 := drainItems hrun { scope with queue := some (.serial id), pooled := s.pooled <|> scope.pooled }
    id s.size.toNat e 0
  unfold Traced.drainBound
  dsimp only
  generalize Traced.drainItems run { scope with queue := some (.serial id), pooled := s.pooled <|> scope.pooled }
    id s.size.toNat e 0 = r at h0 ⊢
  obtain ⟨⟨e1, done⟩, E⟩ := r
  -- the drain is over: the queue is idle, its size less what was taken
  have h1 : Conserves e (e1.modifySerial id fun s => { s with size := s.size - done, triggered := false }, E) :=
    h0.after (Engine.waiting_modifySerial_of_tasks id fun _ => rfl)
  dsimp only
  split
  · split
    · exact h1.append (trigger _ _ _)
    · exact h1
  · exact h1

theorem drainWith {run : Scope → Item → Engine → Engine × List Event}
    (hrun : ∀ scope it e, Conserves e (run scope it e)) (e : Engine) (scope : Scope) (id : Nat) :
    Conserves e (Traced.drainWith run e scope id) := by
  unfold Traced.drainWith
  split
  · exact of_waiting rfl
  · -- a queue bound to its first drainer binds to this worker, which keeps its items
    split
    · split
      · exact (drainBound hrun _ _ _ _).before (Engine.waiting_modifySerial_of_tasks id fun _ => rfl)
      · exact drainBound hrun _ _ _ _
    · exact drainBound hrun _ _ _ _

theorem runJob : ∀ (fuel : Nat) (scope : Scope) (it : Item) (e : Engine),
    Conserves e (Traced.runJob fuel scope it e)
  | 0, _, _, _ => of_waiting rfl
  | fuel + 1, scope, it, e => by
    unfold Traced.runJob
    cases it.job with
    | drain id => exact drainWith (runJob fuel) e scope id
    | pill w =>
      refine of_waiting ?_
      split
      · exact Engine.waiting_modifyWorker _ _
      · rfl
    | task _ | member _ _ => exact execute e scope it

theorem stepWorker {e : Engine} {w : WorkerId} {r : Engine × List Event}
    (h : Traced.stepWorker e w = some r) : Conserves e r := by
  unfold Traced.stepWorker at h
  split at h
  · simp at h
  · rename_i scope it e1 hn
    obtain ⟨p, hp⟩ := Engine.nextItem_eq_some hn
    have h1 := (runJob e1.nestingDepth scope it e1).before
      (Engine.waiting_of_serials (Engine.serials_takeAt hp))
    cases w with
    | main => obtain rfl := Option.some.inj h; exact h1
    | pool i =>
      dsimp only at h
      split at h
      · obtain rfl := Option.some.inj h
        split
        · exact h1.after (Engine.waiting_exitWorker i)
        · exact h1
      · obtain rfl := Option.some.inj h; exact h1

/-- Calls made one after another from a list, each adding its events, conserve. -/
theorem foldl {α : Type} {F : Engine × List Event → α → Engine × List Event}
    (hF : ∀ r a, Conserves e r → Conserves e (F r a)) :
    ∀ (l : List α) (r : Engine × List Event), Conserves e r → Conserves e (l.foldl F r)
  | [], _, h => h
  | a :: l, r, h => foldl hF l (F r a) (hF r a h)

theorem fireTimers (e : Engine) : Conserves e (Traced.fireTimers e) := by
  unfold Traced.fireTimers
  generalize e.timer.advance (e.clock + Engine.timerHorizon) = tj
  obtain ⟨t, jobs⟩ := tj
  refine foldl (fun r j h => ?_) jobs _ (of_waiting rfl)
  obtain ⟨q, task⟩ := j
  exact (h.append (dispatchAsync r.1 Scope.outside q task)).after rfl

theorem runPoolFor : ∀ (k : Nat) (e : Engine), Conserves e (Traced.runPoolFor k e)
  | 0, _ => of_waiting rfl
  | k + 1, e => by
    unfold Traced.runPoolFor
    split
    · rename_i r hr
      obtain ⟨i, -, hi⟩ := List.exists_of_findSome?_eq_some hr
      exact (stepWorker hi).append (runPoolFor k r.1)
    · exact of_waiting rfl

theorem runPool (e : Engine) : Conserves e (Traced.runPool e) :=
  (fireTimers e).append (runPoolFor _ _)

theorem runBothFor : ∀ (k : Nat) (e : Engine), Conserves e (Traced.runBothFor k e)
  | 0, _ => of_waiting rfl
  | k + 1, e => by
    unfold Traced.runBothFor
    split
    · rename_i r hr
      exact (stepWorker hr).append (runBothFor k r.1)
    · split
      · rename_i r hr
        obtain ⟨i, -, hi⟩ := List.exists_of_findSome?_eq_some hr
        exact (stepWorker hi).append (runBothFor k r.1)
      · exact of_waiting rfl

theorem stopAll (e : Engine) : Conserves e (Traced.stopAll e) := by
  have hpills : ∀ (l : List Nat) (e1 : Engine), (l.foldl (fun e i =>
      e.pushThread Scope.outside (.pool i) .low ⟨.pill i, none, none⟩) e1).waiting = e1.waiting := by
    intro l
    induction l with
    | nil => intro _; rfl
    | cons i l ih => intro e1; rw [List.foldl_cons, ih, Engine.waiting_pushThread]
  -- every worker gets its stopping job, then the pool runs until all have left
  have h1 := (runPool ((List.range e.workers.size).foldl (fun e i =>
    e.pushThread Scope.outside (.pool i) .low ⟨.pill i, none, none⟩) { e with shutdown := true })).before
    (hpills _ _)
  refine h1.after ?_
  rw [Traced.runPool_fst]
  rfl

theorem startWorkers : ∀ (e : Engine) (i n : Nat), Conserves e (Traced.startWorkers e i n)
  | _, _, 0 => of_waiting rfl
  | e, i, n + 1 => by
    unfold Traced.startWorkers
    dsimp only
    split
    · exact (stopAll _).before (Engine.waiting_modifyWorker _ _)
    · exact (startWorkers _ (i + 1) n).before rfl

theorem start (e : Engine) : Conserves e (Traced.start e) := by
  unfold Traced.start
  split
  · exact of_waiting rfl
  · split
    · exact of_waiting rfl
    · exact (startWorkers _ 0 _).before rfl

theorem stop (e : Engine) : Conserves e (Traced.stop e) := by
  unfold Traced.stop
  split
  · exact of_waiting rfl
  · exact stopAll e

theorem runGroup (e : Engine) (scope : Scope) (q : QueueRef) (n : Nat) (task : Nat → Nat → Task) :
    Conserves e (Traced.runGroup e scope q n task) := by
  unfold Traced.runGroup
  split
  · exact of_waiting rfl
  · have hw : (e.openWait n).2.waiting = e.waiting := rfl
    generalize e.openWait n = se at hw
    obtain ⟨slot, e1⟩ := se
    dsimp only
    -- the members are posted one after the other, then the pool runs
    exact (foldl (fun r i h => h.append (post r.1 scope q _)) _ _ (of_waiting hw)).append (runPool _)

theorem schedule (e : Engine) (scope : Scope) (task : Task) (delay : Int) :
    Conserves e (Traced.schedule e scope task delay) := by
  have hc := Engine.waiting_chooseWorker (e := e) scope
  unfold Traced.schedule
  generalize e.chooseWorker scope = r at hc
  obtain ⟨w, e1⟩ := r
  cases w with
  | error f => exact of_waiting hc
  | ok w =>
    dsimp only
    split
    · exact (dispatchAsync _ _ _ _).before hc
    · split
      · exact of_waiting hc
      · exact of_waiting hc

theorem resume (e : Engine) (id : Nat) : Conserves e (Traced.resume e id) := by
  unfold Traced.resume
  split
  · exact of_waiting rfl
  · dsimp only
    split
    · exact of_waiting rfl
    · split
      · exact (trigger _ _ _).before (Engine.waiting_modifySerial_of_tasks id fun _ => rfl)
      · exact of_waiting (Engine.waiting_modifySerial_of_tasks id fun _ => rfl)

theorem release (e : Engine) (id : Nat) : Conserves e (Traced.release e id) := by
  have h1 : ∀ n : Int32, (e.modifySerial id fun s => { s with refs := n }).waiting = e.waiting :=
    fun _ => Engine.waiting_modifySerial_of_tasks id fun _ => rfl
  unfold Traced.release
  split
  · exact of_waiting rfl
  · dsimp only
    split
    · exact of_waiting (h1 _)
    · split
      · exact of_waiting (h1 _)
      · -- the last hold is dropped: the disposer is posted to the queue
        split
        · exact (dispatchAsync _ _ _ _).before
            (Eq.trans (Engine.waiting_modifySerial_of_tasks id fun _ => rfl) (h1 _))
        · exact of_waiting (Eq.trans (Engine.waiting_modifySerial_of_tasks id fun _ => rfl) (h1 _))

theorem closeContext (e : Engine) (c : Nat) : Conserves e (Traced.closeContext e c) := by
  unfold Traced.closeContext
  split
  · exact of_waiting rfl
  · dsimp only
    split
    · exact of_waiting rfl
    · exact (release _ _).before (Engine.waiting_modifySerial_of_tasks _ fun _ => rfl)

theorem dispatchMain (e : Engine) : Conserves e (Traced.dispatchMain e) := by
  unfold Traced.dispatchMain
  split
  · exact of_waiting rfl
  · exact (fireTimers e).append (runBothFor _ _)

end Conserves

/-- Every call of the engine conserves. -/
theorem Traced.Call.conserves {e e' : Engine} {E : List Event} (c : Traced.Call e E e') :
    Conserves e (e', E) := by
  cases c with
  | dispatchAsync scope q t => exact Conserves.dispatchAsync e scope q t
  | step w h => exact Conserves.stepWorker h
  | suspend id => exact Conserves.of_waiting (Engine.waiting_modifySerial_of_tasks id fun _ => rfl)
  | resume id => exact Conserves.resume e id
  | retain id => exact Conserves.of_waiting (Engine.waiting_retain id)
  | release id => exact Conserves.release e id
  | setDisposer id t => exact Conserves.of_waiting (Engine.waiting_modifySerial_of_tasks id fun _ => rfl)
  | setTarget id onto _ => exact Conserves.of_waiting (Engine.waiting_setTarget id onto)
  | assignTo c w => exact Conserves.of_waiting (Engine.waiting_assignTo c w)
  | createSerial label prio options =>
    exact Conserves.of_waiting (Engine.waiting_createSerial label prio options)
  | createPartitioned label k options =>
    exact Conserves.of_waiting (Engine.waiting_createPartitioned label k options)
  | register scope label fn options =>
    exact Conserves.of_waiting (Engine.waiting_register scope label fn options)
  | requestDispatch scope c => exact Conserves.requestDispatch e scope c
  | closeContext c => exact Conserves.closeContext e c
  | start => exact Conserves.start e
  | stop => exact Conserves.stop e
  | runGroup scope q k task => exact Conserves.runGroup e scope q k task
  | dispatchAfter q t delay => exact Conserves.of_waiting (Engine.waiting_dispatchAfter q t delay)
  | schedule scope t delay => exact Conserves.schedule e scope t delay
  | runPool => exact Conserves.runPool e
  | dispatchMain => exact Conserves.dispatchMain e
  | newCell => exact Conserves.of_waiting rfl
  | openWait k => exact Conserves.of_waiting rfl

/-! ## Runs -/

namespace Engine

/-- The runs of the engine: made by `create`, then changed by its calls; with the events of the
calls, in order. -/
inductive History : Engine → List Event → Prop
  | create (s : Settings) (cpus : Nat) (b : Balancer Nat) (failAt : Option Nat) (tag : String)
      (clock : Int) {e : Engine} (h : Engine.create s cpus b failAt tag clock = .ok e) : History e []
  | call {e e' : Engine} {E E' : List Event} (h : History e E) (c : Traced.Call e E' e') :
      History e' (E ++ E')

/-- A run ends in a reachable engine. -/
theorem History.reachable {e : Engine} {E : List Event} (h : History e E) : e.Reachable := by
  induction h with
  | create s cpus b failAt tag clock hc => exact .create s cpus b failAt tag clock hc
  | call _ c ih => exact .call ih c.call

/-- Every reachable engine is the end of a run. -/
theorem Reachable.history {e : Engine} (h : e.Reachable) : ∃ E, History e E := by
  induction h with
  | create s cpus b failAt tag clock hc => exact ⟨[], .create s cpus b failAt tag clock hc⟩
  | call _ c ih =>
    obtain ⟨E, hE⟩ := ih
    obtain ⟨E', c'⟩ := c.traced
    exact ⟨_, .call hE c'⟩

/-- Serial queues start their items in order, each once. Along every run of the engine, the
items each serial queue has started, followed by the items it holds, are the items that joined
it, in the order they joined: so the started items are a prefix of the enqueued ones. -/
theorem History.serial_fifo {e : Engine} {E : List Event} (h : History e E) (q : Nat) :
    startedOn q E ++ e.waiting q = enqueuedOn q E := by
  induction h with
  | create s cpus b failAt tag clock hc => simp [waiting_create hc]
  | @call e e' E E' _ c ih =>
    have hc := c.conserves q
    calc startedOn q (E ++ E') ++ e'.waiting q
        = startedOn q E ++ (startedOn q E' ++ e'.waiting q) := by simp
      _ = startedOn q E ++ (e.waiting q ++ enqueuedOn q E') := by rw [← hc]
      _ = enqueuedOn q (E ++ E') := by rw [← List.append_assoc, ih, enqueuedOn_append]

/-- At creation nothing has joined or started the main queue. -/
theorem main_queue_fifo_at_creation :
    match Engine.create ⟨"", 1, 0, 0⟩ 1 Balancer.inert none "t" 0 with
    | .ok e => startedOn 0 [] ++ e.waiting 0 = enqueuedOn 0 []
    | .error _ => False :=
  History.serial_fifo (.create ⟨"", 1, 0, 0⟩ 1 Balancer.inert none "t" 0 rfl) 0

end Engine

end Courier.Dispatch
