import Courier.Proofs.Dispatch.Flow
import Courier.Proofs.Dispatch.Protocol
import Mathlib.Data.List.Perm.Subperm

/-!
# The queues lose and repeat no item

Beside each function of the engine that posts or takes items stands its flow (`FlowOf`): the
items it posts and takes, in order, computed from the same engines the function passes through.
Every function keeps every item (`Accounted`), and so does every move of the engine: each of its
calls, and a pool worker that fails fatally while it runs an item and leaves at once. Along every
run from the engine's creation, then, the items taken to run are among the items posted, none
more often than it was posted, and the items posted and not yet taken are exactly the items
waiting in the queues, each in one place.

- `FlowOf.postWithin`, `FlowOf.drainItems`, `FlowOf.stepWorker`, …: the flows;
- `Accounted.postWithin`, `Accounted.drainWith`, `Accounted.stepWorker`, …: each function keeps
  every item;
- `Engine.Act`, `Engine.Act.accounted`, `Engine.Call.act`: the moves of the engine, each
  keeping every item, and every call among them;
- `Engine.Run`, `Engine.Run.conserved`: the runs from creation, and what the queues keep along
  them.
-/

set_option autoImplicit false

namespace Courier.Dispatch

open Courier.Queue

namespace Engine

/-- A queue bound to its first drainer binds to the worker that drains it. -/
def pinTo (e : Engine) (scope : Scope) (id : Nat) (s : Serial) : Engine :=
  match scope.worker with
  | some w =>
    if s.options.stickToDrainer && !s.pinned then
      e.modifySerial id fun s => { s with pinned := true, target := .thread w s.prio }
    else e
  | none => e

/-- `Engine.drainWith` once the queue is bound to its worker: the queue's items, then another
drain if work is left. -/
def drainBound (run : Scope → Item → Engine → Engine) (e : Engine) (scope : Scope) (id : Nat)
    (s : Serial) : Engine :=
  let qscope := { scope with queue := some (.serial id), pooled := s.pooled <|> scope.pooled }
  let (e, done) := drainItems run qscope id s.size.toNat e 0
  let e := e.modifySerial id fun s => { s with size := s.size - done, triggered := false }
  match e.serials[id]? with
  | some s => if 0 < s.size && s.suspended == 0 then e.trigger scope id else e
  | none => e

/-- A drain binds its queue, then drains it. -/
theorem drainWith_eq (run : Scope → Item → Engine → Engine) (e : Engine) (scope : Scope) (id : Nat) :
    e.drainWith run scope id = match e.serials[id]? with
      | none => e
      | some s => (e.pinTo scope id s).drainBound run scope id s := rfl

end Engine

/-! ## The flows -/

namespace FlowOf

/-- The flow of a fold of the engine over a list: each change's flow, from the engine it starts
with. -/
def foldl {α : Type} (g : Engine → α → Engine) (flow : Engine → α → List Flow) :
    List α → Engine → List Flow
  | [], _ => []
  | a :: l, e => flow e a ++ foldl g flow l (g e a)

/-- The flow of `Engine.triggerWith`: that of the post of the drain. -/
def triggerWith (post : Engine → Scope → QueueRef → Item → List Flow) (e : Engine) (scope : Scope)
    (id : Nat) : List Flow :=
  match e.serials[id]? with
  | some s =>
    if s.triggered then []
    else post (e.modifySerial id fun s => { s with triggered := true }) scope s.target ⟨.drain id, none, none⟩
  | none => []

/-- The flow of `Engine.postWithin`: the item joins a queue, and drains may be posted along the
chain of targets. -/
def postWithin : Nat → Engine → Scope → QueueRef → Item → List Flow
  | _, _, _, .global _, it => [.post it]
  | _, _, _, .thread _ _, it => [.post it]
  | 0, _, _, .serial _, _ => []
  | hops + 1, e, scope, .serial id, it =>
    match e.serials[id]? with
    | none => []
    | some s =>
      let it := if s.pooled.isSome && !it.internal then
          { it with caller := scope.poolWorker, callerCtx := scope.pooled }
        else it
      let e := if s.options.stickToCaller then e.followCaller scope id else e
      let e := e.modifySerial id fun s => { s with tasks := s.tasks.push it, size := s.size + 1 }
      .post it :: if s.suspended == 0 then triggerWith (postWithin hops) e scope id else []

def post (e : Engine) (scope : Scope) (q : QueueRef) (it : Item) : List Flow :=
  postWithin (e.serials.size + 1) e scope q it

def trigger (e : Engine) (scope : Scope) (id : Nat) : List Flow :=
  triggerWith (postWithin e.serials.size) e scope id

def dispatchAsync (e : Engine) (scope : Scope) (q : QueueRef) (t : Task) : List Flow :=
  post e scope q ⟨.task t, none, none⟩

def requestDispatch (e : Engine) (scope : Scope) (c : Nat) : List Flow :=
  match e.contexts[c]? with
  | some ctx =>
    match ctx.dispatchable with
    | some fn =>
      if ctx.closed || ctx.pending then []
      else dispatchAsync (e.modifyContext c fun ctx => { ctx with pending := true }) scope
        (.serial ctx.queue) (.seq (.clearPending c) fn)
    | none => []
  | none => []

/-- The flow of `Engine.perform`: only posting and asking a context to run post items. -/
def perform (e : Engine) (scope : Scope) : Task → List Flow
  | .seq a b =>
    match e.perform scope a with
    | (_, some _) => perform e scope a
    | (e', none) => perform e scope a ++ perform e' scope b
  | .request c => requestDispatch e scope c
  | .post q t => dispatchAsync e scope q t
  | _ => []

def execute (e : Engine) (scope : Scope) (it : Item) : List Flow :=
  match it.job with
  | .task t => perform e scope t
  | .member _ t => perform e scope t
  | _ => []

/-- The flow of `Engine.drainItems`: each item taken from the front of the queue, then the flow
of its run. -/
def drainItems (run : Scope → Item → Engine → Engine) (flow : Scope → Item → Engine → List Flow)
    (qscope : Scope) (id : Nat) : Nat → Engine → List Flow
  | 0, _ => []
  | n + 1, e =>
    match e.serials[id]? with
    | none => []
    | some s =>
      if s.suspended != 0 then []
      else
        match s.tasks.pop with
        | (none, _) => []
        | (some it, rest) =>
          let e := e.modifySerial id fun s => { s with tasks := rest }
          if it.internal then
            .run it :: (flow qscope it e ++ drainItems run flow qscope id n (run qscope it e))
          else
            let e := match s.pooled with
              | some c => e.observe c it
              | none => e
            .run it :: (execute e qscope it ++ drainItems run flow qscope id n (e.execute qscope it))

def drainBound (run : Scope → Item → Engine → Engine) (flow : Scope → Item → Engine → List Flow)
    (e : Engine) (scope : Scope) (id : Nat) (s : Serial) : List Flow :=
  let qscope := { scope with queue := some (.serial id), pooled := s.pooled <|> scope.pooled }
  let (e', done) := Engine.drainItems run qscope id s.size.toNat e 0
  let e' := e'.modifySerial id fun s => { s with size := s.size - done, triggered := false }
  drainItems run flow qscope id s.size.toNat e ++
    match e'.serials[id]? with
    | some s => if 0 < s.size && s.suspended == 0 then trigger e' scope id else []
    | none => []

def drainWith (run : Scope → Item → Engine → Engine) (flow : Scope → Item → Engine → List Flow)
    (e : Engine) (scope : Scope) (id : Nat) : List Flow :=
  match e.serials[id]? with
  | none => []
  | some s => drainBound run flow (e.pinTo scope id s) scope id s

def runJob : Nat → Scope → Item → Engine → List Flow
  | 0, _, _, _ => []
  | fuel + 1, scope, it, e =>
    match it.job with
    | .drain id => drainWith (Engine.runJob fuel) (runJob fuel) e scope id
    | .pill _ => []
    | _ => execute e scope it

/-- The flow of a worker's step: the item it takes, then the flow of its run. -/
def stepWorker (e : Engine) (w : WorkerId) : List Flow :=
  match e.nextItem w with
  | none => []
  | some (scope, it, e) => .run it :: runJob e.nestingDepth scope it e

/-- A worker's step with its flow. -/
def step (e : Engine) (w : WorkerId) : Option (Engine × List Flow) :=
  (e.stepWorker w).map fun e' => (e', stepWorker e w)

def runPoolFor : Nat → Engine → List Flow
  | 0, _ => []
  | n + 1, e =>
    match e.live.findSome? fun i => step e (.pool i) with
    | some (e', F) => F ++ runPoolFor n e'
    | none => []

def fireTimers (e : Engine) : List Flow :=
  let (t, jobs) := e.timer.advance (e.clock + Engine.timerHorizon)
  foldl (fun e (q, task) =>
      let e := e.dispatchAsync Scope.outside q task
      { e with counters := { e.counters with timerFired := e.counters.timerFired + 1 } })
    (fun e (q, task) => dispatchAsync e Scope.outside q task) jobs { e with timer := t }

def runPool (e : Engine) : List Flow :=
  fireTimers e ++ runPoolFor Engine.stepBudget e.fireTimers

def runBothFor : Nat → Engine → List Flow
  | 0, _ => []
  | n + 1, e =>
    match step e .main with
    | some (e', F) => F ++ runBothFor n e'
    | none =>
      match e.live.findSome? fun i => step e (.pool i) with
      | some (e', F) => F ++ runBothFor n e'
      | none => []

/-- The flow of `Engine.stopAll`: every worker's stopping job, then the run of the pool. -/
def stopAll (e : Engine) : List Flow :=
  let e := { e with shutdown := true }
  foldl (fun e i => e.pushThread Scope.outside (.pool i) .low ⟨.pill i, none, none⟩)
      (fun _ i => [.post ⟨.pill i, none, none⟩]) (List.range e.workers.size) e ++
    runPool ((List.range e.workers.size).foldl
      (fun e i => e.pushThread Scope.outside (.pool i) .low ⟨.pill i, none, none⟩) e)

def startWorkers (e : Engine) (i : Nat) : Nat → List Flow
  | 0 => []
  | n + 1 =>
    let name := e.workerName (.pool i)
    let e := { e with workers := e.workers.push (Worker.create name) }
    if e.failAt == some i then
      stopAll (e.modifyWorker (.pool i) fun wk => { wk with status := .terminated })
    else
      let e := { e with
        live := e.live ++ [i]
        counters := { e.counters with liveWorkers := e.counters.liveWorkers + 1 }
        balancer := e.balancer.memberStarted i }
      startWorkers e (i + 1) n

def start (e : Engine) : List Flow :=
  if e.shutdown then []
  else if e.started then []
  else
    let e := { e with started := true, timer := e.timer.start, balancer := e.balancer.start.1 }
    startWorkers e 0 e.threads

def stop (e : Engine) : List Flow :=
  if e.shutdown then [] else stopAll e

def runGroup (e : Engine) (scope : Scope) (q : QueueRef) (n : Nat) (task : Nat → Nat → Task) :
    List Flow :=
  match e.accepting with
  | .error _ => []
  | .ok () =>
    let (slot, e) := e.openWait n
    foldl (fun e i => e.post scope q ⟨.member slot (task slot i), none, none⟩)
        (fun e i => post e scope q ⟨.member slot (task slot i), none, none⟩) (List.range n) e ++
      runPool ((List.range n).foldl
        (fun e i => e.post scope q ⟨.member slot (task slot i), none, none⟩) e)

def schedule (e : Engine) (scope : Scope) (task : Task) (delay : Int) : List Flow :=
  match e.chooseWorker scope with
  | (.error _, _) => []
  | (.ok w, e) => if delay ≤ 0 then dispatchAsync e scope (.thread (.pool w) .normal) task else []

def resume (e : Engine) (id : Nat) : List Flow :=
  match e.serials[id]? with
  | none => []
  | some s =>
    let n := s.suspended - 1
    if n < 0 then []
    else
      let e := e.modifySerial id fun s => { s with suspended := n }
      if n == 0 && 0 < s.size then trigger e Scope.outside id else []

def release (e : Engine) (id : Nat) : List Flow :=
  match e.serials[id]? with
  | none => []
  | some s =>
    let n := s.refs - 1
    let e := e.modifySerial id fun s => { s with refs := n }
    if n < 0 then []
    else if 0 < n || s.disposed then []
    else
      let e := e.modifySerial id fun s => { s with disposed := true, disposer := none }
      match s.disposer with
      | some t => dispatchAsync e Scope.outside (.serial id) t
      | none => []

def closeContext (e : Engine) (c : Nat) : List Flow :=
  match e.contexts[c]? with
  | none => []
  | some ctx =>
    if ctx.closed then []
    else
      let e := e.modifyContext c fun ctx => { ctx with closed := true, registered := false }
      release (e.setDisposer ctx.queue (some (.closeTracker c))) ctx.queue

def dispatchMain (e : Engine) : List Flow :=
  if e.shutdown then [] else fireTimers e ++ runBothFor Engine.stepBudget e.fireTimers

end FlowOf

/-! ## Every function keeps every item -/

namespace Accounted

theorem foldl {α : Type} {g : Engine → α → Engine} {flow : Engine → α → List Flow}
    (hg : ∀ e a, Accounted e (flow e a) (g e a)) :
    ∀ (l : List α) (e : Engine), Accounted e (FlowOf.foldl g flow l e) (l.foldl g e)
  | [], e => refl e
  | a :: l, e => (hg e a).append (foldl hg l (g e a))

theorem triggerWith {post : Engine → Scope → QueueRef → Item → Engine}
    {flow : Engine → Scope → QueueRef → Item → List Flow}
    (hpost : ∀ e scope q it, Accounted e (flow e scope q it) (post e scope q it)) (e : Engine)
    (scope : Scope) (id : Nat) :
    Accounted e (FlowOf.triggerWith flow e scope id) (e.triggerWith post scope id) := by
  unfold FlowOf.triggerWith Engine.triggerWith
  cases e.serials[id]? with
  | none => exact refl e
  | some s =>
    dsimp only
    split
    · exact refl e
    · -- the queue is flagged, which moves nothing, and its drain is posted
      refine before ?_ (hpost _ _ _ _)
      exact modifySerial_of_tasks e id fun _ => rfl

theorem postWithin : ∀ (hops : Nat) (e : Engine) (scope : Scope) (q : QueueRef) (it : Item),
    Accounted e (FlowOf.postWithin hops e scope q it) (e.postWithin hops scope q it)
  | hops, e, _, .global p, it => by cases hops <;> exact pushGlobal e p it
  | hops, e, scope, .thread w p, it => by cases hops <;> exact pushThread e scope w p it
  | 0, e, _, .serial _, _ => refl e
  | hops + 1, e, scope, .serial id, it => by
    simp only [FlowOf.postWithin, Engine.postWithin]
    cases hs : e.serials[id]? with
    | none => exact refl e
    | some s =>
      dsimp only
      -- the queue may first move to the calling worker, which moves no item
      have hf : Accounted e [] (if s.options.stickToCaller then e.followCaller scope id else e) := by
        split
        · rw [Engine.followCaller_eq]
          exact modifySerial_of_tasks e id fun s => (retargets_follow scope s).1
        · exact refl e
      obtain ⟨s', hs'⟩ : ∃ s',
          (if s.options.stickToCaller then e.followCaller scope id else e).serials[id]? = some s' := by
        split
        · exact ⟨Serial.follow scope s, by rw [Engine.followCaller_eq]; simp [Array.getElem?_modify, hs]⟩
        · exact ⟨s, hs⟩
      generalize (if s.options.stickToCaller then e.followCaller scope id else e) = e₁ at hf hs' ⊢
      generalize (if s.pooled.isSome && !it.internal then
          { it with caller := scope.poolWorker, callerCtx := scope.pooled } else it) = it'
      have hjoin : Accounted e [.post it']
          (e₁.modifySerial id fun s => { s with tasks := s.tasks.push it', size := s.size + 1 }) :=
        hf.before (enqueue hs' rfl)
      split
      · exact hjoin.append (triggerWith (postWithin hops) _ scope id)
      · exact hjoin

theorem post (e : Engine) (scope : Scope) (q : QueueRef) (it : Item) :
    Accounted e (FlowOf.post e scope q it) (e.post scope q it) :=
  postWithin _ e scope q it

theorem trigger (e : Engine) (scope : Scope) (id : Nat) :
    Accounted e (FlowOf.trigger e scope id) (e.trigger scope id) :=
  triggerWith (postWithin _) e scope id

theorem dispatchAsync (e : Engine) (scope : Scope) (q : QueueRef) (t : Task) :
    Accounted e (FlowOf.dispatchAsync e scope q t) (e.dispatchAsync scope q t) :=
  post e scope q _

theorem requestDispatch (e : Engine) (scope : Scope) (c : Nat) :
    Accounted e (FlowOf.requestDispatch e scope c) (e.requestDispatch scope c) := by
  unfold FlowOf.requestDispatch Engine.requestDispatch
  cases e.contexts[c]? with
  | none => exact refl e
  | some ctx =>
    dsimp only
    cases ctx.dispatchable with
    | none => exact refl e
    | some fn =>
      dsimp only
      split
      · exact refl e
      · refine before ?_ (dispatchAsync _ _ _ _)
        exact of_queued rfl rfl rfl

theorem chooseWorker (e : Engine) (scope : Scope) : Accounted e [] (e.chooseWorker scope).2 := by
  rcases e.chooseWorker_snd scope with he | he <;> rw [he]
  · exact refl e
  · exact of_queued rfl rfl rfl

theorem register (e : Engine) (scope : Scope) (label : String) (fn : Option Task)
    (options : QueueOptions) : Accounted e [] (e.register scope label fn options).2 := by
  have hc := chooseWorker e scope
  unfold Engine.register
  dsimp only
  generalize e.chooseWorker scope = r at hc
  obtain ⟨w, e₁⟩ := r
  cases w with
  | error f => exact hc
  | ok w => exact hc.after (of_pushSerial rfl rfl rfl rfl Linked.toList_empty)

theorem perform (scope : Scope) : ∀ (t : Task) (e : Engine),
    Accounted e (FlowOf.perform e scope t) (e.perform scope t).1
  | .seq a b, e => by
    have ha := perform scope a e
    simp only [FlowOf.perform, Engine.perform]
    cases hr : e.perform scope a with
    | mk e₁ o =>
      rw [hr] at ha
      cases o with
      | some m => exact ha
      | none => exact ha.append (perform scope b e₁)
  | .request c, e => requestDispatch e scope c
  | .post q t, e => dispatchAsync e scope q t
  | .register slot label fn opts, e => by
    have h := register e scope label fn opts
    simp only [FlowOf.perform, Engine.perform]
    generalize e.register scope label fn opts = r at h
    obtain ⟨_, e₁⟩ := r
    refine h.after ?_
    exact of_queued rfl rfl rfl
  | .noop, e | .fail _, e | .log _ _, e | .add _ _, e | .probe _, e | .cancel _, e
  | .closeTracker _, e | .clearPending _, e => of_queued rfl rfl rfl

theorem execute (e : Engine) (scope : Scope) (it : Item) :
    Accounted e (FlowOf.execute e scope it) (e.execute scope it) := by
  unfold FlowOf.execute Engine.execute
  cases it.job with
  | task t =>
    have h := perform scope t e
    dsimp only
    cases hr : e.perform scope t with
    | mk e₁ o =>
      rw [hr] at h
      cases o with
      | some m => exact h.after (of_queued rfl rfl rfl)
      | none => exact h
  | member slot t =>
    have h := perform scope t e
    dsimp only
    generalize e.perform scope t = r at h ⊢
    obtain ⟨e₁, o⟩ := r
    exact h.after (of_queued rfl rfl rfl)
  | drain _ | pill _ => exact refl e

theorem observe (e : Engine) (c : Nat) (it : Item) : Accounted e [] (e.observe c it) := by
  unfold Engine.observe
  split
  · exact refl e
  · rename_i ctx _
    dsimp only
    generalize ctx.tracker.observe e.balancer.running (some ctx.owner) it.caller it.callerCtx = r
    obtain ⟨t, target⟩ := r
    have h1 : Accounted e [] (e.modifyContext c fun ctx => { ctx with tracker := t }) :=
      of_queued rfl rfl rfl
    cases target with
    | some w =>
      -- the balancer moves the context to another worker
      refine (h1.after (assignTo _ c w)).after ?_
      exact of_queued rfl rfl rfl
    | none => exact h1

/-- A drain's items: each is taken from the front and run, by a runner that keeps every item. -/
theorem drainItems {run : Scope → Item → Engine → Engine} {flow : Scope → Item → Engine → List Flow}
    (hrun : ∀ scope it e, Accounted e (flow scope it e) (run scope it e)) (qscope : Scope) (id : Nat) :
    ∀ (n : Nat) (e : Engine) (done : Nat),
      Accounted e (FlowOf.drainItems run flow qscope id n e) (Engine.drainItems run qscope id n e done).1
  | 0, e, _ => refl e
  | n + 1, e, done => by
    unfold FlowOf.drainItems Engine.drainItems
    cases hs : e.serials[id]? with
    | none => exact refl e
    | some s =>
      dsimp only
      split
      · exact refl e
      · cases hpop : s.tasks.pop with
        | mk o rest =>
          cases o with
          | none => exact refl e
          | some it =>
            dsimp only
            have htake := take hs hpop
            by_cases hi : it.internal = true
            · simp only [hi, ↓reduceIte]
              exact htake.append ((hrun _ _ _).append (drainItems hrun qscope id n _ _))
            · simp only [hi, ↓reduceIte, Bool.false_eq_true]
              -- an item of a context's queue is shown to the balancer first
              cases s.pooled with
              | none => exact htake.append ((execute _ _ _).append (drainItems hrun qscope id n _ _))
              | some c =>
                exact htake.append (((observe _ c it).before (execute _ _ _)).append
                  (drainItems hrun qscope id n _ _))

theorem drainBound {run : Scope → Item → Engine → Engine} {flow : Scope → Item → Engine → List Flow}
    (hrun : ∀ scope it e, Accounted e (flow scope it e) (run scope it e)) (e : Engine) (scope : Scope)
    (id : Nat) (s : Serial) :
    Accounted e (FlowOf.drainBound run flow e scope id s) (e.drainBound run scope id s) := by
  have h0 := drainItems hrun { scope with queue := some (.serial id), pooled := s.pooled <|> scope.pooled }
    id s.size.toNat e 0
  unfold FlowOf.drainBound Engine.drainBound
  dsimp only
  generalize Engine.drainItems run { scope with queue := some (.serial id), pooled := s.pooled <|> scope.pooled }
    id s.size.toNat e 0 = r at h0 ⊢
  obtain ⟨e₁, done⟩ := r
  -- the drain is over: the queue is idle, its size less what was taken
  have h1 := h0.after (modifySerial_of_tasks e₁ id
    (f := fun s => { s with size := s.size - done, triggered := false }) fun _ => rfl)
  dsimp only
  generalize e₁.modifySerial id (fun s => { s with size := s.size - done, triggered := false }) = e₂ at h1 ⊢
  cases e₂.serials[id]? with
  | none => simpa using h1
  | some s' =>
    dsimp only
    split
    · exact h1.append (trigger _ _ _)
    · simpa using h1

/-- Binding a queue to its drainer moves no item. -/
theorem pinTo (e : Engine) (scope : Scope) (id : Nat) (s : Serial) : Accounted e [] (e.pinTo scope id s) := by
  unfold Engine.pinTo
  split
  · split
    · exact modifySerial_of_tasks e id fun _ => rfl
    · exact refl e
  · exact refl e

theorem drainWith {run : Scope → Item → Engine → Engine} {flow : Scope → Item → Engine → List Flow}
    (hrun : ∀ scope it e, Accounted e (flow scope it e) (run scope it e)) (e : Engine) (scope : Scope)
    (id : Nat) : Accounted e (FlowOf.drainWith run flow e scope id) (e.drainWith run scope id) := by
  rw [Engine.drainWith_eq]
  unfold FlowOf.drainWith
  cases e.serials[id]? with
  | none => exact refl e
  | some s => exact (pinTo e scope id s).before (drainBound hrun _ scope id s)

theorem runJob : ∀ (fuel : Nat) (scope : Scope) (it : Item) (e : Engine),
    Accounted e (FlowOf.runJob fuel scope it e) (Engine.runJob fuel scope it e)
  | 0, _, _, e => refl e
  | fuel + 1, scope, it, e => by
    unfold FlowOf.runJob Engine.runJob
    cases it.job with
    | drain id => exact drainWith (runJob fuel) e scope id
    | pill w =>
      dsimp only
      split
      · exact modifyWorker_of_lanes e _ fun _ => rfl
      · exact refl e
    | task _ | member _ _ => exact execute e scope it

theorem stepWorker {e e' : Engine} {w : WorkerId} (h : e.stepWorker w = some e') :
    Accounted e (FlowOf.stepWorker e w) e' := by
  unfold Engine.stepWorker at h
  unfold FlowOf.stepWorker
  cases hn : e.nextItem w with
  | none => simp [hn] at h
  | some r =>
    obtain ⟨scope, it, e₁⟩ := r
    simp only [hn] at h
    dsimp only
    have h1 : Accounted e (.run it :: FlowOf.runJob e₁.nestingDepth scope it e₁)
        (Engine.runJob e₁.nestingDepth scope it e₁) :=
      (nextItem hn).append (runJob e₁.nestingDepth scope it e₁)
    cases w with
    | main => obtain rfl := Option.some.inj h; exact h1
    | pool i =>
      dsimp only at h
      split at h
      · obtain rfl := Option.some.inj h
        -- a worker that ran its stopping job leaves
        split
        · exact h1.after (exitWorker _ i)
        · exact h1
      · obtain rfl := Option.some.inj h; exact h1

theorem step {e e' : Engine} {w : WorkerId} {F : List Flow} (h : FlowOf.step e w = some (e', F)) :
    Accounted e F e' := by
  obtain ⟨e'', hs, he⟩ := Option.map_eq_some_iff.mp h
  cases he
  exact stepWorker hs

theorem step_map (e : Engine) (w : WorkerId) : (FlowOf.step e w).map Prod.fst = e.stepWorker w := by
  simp [FlowOf.step, Option.map_map, Function.comp_def]

/-- The pool step found among the live workers is the engine's own. -/
theorem findStep_map (e : Engine) :
    (e.live.findSome? fun i => FlowOf.step e (.pool i)).map Prod.fst =
      e.live.findSome? fun i => e.stepWorker (.pool i) := by
  rw [List.map_findSome?]
  simp only [Function.comp_def, step_map]

/-- The pool step found among the live workers keeps every item: it is one worker's step. -/
theorem findStep {e e' : Engine} {F : List Flow}
    (h : (e.live.findSome? fun i => FlowOf.step e (.pool i)) = some (e', F)) : Accounted e F e' := by
  obtain ⟨i, -, hi⟩ := List.exists_of_findSome?_eq_some h
  exact step hi

theorem runPoolFor : ∀ (k : Nat) (e : Engine), Accounted e (FlowOf.runPoolFor k e) (Engine.runPoolFor k e)
  | 0, e => refl e
  | k + 1, e => by
    unfold FlowOf.runPoolFor Engine.runPoolFor
    rw [← findStep_map]
    cases hr : e.live.findSome? fun i => FlowOf.step e (.pool i) with
    | none => exact refl e
    | some r =>
      obtain ⟨e', F⟩ := r
      exact (findStep hr).append (runPoolFor k e')

theorem fireTimers (e : Engine) : Accounted e (FlowOf.fireTimers e) e.fireTimers := by
  unfold FlowOf.fireTimers Engine.fireTimers
  generalize e.timer.advance (e.clock + Engine.timerHorizon) = tj
  obtain ⟨t, jobs⟩ := tj
  refine before ?_ (foldl (fun e j => ?_) jobs _)
  · exact of_queued rfl rfl rfl
  · obtain ⟨q, task⟩ := j
    refine (dispatchAsync e Scope.outside q task).after ?_
    exact of_queued rfl rfl rfl

theorem runPool (e : Engine) : Accounted e (FlowOf.runPool e) e.runPool :=
  (fireTimers e).append (runPoolFor _ _)

theorem runBothFor : ∀ (k : Nat) (e : Engine), Accounted e (FlowOf.runBothFor k e) (Engine.runBothFor k e)
  | 0, e => refl e
  | k + 1, e => by
    unfold FlowOf.runBothFor Engine.runBothFor
    rw [← step_map, ← findStep_map]
    cases hr : FlowOf.step e .main with
    | some r =>
      obtain ⟨e', F⟩ := r
      exact (step hr).append (runBothFor k e')
    | none =>
      cases hr' : e.live.findSome? fun i => FlowOf.step e (.pool i) with
      | none => exact refl e
      | some r =>
        obtain ⟨e', F⟩ := r
        exact (findStep hr').append (runBothFor k e')

/-- Every pool worker is given its stopping job. -/
theorem pushPills (l : List Nat) (e : Engine) :
    Accounted e (FlowOf.foldl (fun e i => e.pushThread Scope.outside (.pool i) .low ⟨.pill i, none, none⟩)
      (fun _ i => [.post ⟨.pill i, none, none⟩]) l e)
      (l.foldl (fun e i => e.pushThread Scope.outside (.pool i) .low ⟨.pill i, none, none⟩) e) :=
  foldl (fun e _ => pushThread e _ _ _ _) l e

theorem stopAll (e : Engine) : Accounted e (FlowOf.stopAll e) e.stopAll := by
  unfold FlowOf.stopAll Engine.stopAll
  dsimp only
  -- every worker gets its stopping job, then the pool runs until all have left
  refine before ?_ (after ((pushPills _ _).append (runPool _)) ?_)
  · exact of_queued rfl rfl rfl
  · exact of_queued rfl rfl rfl

/-- A new pool worker, with empty queues, joins. -/
theorem pushWorker (e : Engine) (name : String) :
    Accounted e [] { e with workers := e.workers.push (Worker.create name) } := by
  have hq : (Worker.create name).queued = [] := rfl
  refine of_perm (.of_eq (by simp [Engine.queued, hq])) fun hl w wk hw => ?_
  cases w with
  | main => exact hl .main wk hw
  | pool i =>
    simp only [Engine.worker?, Array.getElem?_push] at hw
    split at hw
    · obtain rfl := Option.some.inj hw
      intro p
      cases p <;> exact Chunked.wf_empty
    · exact hl (.pool i) wk hw

theorem startWorkers : ∀ (e : Engine) (i n : Nat),
    Accounted e (FlowOf.startWorkers e i n) (e.startWorkers i n).2
  | e, _, 0 => refl e
  | e, i, n + 1 => by
    unfold FlowOf.startWorkers Engine.startWorkers
    dsimp only
    split
    · -- a worker that fails to start stops the engine again
      refine (pushWorker e (e.workerName (.pool i))).before (before ?_ (stopAll _))
      exact modifyWorker_of_lanes _ _ fun _ => rfl
    · refine (pushWorker e (e.workerName (.pool i))).before (before ?_ (startWorkers _ (i + 1) n))
      exact of_queued rfl rfl rfl

theorem start (e : Engine) : Accounted e (FlowOf.start e) e.start.2 := by
  unfold FlowOf.start Engine.start
  split
  · exact refl e
  · split
    · exact refl e
    · refine before ?_ (startWorkers _ 0 _)
      exact of_queued rfl rfl rfl

theorem stop (e : Engine) : Accounted e (FlowOf.stop e) e.stop.2 := by
  unfold FlowOf.stop Engine.stop
  split
  · exact refl e
  · exact stopAll e

theorem runGroup (e : Engine) (scope : Scope) (q : QueueRef) (n : Nat) (task : Nat → Nat → Task) :
    Accounted e (FlowOf.runGroup e scope q n task) (e.runGroup scope q n task).2 := by
  unfold FlowOf.runGroup Engine.runGroup
  cases e.accepting with
  | error f => exact refl e
  | ok u =>
    cases u
    have hw : Accounted e [] (e.openWait n).2 := of_queued rfl rfl rfl
    dsimp only
    generalize e.openWait n = se at hw
    obtain ⟨slot, e₁⟩ := se
    dsimp only
    -- the members are posted one after the other, then the pool runs
    refine hw.before ((foldl (fun e i => post e scope q _) _ _).append ?_)
    split <;> exact runPool _

theorem schedule (e : Engine) (scope : Scope) (task : Task) (delay : Int) :
    Accounted e (FlowOf.schedule e scope task delay) (e.schedule scope task delay).2 := by
  have hc := chooseWorker e scope
  unfold FlowOf.schedule Engine.schedule
  generalize e.chooseWorker scope = r at hc
  obtain ⟨w, e₁⟩ := r
  cases w with
  | error f => exact hc
  | ok w =>
    dsimp only
    split
    · exact hc.before (dispatchAsync _ _ _ _)
    · -- a later post is left to the timer
      split
      · refine hc.after ?_
        exact of_queued rfl rfl rfl
      · exact hc

theorem resume (e : Engine) (id : Nat) : Accounted e (FlowOf.resume e id) (e.resume id).2 := by
  unfold FlowOf.resume Engine.resume
  cases e.serials[id]? with
  | none => exact refl e
  | some s =>
    dsimp only
    split
    · exact refl e
    · split
      · refine before ?_ (trigger _ _ _)
        exact modifySerial_of_tasks e id fun _ => rfl
      · exact modifySerial_of_tasks e id fun _ => rfl

theorem release (e : Engine) (id : Nat) : Accounted e (FlowOf.release e id) (e.release id).2 := by
  unfold FlowOf.release Engine.release
  cases e.serials[id]? with
  | none => exact refl e
  | some s =>
    dsimp only
    have h1 := modifySerial_of_tasks e id (f := fun s' => { s' with refs := s.refs - 1 }) fun _ => rfl
    split
    · exact h1
    · split
      · exact h1
      · -- the last hold is dropped: the disposer is posted to the queue
        have h2 := h1.after (modifySerial_of_tasks _ id
          (f := fun s => { s with disposed := true, disposer := none }) fun _ => rfl)
        cases s.disposer with
        | some t => exact h2.before (dispatchAsync _ _ _ _)
        | none => exact h2

theorem setDisposer (e : Engine) (id : Nat) (t : Option Task) : Accounted e [] (e.setDisposer id t) :=
  modifySerial_of_tasks e id fun _ => rfl

theorem closeContext (e : Engine) (c : Nat) :
    Accounted e (FlowOf.closeContext e c) (e.closeContext c).2 := by
  unfold FlowOf.closeContext Engine.closeContext
  cases e.contexts[c]? with
  | none => exact refl e
  | some ctx =>
    dsimp only
    split
    · exact refl e
    · refine before (after ?_ (setDisposer _ ctx.queue _)) (release _ ctx.queue)
      exact of_queued rfl rfl rfl

theorem dispatchMain (e : Engine) (slot : Nat) :
    Accounted e (FlowOf.dispatchMain e) (e.dispatchMain slot).2 := by
  unfold FlowOf.dispatchMain Engine.dispatchMain
  split
  · exact refl e
  · dsimp only
    refine (fireTimers e).append ?_
    split <;> exact runBothFor _ _

theorem retain (e : Engine) (id : Nat) : Accounted e [] (e.retain id).2 := by
  unfold Engine.retain
  split
  · exact refl e
  · dsimp only
    split <;> exact modifySerial_of_tasks e id fun _ => rfl

theorem setTarget (e : Engine) (id : Nat) (onto : Option QueueRef) :
    Accounted e [] (e.setTarget id onto).2 := by
  unfold Engine.setTarget
  split
  · exact refl e
  · dsimp only
    split
    · exact refl e
    · exact modifySerial_of_tasks e id fun _ => rfl

theorem createSerial (e : Engine) (label : String) (prio : Priority) (options : QueueOptions) :
    Accounted e [] (e.createSerial label prio options).2 :=
  of_pushSerial rfl rfl rfl rfl Linked.toList_empty

theorem createPartitioned (e : Engine) (label : String) (k : Int) (options : QueueOptions) :
    Accounted e [] (e.createPartitioned label k options).2 := by
  unfold Engine.createPartitioned
  split
  · exact refl e
  · dsimp only
    -- the partitions are made one after the other, each a fresh serial queue
    generalize (if label.isEmpty then e.freshLabel "partitioned" else label) = name
    generalize (⟨name, Courier.Hash.Ring.create Courier.Hash.defaultReplicas, []⟩ : Partitioned) = pq
    generalize List.range k.toNat = is
    induction is generalizing pq e with
    | nil => exact refl e
    | cons i is ih => exact (createSerial e _ .normal options).before (ih _ _)

theorem dispatchAfter (e : Engine) (q : QueueRef) (t : Task) (delay : Int) :
    Accounted e [] (e.dispatchAfter q t delay).2 := by
  unfold Engine.dispatchAfter
  split
  · exact of_queued rfl rfl rfl
  · exact refl e

end Accounted

/-! ## Runs -/

namespace Engine

/-- One move of the engine with its flow of items: one of its calls (`Engine.Call`), or a pool
worker that takes an item and fails fatally while it runs it, so that it leaves at once. -/
inductive Act : Engine → List Flow → Engine → Prop
  | dispatchAsync (e : Engine) (scope : Scope) (q : QueueRef) (t : Task) :
      Act e (FlowOf.dispatchAsync e scope q t) (e.dispatchAsync scope q t)
  | step (e : Engine) {e' : Engine} (w : WorkerId) (h : e.stepWorker w = some e') :
      Act e (FlowOf.stepWorker e w) e'
  | fail (e : Engine) {i : Nat} {scope : Scope} {it : Item} {e' : Engine}
      (h : e.nextItem (.pool i) = some (scope, it, e')) : Act e [.run it] (e'.exitWorker i)
  | suspend (e : Engine) (id : Nat) : Act e [] (e.suspend id)
  | resume (e : Engine) (id : Nat) : Act e (FlowOf.resume e id) (e.resume id).2
  | retain (e : Engine) (id : Nat) : Act e [] (e.retain id).2
  | release (e : Engine) (id : Nat) : Act e (FlowOf.release e id) (e.release id).2
  | setDisposer (e : Engine) (id : Nat) (t : Option Task) : Act e [] (e.setDisposer id t)
  | setTarget (e : Engine) (id : Nat) (onto : Option QueueRef) : Act e [] (e.setTarget id onto).2
  | assignTo (e : Engine) (c w : Nat) : Act e [] (e.assignTo c w)
  | createSerial (e : Engine) (label : String) (prio : Priority) (options : QueueOptions) :
      Act e [] (e.createSerial label prio options).2
  | createPartitioned (e : Engine) (label : String) (k : Int) (options : QueueOptions) :
      Act e [] (e.createPartitioned label k options).2
  | register (e : Engine) (scope : Scope) (label : String) (fn : Option Task)
      (options : QueueOptions) : Act e [] (e.register scope label fn options).2
  | requestDispatch (e : Engine) (scope : Scope) (c : Nat) :
      Act e (FlowOf.requestDispatch e scope c) (e.requestDispatch scope c)
  | closeContext (e : Engine) (c : Nat) : Act e (FlowOf.closeContext e c) (e.closeContext c).2
  | start (e : Engine) : Act e (FlowOf.start e) e.start.2
  | stop (e : Engine) : Act e (FlowOf.stop e) e.stop.2
  | runGroup (e : Engine) (scope : Scope) (q : QueueRef) (k : Nat) (task : Nat → Nat → Task) :
      Act e (FlowOf.runGroup e scope q k task) (e.runGroup scope q k task).2
  | dispatchAfter (e : Engine) (q : QueueRef) (t : Task) (delay : Int) :
      Act e [] (e.dispatchAfter q t delay).2
  | schedule (e : Engine) (scope : Scope) (t : Task) (delay : Int) :
      Act e (FlowOf.schedule e scope t delay) (e.schedule scope t delay).2
  | runPool (e : Engine) : Act e (FlowOf.runPool e) e.runPool
  | dispatchMain (e : Engine) (slot : Nat) :
      Act e (FlowOf.dispatchMain e) (e.dispatchMain slot).2
  | newCell (e : Engine) : Act e [] e.newCell.2
  | openWait (e : Engine) (k : Nat) : Act e [] (e.openWait k).2

/-- Every move keeps every item. -/
theorem Act.accounted {e e' : Engine} {F : List Flow} (a : Act e F e') : Accounted e F e' := by
  cases a with
  | dispatchAsync scope q t => exact Accounted.dispatchAsync e scope q t
  | step w h => exact Accounted.stepWorker h
  | fail h => exact (Accounted.nextItem h).after (Accounted.exitWorker _ _)
  | suspend id => exact Accounted.modifySerial_of_tasks e id fun _ => rfl
  | resume id => exact Accounted.resume e id
  | retain id => exact Accounted.retain e id
  | release id => exact Accounted.release e id
  | setDisposer id t => exact Accounted.setDisposer e id t
  | setTarget id onto => exact Accounted.setTarget e id onto
  | assignTo c w => exact Accounted.assignTo e c w
  | createSerial label prio options => exact Accounted.createSerial e label prio options
  | createPartitioned label k options => exact Accounted.createPartitioned e label k options
  | register scope label fn options => exact Accounted.register e scope label fn options
  | requestDispatch scope c => exact Accounted.requestDispatch e scope c
  | closeContext c => exact Accounted.closeContext e c
  | start => exact Accounted.start e
  | stop => exact Accounted.stop e
  | runGroup scope q k task => exact Accounted.runGroup e scope q k task
  | dispatchAfter q t delay => exact Accounted.dispatchAfter e q t delay
  | schedule scope t delay => exact Accounted.schedule e scope t delay
  | runPool => exact Accounted.runPool e
  | dispatchMain slot => exact Accounted.dispatchMain e slot
  | newCell => exact Accounted.of_queued rfl rfl rfl
  | openWait k => exact Accounted.of_queued rfl rfl rfl

/-- Every call of the engine is a move, with its flow. -/
theorem Call.act {e e' : Engine} (c : Call e e') : ∃ F, Act e F e' := by
  cases c with
  | dispatchAsync scope q t => exact ⟨_, .dispatchAsync e scope q t⟩
  | step w h => exact ⟨_, .step e w h⟩
  | suspend id => exact ⟨_, .suspend e id⟩
  | resume id => exact ⟨_, .resume e id⟩
  | retain id => exact ⟨_, .retain e id⟩
  | release id => exact ⟨_, .release e id⟩
  | setDisposer id t => exact ⟨_, .setDisposer e id t⟩
  | setTarget id onto _ => exact ⟨_, .setTarget e id onto⟩
  | assignTo c w => exact ⟨_, .assignTo e c w⟩
  | createSerial label prio options => exact ⟨_, .createSerial e label prio options⟩
  | createPartitioned label k options => exact ⟨_, .createPartitioned e label k options⟩
  | register scope label fn options => exact ⟨_, .register e scope label fn options⟩
  | requestDispatch scope c => exact ⟨_, .requestDispatch e scope c⟩
  | closeContext c => exact ⟨_, .closeContext e c⟩
  | start => exact ⟨_, .start e⟩
  | stop => exact ⟨_, .stop e⟩
  | runGroup scope q k task => exact ⟨_, .runGroup e scope q k task⟩
  | dispatchAfter q t delay => exact ⟨_, .dispatchAfter e q t delay⟩
  | schedule scope t delay => exact ⟨_, .schedule e scope t delay⟩
  | runPool => exact ⟨_, .runPool e⟩
  | dispatchMain slot => exact ⟨_, .dispatchMain e slot⟩
  | newCell => exact ⟨_, .newCell e⟩
  | openWait k => exact ⟨_, .openWait e k⟩

/-- The runs of the engine: made by `create`, then changed by its moves; with the flow of items
along them, in order. -/
inductive Run : Engine → List Flow → Prop
  | create (s : Settings) (cpus : Nat) (b : Balancer Nat) (failAt : Option Nat) (tag : String)
      (clock : Int) {e : Engine} (h : Engine.create s cpus b failAt tag clock = .ok e) : Run e []
  | act {e e' : Engine} {F F' : List Flow} (h : Run e F) (a : Act e F' e') : Run e' (F ++ F')

/-- A run keeps every item since the engine was made, when nothing waited. -/
theorem Run.accounted {e : Engine} {F : List Flow} (h : Run e F) :
    ∃ e₀ : Engine, e₀.queued = [] ∧ e₀.LanesWF ∧ Accounted e₀ F e := by
  induction h with
  | create s cpus b failAt tag clock hc =>
    refine ⟨_, ?_, (create_settled hc).lanes, Accounted.refl _⟩
    unfold Engine.create at hc
    cases hv : s.validate with
    | error f => simp [hv] at hc
    | ok u =>
      simp only [hv] at hc
      obtain rfl := Except.ok.inj hc
      rfl
  | act _ a ih =>
    obtain ⟨e₀, hq, hl, ha⟩ := ih
    exact ⟨e₀, hq, hl, ha.append a.accounted⟩

/-- What the queues keep at the end `e` of a run with flow `F`. -/
structure Conserved (e : Engine) (F : List Flow) : Prop where
  /-- The items posted are the items taken to run and the items waiting now, each once. -/
  balance : (Flow.posted F).Perm (Flow.ran F ++ e.queued)
  /-- No item is taken to run more often than it was posted. -/
  atMostOnce : (Flow.ran F).Subperm (Flow.posted F)
  /-- A post to a worker's own queue once the worker has left goes to the shared queue of the
  same priority. -/
  forward : ∀ (hops : Nat) (scope : Scope) (w : WorkerId) (p : Priority) (it : Item),
    e.terminated w = true → e.postWithin hops scope (.thread w p) it = e.pushGlobal p it
  /-- A pool worker that leaves hands what is left in its own queues, its own posts first, to
  the shared queue of each priority, and keeps nothing. -/
  handOver : ∀ (i : Nat) (wk : Worker), e.workers[i]? = some wk →
    (∀ p, ((e.exitWorker i).global.get p).toList =
      (e.global.get p).toList ++ (wk.lanes.get p).mine.toList ++ (wk.lanes.get p).others.toList) ∧
    (e.exitWorker i).workers[i]? =
      some { wk with status := .terminated, lanes := PerPriority.uniform Lane.empty }

/-- No item is lost or repeated by the queues. Along every run of the engine from its creation,
whatever its calls, its workers' steps and fatal failures, and its shutdown, the items posted are
exactly the items taken to run and the items waiting, each in one queue; so no item runs more
often than it was posted. A post to a worker that has left goes to the shared queue, and a
worker that leaves hands all its items over. -/
theorem Run.conserved {e : Engine} {F : List Flow} (h : Run e F) : Conserved e F := by
  obtain ⟨e₀, hq, hl, ha⟩ := h.accounted
  have hb : (Flow.posted F).Perm (Flow.ran F ++ e.queued) := by
    simpa [hq] using (ha hl).2
  refine ⟨hb, (List.sublist_append_left _ _).subperm.trans hb.symm.subperm,
    fun hops scope w p it ht => e.postWithin_thread_of_terminated hops scope p it ht,
    fun i wk hw => ⟨e.exitWorker_global hw, e.exitWorker_worker hw⟩⟩

/-- A fresh engine has posted and run nothing and holds nothing. -/
theorem fresh_engine_conserved :
    match Engine.create ⟨"", 1, 0, 0⟩ 1 Balancer.inert none "t" 0 with
    | .ok e => Conserved e []
    | .error _ => False :=
  Run.conserved (.create ⟨"", 1, 0, 0⟩ 1 Balancer.inert none "t" 0 rfl)

end Engine

end Courier.Dispatch
