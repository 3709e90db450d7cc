import Courier.Proofs.Dispatch.Protocol

/-!
# The engine's calls, with what happens to the serial queues' items

The engine keeps no record of the items that pass through a serial queue. To speak of the order
in which they arrive and start, the functions that put items into serial queues or take them out
are given here once more, each also returning the events of its call: an item joins a serial
queue (`Event.enq`), or a drain takes an item from the front of its queue and starts it
(`Event.start`). Parts that touch no serial queue's items are the engine's own functions.

- `Traced.postWithin_fst`, `Traced.runJob_fst`, `Traced.stepWorker_map`, …: each traced function
  computes the engine's own result, so the events are those of the engine's own runs;
- `Traced.Call`: the engine's calls with their events, and `Traced.Call.call`,
  `Engine.Call.traced`: they are exactly the engine's calls.
-/

set_option autoImplicit false

namespace Courier.Dispatch

/-- What happens to an item of a serial queue: it joins the queue at its end, or a drain of the
queue takes it from the front and starts it. -/
inductive Event where
  | enq (q : Nat) (it : Item)
  | start (q : Nat) (it : Item)

namespace Traced

open Engine

/-! ## Posting -/

/-- `Engine.triggerWith`, with the events of the post of the drain. -/
def triggerWith (post : Engine → Scope → QueueRef → Item → Engine × List Event) (e : Engine)
    (scope : Scope) (id : Nat) : Engine × List Event :=
  match e.serials[id]? with
  | some s =>
    if s.triggered then (e, [])
    else post (e.modifySerial id fun s => { s with triggered := true }) scope s.target ⟨.drain id, none, none⟩
  | none => (e, [])

/-- `Engine.postWithin`, with the items put into serial queues along the chain of targets. -/
def postWithin : Nat → Engine → Scope → QueueRef → Item → Engine × List Event
  | _, e, _, .global p, it => (e.pushGlobal p it, [])
  | _, e, scope, .thread w p, it => (e.pushThread scope w p it, [])
  | 0, e, _, .serial _, _ => (e, [])
  | hops + 1, e, scope, .serial id, it =>
    match e.serials[id]? with
    | none => (e, [])
    | some s =>
      let it := if s.pooled.isSome && !it.internal then
          { it with caller := scope.poolWorker, callerCtx := scope.pooled }
        else it
      let e := if s.options.stickToCaller then e.followCaller scope id else e
      let e := e.modifySerial id fun s => { s with tasks := s.tasks.push it, size := s.size + 1 }
      if s.suspended == 0 then
        let r := triggerWith (postWithin hops) e scope id
        (r.1, .enq id it :: r.2)
      else (e, [.enq id it])

def post (e : Engine) (scope : Scope) (q : QueueRef) (it : Item) : Engine × List Event :=
  postWithin (e.serials.size + 1) e scope q it

def trigger (e : Engine) (scope : Scope) (id : Nat) : Engine × List Event :=
  triggerWith (postWithin e.serials.size) e scope id

def dispatchAsync (e : Engine) (scope : Scope) (q : QueueRef) (t : Task) : Engine × List Event :=
  post e scope q ⟨.task t, none, none⟩

def requestDispatch (e : Engine) (scope : Scope) (c : Nat) : Engine × List Event :=
  match e.contexts[c]? with
  | some ctx =>
    match ctx.dispatchable with
    | some fn =>
      if ctx.closed || ctx.pending then (e, [])
      else dispatchAsync (e.modifyContext c fun ctx => { ctx with pending := true }) scope
        (.serial ctx.queue) (.seq (.clearPending c) fn)
    | none => (e, [])
  | none => (e, [])

/-! ## Running -/

/-- `Engine.perform`: only posting and asking a context to run touch serial queues. -/
def perform (e : Engine) (scope : Scope) : Task → (Engine × Option String) × List Event
  | .seq a b =>
    let r := perform e scope a
    match r.1 with
    | (e, some m) => ((e, some m), r.2)
    | (e, none) =>
      let r' := perform e scope b
      (r'.1, r.2 ++ r'.2)
  | .request c =>
    let r := requestDispatch e scope c
    ((r.1, none), r.2)
  | .post q t =>
    let r := dispatchAsync e scope q t
    ((r.1, none), r.2)
  | t => (e.perform scope t, [])

def execute (e : Engine) (scope : Scope) (it : Item) : Engine × List Event :=
  match it.job with
  | .task t =>
    let r := perform e scope t
    match r.1 with
    | (e, some _) => ({ e with counters := { e.counters with taskPanics := e.counters.taskPanics + 1 } }, r.2)
    | (e, none) => (e, r.2)
  | .member slot t =>
    let r := perform e scope t
    (r.1.1.modifyWait slot fun w =>
      { w with failure := w.failure <|> r.1.2, remaining := w.remaining - 1 }, r.2)
  | _ => (e, [])

/-- `Engine.drainItems`: every item taken from the front of the queue starts. -/
def drainItems (run : Scope → Item → Engine → Engine × List Event) (qscope : Scope) (id : Nat) :
    Nat → Engine → Nat → (Engine × Nat) × List Event
  | 0, e, done => ((e, done), [])
  | n + 1, e, done =>
    match e.serials[id]? with
    | none => ((e, done), [])
    | some s =>
      if s.suspended != 0 then ((e, done), [])
      else
        match s.tasks.pop with
        | (none, _) => ((e, done), [])
        | (some it, rest) =>
          let e := e.modifySerial id fun s => { s with tasks := rest }
          let r :=
            if it.internal then run qscope it e
            else
              let e := match s.pooled with
                | some c => e.observe c it
                | none => e
              execute e qscope it
          let r' := drainItems run qscope id n r.1 (done + 1)
          (r'.1, .start id it :: (r.2 ++ r'.2))

/-- `Engine.drainWith` once the queue is bound: its items, then another drain if work is left. -/
def drainBound (run : Scope → Item → Engine → Engine × List Event) (e : Engine) (scope : Scope)
    (id : Nat) (s : Serial) : Engine × List Event :=
  let qscope := { scope with queue := some (.serial id), pooled := s.pooled <|> scope.pooled }
  let r := drainItems run qscope id s.size.toNat e 0
  let e := r.1.1.modifySerial id fun s => { s with size := s.size - r.1.2, triggered := false }
  match e.serials[id]? with
  | some s =>
    if 0 < s.size && s.suspended == 0 then
      let r' := trigger e scope id
      (r'.1, r.2 ++ r'.2)
    else (e, r.2)
  | none => (e, r.2)

def drainWith (run : Scope → Item → Engine → Engine × List Event) (e : Engine) (scope : Scope)
    (id : Nat) : Engine × List Event :=
  match e.serials[id]? with
  | none => (e, [])
  | some s =>
    let e := match scope.worker with
      | some w =>
        if s.options.stickToDrainer && !s.pinned then
          e.modifySerial id fun s => { s with pinned := true, target := .thread w s.prio }
        else e
      | none => e
    drainBound run e scope id s

def runJob : Nat → Scope → Item → Engine → Engine × List Event
  | 0, _, _, e => (e, [])
  | fuel + 1, scope, it, e =>
    match it.job with
    | .drain id => drainWith (runJob fuel) e scope id
    | .pill w =>
      (if scope.worker == some (.pool w) then
        e.modifyWorker (.pool w) fun wk => { wk with status := .stopping }
      else e, [])
    | _ => execute e scope it

def stepWorker (e : Engine) (w : WorkerId) : Option (Engine × List Event) :=
  match e.nextItem w with
  | none => none
  | some (scope, it, e) =>
    let r := runJob e.nestingDepth scope it e
    match w with
    | .pool i =>
      match r.1.worker? w with
      | some wk => some (if wk.status == .stopping then r.1.exitWorker i else r.1, r.2)
      | none => some r
    | .main => some r

def fireTimers (e : Engine) : Engine × List Event :=
  let (t, jobs) := e.timer.advance (e.clock + timerHorizon)
  jobs.foldl (fun r (q, task) =>
    let d := dispatchAsync r.1 Scope.outside q task
    ({ d.1 with counters := { d.1.counters with timerFired := d.1.counters.timerFired + 1 } }, r.2 ++ d.2))
    ({ e with timer := t }, [])

def runPoolFor : Nat → Engine → Engine × List Event
  | 0, e => (e, [])
  | n + 1, e =>
    match e.live.findSome? (fun i => stepWorker e (.pool i)) with
    | some r =>
      let r' := runPoolFor n r.1
      (r'.1, r.2 ++ r'.2)
    | none => (e, [])

def runPool (e : Engine) : Engine × List Event :=
  let r := fireTimers e
  let r' := runPoolFor stepBudget r.1
  (r'.1, r.2 ++ r'.2)

def runBothFor : Nat → Engine → Engine × List Event
  | 0, e => (e, [])
  | n + 1, e =>
    match stepWorker e .main with
    | some r =>
      let r' := runBothFor n r.1
      (r'.1, r.2 ++ r'.2)
    | none =>
      match e.live.findSome? (fun i => stepWorker e (.pool i)) with
      | some r =>
        let r' := runBothFor n r.1
        (r'.1, r.2 ++ r'.2)
      | none => (e, [])

/-! ## The engine's calls -/

/-- `Engine.stopAll`: every worker gets its stopping job, and the pool runs until all have left;
the events are those of that run, and stopping the balancer and the timer touches no queue. -/
def stopAll (e : Engine) : Engine × List Event :=
  (e.stopAll, (runPool ((List.range e.workers.size).foldl
    (fun e i => e.pushThread Scope.outside (.pool i) .low ⟨.pill i, none, none⟩) { e with shutdown := true })).2)

def startWorkers (e : Engine) (i : Nat) : Nat → Engine × List Event
  | 0 => (e, [])
  | n + 1 =>
    let name := e.workerName (.pool i)
    let e := { e with workers := e.workers.push (Worker.create name) }
    if e.failAt == some i then
      stopAll (e.modifyWorker (.pool i) fun wk => { wk with status := .terminated })
    else
      let e := { e with
        live := e.live ++ [i]
        counters := { e.counters with liveWorkers := e.counters.liveWorkers + 1 }
        balancer := e.balancer.memberStarted i }
      startWorkers e (i + 1) n

def start (e : Engine) : Engine × List Event :=
  if e.shutdown then (e, [])
  else if e.started then (e, [])
  else
    let e := { e with started := true, timer := e.timer.start, balancer := e.balancer.start.1 }
    startWorkers e 0 e.threads

def stop (e : Engine) : Engine × List Event :=
  if e.shutdown then (e, []) else stopAll e

def runGroup (e : Engine) (scope : Scope) (q : QueueRef) (n : Nat) (task : Nat → Nat → Task) :
    Engine × List Event :=
  match e.accepting with
  | .error _ => (e, [])
  | .ok () =>
    let (slot, e) := e.openWait n
    let r := (List.range n).foldl (fun r i =>
      let p := post r.1 scope q ⟨.member slot (task slot i), none, none⟩
      (p.1, r.2 ++ p.2)) (e, [])
    let r' := runPool r.1
    (r'.1, r.2 ++ r'.2)

def schedule (e : Engine) (scope : Scope) (task : Task) (delay : Int) : Engine × List Event :=
  match e.chooseWorker scope with
  | (.error _, e) => (e, [])
  | (.ok w, e) =>
    let q := QueueRef.thread (.pool w) .normal
    if delay ≤ 0 then dispatchAsync e scope q task
    else
      match e.timer.addAfter e.clock delay (some (q, task)) with
      | .ok t => ({ e with timer := t }, [])
      | .error _ => (e, [])

def resume (e : Engine) (id : Nat) : Engine × List Event :=
  match e.serials[id]? with
  | none => (e, [])
  | some s =>
    let n := s.suspended - 1
    if n < 0 then (e, [])
    else
      let e := e.modifySerial id fun s => { s with suspended := n }
      if n == 0 && 0 < s.size then trigger e Scope.outside id else (e, [])

def release (e : Engine) (id : Nat) : Engine × List Event :=
  match e.serials[id]? with
  | none => (e, [])
  | some s =>
    let n := s.refs - 1
    let e := e.modifySerial id fun s => { s with refs := n }
    if n < 0 then (e, [])
    else if 0 < n || s.disposed then (e, [])
    else
      let e := e.modifySerial id fun s => { s with disposed := true, disposer := none }
      match s.disposer with
      | some t => dispatchAsync e Scope.outside (.serial id) t
      | none => (e, [])

def closeContext (e : Engine) (c : Nat) : Engine × List Event :=
  match e.contexts[c]? with
  | none => (e, [])
  | some ctx =>
    if ctx.closed then (e, [])
    else
      let e := e.modifyContext c fun ctx => { ctx with closed := true, registered := false }
      release (e.setDisposer ctx.queue (some (.closeTracker c))) ctx.queue

def dispatchMain (e : Engine) : Engine × List Event :=
  if e.shutdown then (e, [])
  else
    let r := fireTimers e
    let r' := runBothFor stepBudget r.1
    (r'.1, r.2 ++ r'.2)


/-! ## The traced functions compute the engine's own results

Each proof unfolds both functions and takes the same cases of both: a case split on a shared
discriminant is made with `cases` so that it reaches both sides. -/

theorem triggerWith_fst (post : Engine → Scope → QueueRef → Item → Engine × List Event)
    (e : Engine) (scope : Scope) (id : Nat) :
    (triggerWith post e scope id).1 = e.triggerWith (fun e scope q it => (post e scope q it).1) scope id := by
  unfold triggerWith Engine.triggerWith
  cases e.serials[id]? with
  | none => rfl
  | some s =>
    dsimp only
    cases s.triggered <;> rfl

theorem postWithin_fst : ∀ (hops : Nat) (e : Engine) (scope : Scope) (q : QueueRef) (it : Item),
    (postWithin hops e scope q it).1 = e.postWithin hops scope q it
  | hops, _, _, .global _, _ | hops, _, _, .thread _ _, _ => by cases hops <;> rfl
  | 0, _, _, .serial _, _ => rfl
  | hops + 1, e, scope, .serial id, it => by
    have ih : (fun e scope q it => (postWithin hops e scope q it).1) = Engine.postWithin hops := by
      funext e scope q it; exact postWithin_fst hops e scope q it
    simp only [postWithin, Engine.postWithin]
    cases e.serials[id]? with
    | none => rfl
    | some s =>
      dsimp only
      split
      · rw [triggerWith_fst, ih]
      · rfl

theorem post_fst (e : Engine) (scope : Scope) (q : QueueRef) (it : Item) :
    (post e scope q it).1 = e.post scope q it :=
  postWithin_fst _ e scope q it

theorem trigger_fst (e : Engine) (scope : Scope) (id : Nat) :
    (trigger e scope id).1 = e.trigger scope id := by
  have ih : (fun e' scope q it => (postWithin e.serials.size e' scope q it).1) =
      Engine.postWithin e.serials.size := by
    funext e' scope q it; exact postWithin_fst _ e' scope q it
  unfold trigger Engine.trigger
  rw [triggerWith_fst, ih]

theorem dispatchAsync_fst (e : Engine) (scope : Scope) (q : QueueRef) (t : Task) :
    (dispatchAsync e scope q t).1 = e.dispatchAsync scope q t :=
  post_fst e scope q _

theorem requestDispatch_fst (e : Engine) (scope : Scope) (c : Nat) :
    (requestDispatch e scope c).1 = e.requestDispatch scope c := by
  unfold requestDispatch Engine.requestDispatch
  cases e.contexts[c]? with
  | none => rfl
  | some ctx =>
    dsimp only
    cases ctx.dispatchable with
    | none => rfl
    | some fn =>
      dsimp only
      split
      · rfl
      · exact dispatchAsync_fst _ _ _ _

theorem perform_fst (scope : Scope) : ∀ (t : Task) (e : Engine),
    (perform e scope t).1 = e.perform scope t
  | .seq a b, e => by
    simp only [perform, Engine.perform, perform_fst scope a e]
    cases e.perform scope a with
    | mk e1 o =>
      cases o with
      | some m => rfl
      | none => exact perform_fst scope b e1
  | .request c, e => by simp only [perform, Engine.perform, requestDispatch_fst]
  | .post q t, e => by simp only [perform, Engine.perform, dispatchAsync_fst]
  | .noop, _ | .log _ _, _ | .fail _, _ | .add _ _, _ | .register _ _ _ _, _ | .probe _, _
  | .cancel _, _ | .closeTracker _, _ | .clearPending _, _ => rfl

theorem execute_fst (e : Engine) (scope : Scope) (it : Item) :
    (execute e scope it).1 = e.execute scope it := by
  unfold execute Engine.execute
  cases it.job with
  | task t =>
    dsimp only
    rw [perform_fst]
    cases e.perform scope t with
    | mk e1 o => cases o <;> rfl
  | member slot t =>
    dsimp only
    rw [perform_fst]
  | drain _ | pill _ => rfl

theorem drainItems_fst (run : Scope → Item → Engine → Engine × List Event) (qscope : Scope)
    (id : Nat) : ∀ (n : Nat) (e : Engine) (done : Nat),
    (drainItems run qscope id n e done).1 =
      Engine.drainItems (fun scope it e => (run scope it e).1) qscope id n e done
  | 0, _, _ => rfl
  | n + 1, e, done => by
    unfold drainItems Engine.drainItems
    cases e.serials[id]? with
    | none => rfl
    | some s =>
      dsimp only
      split
      · rfl
      · cases s.tasks.pop with
        | mk o rest =>
          cases o with
          | none => rfl
          | some it =>
            dsimp only
            rw [drainItems_fst run qscope id n]
            split
            · rfl
            · exact congrArg (fun e' => Engine.drainItems (fun scope it e => (run scope it e).1) qscope id n
                e' (done + 1)) (execute_fst _ qscope it)

theorem drainWith_fst (run : Scope → Item → Engine → Engine × List Event) (e : Engine)
    (scope : Scope) (id : Nat) :
    (drainWith run e scope id).1 = e.drainWith (fun scope it e => (run scope it e).1) scope id := by
  unfold drainWith drainBound Engine.drainWith
  cases e.serials[id]? with
  | none => rfl
  | some s =>
    dsimp only
    rw [← drainItems_fst]
    generalize drainItems run _ id s.size.toNat _ 0 = r
    obtain ⟨⟨e1, done⟩, E⟩ := r
    dsimp only
    cases (e1.modifySerial id fun s => { s with size := s.size - done, triggered := false }).serials[id]? with
    | none => rfl
    | some s' =>
      dsimp only
      split
      · exact trigger_fst _ _ _
      · rfl

theorem runJob_fst : ∀ (fuel : Nat) (scope : Scope) (it : Item) (e : Engine),
    (runJob fuel scope it e).1 = Engine.runJob fuel scope it e
  | 0, _, _, _ => rfl
  | fuel + 1, scope, it, e => by
    have ih : (fun scope it e => (runJob fuel scope it e).1) = Engine.runJob fuel := by
      funext scope it e; exact runJob_fst fuel scope it e
    unfold runJob Engine.runJob
    cases it.job with
    | drain id =>
      dsimp only
      rw [drainWith_fst, ih]
    | pill w => rfl
    | task _ | member _ _ => exact execute_fst e scope it

theorem stepWorker_map (e : Engine) (w : WorkerId) :
    (stepWorker e w).map Prod.fst = e.stepWorker w := by
  unfold stepWorker Engine.stepWorker
  cases e.nextItem w with
  | none => rfl
  | some r =>
    obtain ⟨scope, it, e1⟩ := r
    dsimp only
    rw [← runJob_fst]
    cases w with
    | main => rfl
    | pool i =>
      dsimp only
      cases (runJob e1.nestingDepth scope it e1).1.worker? (.pool i) <;> rfl

/-- The pool step found among the live workers is the engine's own. -/
theorem findPoolStep_map (e : Engine) :
    (e.live.findSome? fun i => stepWorker e (.pool i)).map Prod.fst =
      e.live.findSome? fun i => e.stepWorker (.pool i) := by
  rw [List.map_findSome?]
  simp only [Function.comp_def, stepWorker_map]

theorem fireTimers_fst (e : Engine) : (fireTimers e).1 = e.fireTimers := by
  unfold fireTimers Engine.fireTimers
  refine (List.foldl_hom Prod.fst fun r j => ?_).symm
  obtain ⟨q, task⟩ := j
  simp only [dispatchAsync_fst]

theorem runPoolFor_fst : ∀ (k : Nat) (e : Engine), (runPoolFor k e).1 = Engine.runPoolFor k e
  | 0, _ => rfl
  | k + 1, e => by
    unfold runPoolFor Engine.runPoolFor
    rw [← findPoolStep_map]
    cases e.live.findSome? fun i => stepWorker e (.pool i) with
    | none => rfl
    | some r => exact runPoolFor_fst k r.1

theorem runPool_fst (e : Engine) : (runPool e).1 = e.runPool := by
  unfold runPool Engine.runPool
  rw [runPoolFor_fst, fireTimers_fst]

theorem runBothFor_fst : ∀ (k : Nat) (e : Engine), (runBothFor k e).1 = Engine.runBothFor k e
  | 0, _ => rfl
  | k + 1, e => by
    unfold runBothFor Engine.runBothFor
    rw [← stepWorker_map, ← findPoolStep_map]
    cases stepWorker e .main with
    | some r => exact runBothFor_fst k r.1
    | none =>
      cases e.live.findSome? fun i => stepWorker e (.pool i) with
      | none => rfl
      | some r => exact runBothFor_fst k r.1

theorem stopAll_fst (e : Engine) : (stopAll e).1 = e.stopAll := rfl

theorem startWorkers_fst : ∀ (e : Engine) (i n : Nat), (startWorkers e i n).1 = (e.startWorkers i n).2
  | _, _, 0 => rfl
  | e, i, n + 1 => by
    unfold startWorkers Engine.startWorkers
    dsimp only
    split
    · exact stopAll_fst _
    · exact startWorkers_fst _ (i + 1) n

theorem start_fst (e : Engine) : (start e).1 = e.start.2 := by
  unfold start Engine.start
  split
  · rfl
  · split
    · rfl
    · exact startWorkers_fst _ 0 _

theorem stop_fst (e : Engine) : (stop e).1 = e.stop.2 := by
  unfold stop Engine.stop
  split
  · rfl
  · exact stopAll_fst e

/-- Posting items one after the other computes the engine's own posts. -/
theorem foldl_post_fst (scope : Scope) (q : QueueRef) (item : Nat → Item) (l : List Nat)
    (e : Engine) (E : List Event) :
    (l.foldl (fun r i => ((post r.1 scope q (item i)).1, r.2 ++ (post r.1 scope q (item i)).2))
      (e, E)).1 = l.foldl (fun e i => e.post scope q (item i)) e :=
  (List.foldl_hom Prod.fst fun r i => (post_fst r.1 scope q (item i)).symm).symm

theorem runGroup_fst (e : Engine) (scope : Scope) (q : QueueRef) (n : Nat) (task : Nat → Nat → Task) :
    (runGroup e scope q n task).1 = (e.runGroup scope q n task).2 := by
  unfold runGroup Engine.runGroup
  cases e.accepting with
  | error f => rfl
  | ok u =>
    cases u
    dsimp only
    cases e.openWait n with
    | mk slot e1 =>
      dsimp only
      rw [foldl_post_fst, runPool_fst]
      split <;> rfl

theorem schedule_fst (e : Engine) (scope : Scope) (task : Task) (delay : Int) :
    (schedule e scope task delay).1 = (e.schedule scope task delay).2 := by
  unfold schedule Engine.schedule
  cases e.chooseWorker scope with
  | mk r e1 =>
    cases r with
    | error f => rfl
    | ok w =>
      dsimp only
      split
      · exact dispatchAsync_fst _ _ _ _
      · cases e1.timer.addAfter e1.clock delay (some (.thread (.pool w) .normal, task)) <;> rfl

theorem resume_fst (e : Engine) (id : Nat) : (resume e id).1 = (e.resume id).2 := by
  unfold resume Engine.resume
  cases e.serials[id]? with
  | none => rfl
  | some s =>
    dsimp only
    split
    · rfl
    · split
      · exact trigger_fst _ _ _
      · rfl

theorem release_fst (e : Engine) (id : Nat) : (release e id).1 = (e.release id).2 := by
  unfold release Engine.release
  cases e.serials[id]? with
  | none => rfl
  | some s =>
    dsimp only
    split
    · rfl
    · split
      · rfl
      · cases s.disposer with
        | none => rfl
        | some t => exact dispatchAsync_fst _ _ _ _

theorem closeContext_fst (e : Engine) (c : Nat) : (closeContext e c).1 = (e.closeContext c).2 := by
  unfold closeContext Engine.closeContext
  cases e.contexts[c]? with
  | none => rfl
  | some ctx =>
    dsimp only
    split
    · rfl
    · exact release_fst _ _

theorem dispatchMain_fst (e : Engine) (slot : Nat) : (dispatchMain e).1 = (e.dispatchMain slot).2 := by
  unfold dispatchMain Engine.dispatchMain
  split
  · rfl
  · dsimp only
    rw [runBothFor_fst, fireTimers_fst]
    split <;> rfl

/-! ## The engine's calls with their events -/

/-- The engine's calls (`Engine.Call`), each with the events it causes. -/
inductive Call : Engine → List Event → Engine → Prop
  | dispatchAsync (e : Engine) (scope : Scope) (q : QueueRef) (t : Task) :
      Call e (dispatchAsync e scope q t).2 (dispatchAsync e scope q t).1
  | step (e : Engine) {r : Engine × List Event} (w : WorkerId) (h : stepWorker e w = some r) :
      Call e r.2 r.1
  | suspend (e : Engine) (id : Nat) : Call e [] (e.suspend id)
  | resume (e : Engine) (id : Nat) : Call e (resume e id).2 (resume e id).1
  | retain (e : Engine) (id : Nat) : Call e [] (e.retain id).2
  | release (e : Engine) (id : Nat) : Call e (release e id).2 (release e id).1
  | setDisposer (e : Engine) (id : Nat) (t : Option Task) : Call e [] (e.setDisposer id t)
  | setTarget (e : Engine) (id : Nat) (onto : Option QueueRef)
      (h : ∀ t, onto = some (.serial t) → t < e.serials.size) : Call e [] (e.setTarget id onto).2
  | assignTo (e : Engine) (c w : Nat) : Call e [] (e.assignTo c w)
  | createSerial (e : Engine) (label : String) (prio : Priority) (options : QueueOptions) :
      Call e [] (e.createSerial label prio options).2
  | createPartitioned (e : Engine) (label : String) (k : Int) (options : QueueOptions) :
      Call e [] (e.createPartitioned label k options).2
  | register (e : Engine) (scope : Scope) (label : String) (fn : Option Task)
      (options : QueueOptions) : Call e [] (e.register scope label fn options).2
  | requestDispatch (e : Engine) (scope : Scope) (c : Nat) :
      Call e (requestDispatch e scope c).2 (requestDispatch e scope c).1
  | closeContext (e : Engine) (c : Nat) : Call e (closeContext e c).2 (closeContext e c).1
  | start (e : Engine) : Call e (start e).2 (start e).1
  | stop (e : Engine) : Call e (stop e).2 (stop e).1
  | runGroup (e : Engine) (scope : Scope) (q : QueueRef) (k : Nat) (task : Nat → Nat → Task) :
      Call e (runGroup e scope q k task).2 (runGroup e scope q k task).1
  | dispatchAfter (e : Engine) (q : QueueRef) (t : Task) (delay : Int) :
      Call e [] (e.dispatchAfter q t delay).2
  | schedule (e : Engine) (scope : Scope) (t : Task) (delay : Int) :
      Call e (schedule e scope t delay).2 (schedule e scope t delay).1
  | runPool (e : Engine) : Call e (runPool e).2 (runPool e).1
  | dispatchMain (e : Engine) : Call e (dispatchMain e).2 (dispatchMain e).1
  | newCell (e : Engine) : Call e [] e.newCell.2
  | openWait (e : Engine) (k : Nat) : Call e [] (e.openWait k).2

/-- A traced call is a call of the engine. -/
theorem Call.call {e e' : Engine} {E : List Event} (c : Call e E e') : Engine.Call e e' := by
  cases c with
  | dispatchAsync scope q t => rw [dispatchAsync_fst]; exact .dispatchAsync e scope q t
  | step w h =>
    have h' := stepWorker_map e w
    rw [h] at h'
    exact .step e w h'.symm
  | suspend id => exact .suspend e id
  | resume id => rw [resume_fst]; exact .resume e id
  | retain id => exact .retain e id
  | release id => rw [release_fst]; exact .release e id
  | setDisposer id t => exact .setDisposer e id t
  | setTarget id onto h => exact .setTarget e id onto h
  | assignTo c w => exact .assignTo e c w
  | createSerial label prio options => exact .createSerial e label prio options
  | createPartitioned label k options => exact .createPartitioned e label k options
  | register scope label fn options => exact .register e scope label fn options
  | requestDispatch scope c => rw [requestDispatch_fst]; exact .requestDispatch e scope c
  | closeContext c => rw [closeContext_fst]; exact .closeContext e c
  | start => rw [start_fst]; exact .start e
  | stop => rw [stop_fst]; exact .stop e
  | runGroup scope q k task => rw [runGroup_fst]; exact .runGroup e scope q k task
  | dispatchAfter q t delay => exact .dispatchAfter e q t delay
  | schedule scope t delay => rw [schedule_fst]; exact .schedule e scope t delay
  | runPool => rw [runPool_fst]; exact .runPool e
  | dispatchMain => rw [dispatchMain_fst e 0]; exact .dispatchMain e 0
  | newCell => exact .newCell e
  | openWait k => exact .openWait e k

end Traced

/-- Every call of the engine is a traced call, with the events of its run. -/
theorem Engine.Call.traced {e e' : Engine} (c : Engine.Call e e') : ∃ E, Traced.Call e E e' := by
  cases c with
  | dispatchAsync scope q t =>
    rw [← Traced.dispatchAsync_fst]; exact ⟨_, .dispatchAsync e scope q t⟩
  | step w h =>
    rw [← Traced.stepWorker_map] at h
    obtain ⟨r, hr, rfl⟩ := Option.map_eq_some_iff.mp h
    exact ⟨_, .step e w hr⟩
  | suspend id => exact ⟨_, .suspend e id⟩
  | resume id => rw [← Traced.resume_fst]; exact ⟨_, .resume e id⟩
  | retain id => exact ⟨_, .retain e id⟩
  | release id => rw [← Traced.release_fst]; exact ⟨_, .release e id⟩
  | setDisposer id t => exact ⟨_, .setDisposer e id t⟩
  | setTarget id onto h => exact ⟨_, .setTarget e id onto h⟩
  | assignTo c w => exact ⟨_, .assignTo e c w⟩
  | createSerial label prio options => exact ⟨_, .createSerial e label prio options⟩
  | createPartitioned label k options => exact ⟨_, .createPartitioned e label k options⟩
  | register scope label fn options => exact ⟨_, .register e scope label fn options⟩
  | requestDispatch scope c =>
    rw [← Traced.requestDispatch_fst]; exact ⟨_, .requestDispatch e scope c⟩
  | closeContext c => rw [← Traced.closeContext_fst]; exact ⟨_, .closeContext e c⟩
  | start => rw [← Traced.start_fst]; exact ⟨_, .start e⟩
  | stop => rw [← Traced.stop_fst]; exact ⟨_, .stop e⟩
  | runGroup scope q k task => rw [← Traced.runGroup_fst]; exact ⟨_, .runGroup e scope q k task⟩
  | dispatchAfter q t delay => exact ⟨_, .dispatchAfter e q t delay⟩
  | schedule scope t delay => rw [← Traced.schedule_fst]; exact ⟨_, .schedule e scope t delay⟩
  | runPool => rw [← Traced.runPool_fst]; exact ⟨_, .runPool e⟩
  | dispatchMain slot => rw [← Traced.dispatchMain_fst e slot]; exact ⟨_, .dispatchMain e⟩
  | newCell => exact ⟨_, .newCell e⟩
  | openWait k => exact ⟨_, .openWait e k⟩

end Courier.Dispatch
