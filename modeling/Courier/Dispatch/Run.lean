import Courier.Dispatch.Post
import Courier.Dispatch.Timer.Basic
/-!
Running work. A worker looks at its priorities in order and, at each, takes from its own queue
first and then, unless it is the main worker, from the shared queue. Running a drain takes from a
serial queue at most the items it held when the drain began, each in the queue's scope, and stops
early once the queue is suspended; items of a context's queue are shown to the balancer first,
which may move the context. A plain task that fails is counted; a member of a group keeps the
first failure for its caller. A worker that ran its stopping job leaves: what is left in its own
queues goes to the shared queues. The pool runs until no live worker finds anything to do; which
worker runs next is the first live one that has work.
-/

set_option autoImplicit false

namespace Courier.Dispatch

open Courier.Queue

/-- The items of a lane in the order they are taken. -/
def Lane.toList (l : Lane) : List Item := l.mine.toList ++ l.others.toList

/-- Takes the next item of a lane: the worker's own items first. -/
def Lane.pop (l : Lane) : Option (Item × Lane) :=
  match l.mine.pop with
  | (some it, mine) => some (it, { l with mine })
  | (none, _) =>
    match l.others.pop with
    | (some it, others) => some (it, { l with others })
    | (none, _) => none

namespace Engine

/-- Adds to a counter, wrapping around. -/
def addToCell (e : Engine) (cell : Nat) (n : Int64) : Engine :=
  { e with cells := e.cells.modify cell (· + n) }

/-- Runs a task's effects in a scope: the engine afterwards and the failure that stopped it. -/
def perform (e : Engine) (scope : Scope) : Task → Engine × Option String
  | .noop => (e, none)
  | .log ch line => (e.write ch line, none)
  | .fail m => (e, some m)
  | .seq a b =>
    match perform e scope a with
    | (e, some m) => (e, some m)
    | (e, none) => perform e scope b
  | .request c => (e.requestDispatch scope c, none)
  | .post q t => (e.dispatchAsync scope q t, none)
  | .add cell n => (e.addToCell cell n, none)
  | .register slot label fn opts =>
    let (r, e) := e.register scope label fn opts
    (e.modifyWait slot fun w => { w with made := some r }, none)
  | .probe slot => (e.modifyWait slot fun w => { w with seen := some scope }, none)
  | .cancel slot => (e.modifyWait slot fun w => { w with canceled := true }, none)
  | .closeTracker c => (e.modifyContext c fun ctx => { ctx with tracker := ctx.tracker.close }, none)
  | .clearPending c => (e.modifyContext c fun ctx => { ctx with pending := false }, none)

/-- Runs an item that is not the engine's own. -/
def execute (e : Engine) (scope : Scope) (it : Item) : Engine :=
  match it.job with
  | .task t =>
    match e.perform scope t with
    | (e, some _) => { e with counters := { e.counters with taskPanics := e.counters.taskPanics + 1 } }
    | (e, none) => e
  | .member slot t =>
    let (e, failure) := e.perform scope t
    e.modifyWait slot fun w => { w with failure := w.failure <|> failure, remaining := w.remaining - 1 }
  | _ => e

/-- Shows an item of context `c`'s queue to the context's tracker, and moves the context when
the tracker says so. -/
def observe (e : Engine) (c : Nat) (it : Item) : Engine :=
  match e.contexts[c]? with
  | none => e
  | some ctx =>
    let (t, target) := ctx.tracker.observe e.balancer.running (some ctx.owner) it.caller it.callerCtx
    let e := e.modifyContext c fun ctx => { ctx with tracker := t }
    match target with
    | some w =>
      let e := e.assignTo c w
      { e with balancer := e.balancer.noteMigration }
    | none => e

/-- Takes and runs up to `n` items of serial queue `id`; gives the engine and how many it took. -/
def drainItems (run : Scope → Item → Engine → Engine) (qscope : Scope) (id : Nat) :
    Nat → Engine → Nat → Engine × Nat
  | 0, e, done => (e, done)
  | n + 1, e, done =>
    match e.serials[id]? with
    | none => (e, done)
    | some s =>
      if s.suspended != 0 then (e, done)
      else
        match s.tasks.pop with
        | (none, _) => (e, done)
        | (some it, rest) =>
          let e := e.modifySerial id fun s => { s with tasks := rest }
          let e :=
            if it.internal then run qscope it e
            else
              let e := match s.pooled with
                | some c => e.observe c it
                | none => e
              e.execute qscope it
          drainItems run qscope id n e (done + 1)

/-- Drains serial queue `id` in `scope`; `run` runs the engine's own jobs found in it. A queue
bound to its first drainer binds to this worker. Afterwards another drain is posted if items
remain and the queue is not suspended. -/
def drainWith (run : Scope → Item → Engine → Engine) (e : Engine) (scope : Scope) (id : Nat) : Engine :=
  match e.serials[id]? with
  | none => e
  | some s =>
    let e := match scope.worker with
      | some w =>
        if s.options.stickToDrainer && !s.pinned then
          e.modifySerial id fun s => { s with pinned := true, target := .thread w s.prio }
        else e
      | none => e
    let qscope := { scope with queue := some (.serial id), pooled := s.pooled <|> scope.pooled }
    let (e, done) := drainItems run qscope id s.size.toNat e 0
    let e := e.modifySerial id fun s => { s with size := s.size - done, triggered := false }
    match e.serials[id]? with
    | some s => if 0 < s.size && s.suspended == 0 then e.trigger scope id else e
    | none => e

/-- Runs one item taken by a worker; drains may nest at most `fuel` deep. -/
def runJob : Nat → Scope → Item → Engine → Engine
  | 0, _, _, e => e
  | fuel + 1, scope, it, e =>
    match it.job with
    | .drain id => drainWith (runJob fuel) e scope id
    | .pill w =>
      if scope.worker == some (.pool w) then
        e.modifyWorker (.pool w) fun wk => { wk with status := .stopping }
      else e
    | _ => e.execute scope it

/-- Takes the next item for worker `w` at one priority: its own queue, then the shared one. -/
def takeAt (e : Engine) (w : WorkerId) (p : Priority) : Option (Scope × Item × Engine) :=
  match e.worker? w with
  | none => none
  | some wk =>
    match (wk.lanes.get p).pop with
    | some (it, l) =>
      some (⟨some w, some (.thread w p), none⟩, it,
        e.modifyWorker w fun wk => { wk with lanes := wk.lanes.set p l })
    | none =>
      if w == .main then none
      else
        match (e.global.get p).pop with
        | (some it, g) => some (⟨some w, some (.global p), none⟩, it, { e with global := e.global.set p g })
        | (none, _) => none

/-- Takes the next item for worker `w`, most urgent priority first. -/
def nextItem (e : Engine) (w : WorkerId) : Option (Scope × Item × Engine) :=
  Priority.all.findSome? (e.takeAt w)

/-- Moves what is left in a worker's own queues to the shared queues. -/
def handOver (e : Engine) (w : WorkerId) : Engine :=
  Priority.all.foldl (fun e p =>
    match e.worker? w with
    | some wk =>
      let items := (wk.lanes.get p).toList
      let e := e.modifyWorker w fun wk => { wk with lanes := wk.lanes.set p Lane.empty }
      items.foldl (fun e it => e.pushGlobal p it) e
    | none => e) e

/-- Hands the contexts of a worker that left, while the engine runs on, to the next live worker.
A counter that names no place in the list leaves them where they are: there the leaving worker
fails as an index out of range. -/
def adoptOrphans (e : Engine) (i : Nat) : Engine :=
  let orphans := (List.range e.contexts.size).filter fun c =>
    match e.contexts[c]? with
    | some ctx => ctx.registered && ctx.owner == i
    | none => false
  if orphans.isEmpty || e.live.isEmpty then e
  else
    let k := turnIndex e.next e.live.length
    if k < 0 then e
    else
      let heir := e.live.getD k.toNat 0
      orphans.foldl (fun e c => e.assignTo c heir) { e with next := e.next + 1 }

/-- A pool worker leaves. -/
def exitWorker (e : Engine) (i : Nat) : Engine :=
  let e := e.modifyWorker (.pool i) fun wk => { wk with status := .terminated }
  let e := e.handOver (.pool i)
  let e := { e with live := e.live.erase i }
  let e := if e.shutdown then e else e.adoptOrphans i
  { e with
    counters := { e.counters with liveWorkers := e.counters.liveWorkers - 1 }
    balancer := e.balancer.memberStopped i }

/-- How deep drains may nest inside one another: the drains running inside one another are of
distinct serial queues, so one more than the number of serial queues is never reached. -/
def nestingDepth (e : Engine) : Nat := e.serials.size + 1

/-- Worker `w` runs one item, and leaves if that was its stopping job; none when it has nothing
to do. -/
def stepWorker (e : Engine) (w : WorkerId) : Option Engine :=
  match e.nextItem w with
  | none => none
  | some (scope, it, e) =>
    let e := runJob e.nestingDepth scope it e
    match w with
    | .pool i =>
      match e.worker? w with
      | some wk => some (if wk.status == .stopping then e.exitWorker i else e)
      | none => some e
    | .main => some e

/-- How far ahead of the clock a timer request counts as due: an hour, in nanoseconds. The
timer's loop waits for a request's time; the engine does not wait, and fires at once every
request less than an hour ahead, as the sessions it answers treat them as due. What is proved
of firing holds whatever the horizon: the lemmas about `fireTimers` take the timer's run up to
any point in time. -/
def timerHorizon : Int := 3600 * 1000000000

/-- Fires the timer's due requests: each posts its task to its queue. -/
def fireTimers (e : Engine) : Engine :=
  let (t, jobs) := e.timer.advance (e.clock + timerHorizon)
  jobs.foldl (fun e (q, task) =>
    let e := e.dispatchAsync Scope.outside q task
    { e with counters := { e.counters with timerFired := e.counters.timerFired + 1 } }) { e with timer := t }

/-- The most items run between two looks at the outside world. The workers' goroutines run
until their work is done, and the calls that wait for work (a group's wait, the wait for the
workers at shutdown, the main worker's run) wait for as long as it takes; here a run of the
pool stops after this many steps, after which a group whose work is not done answers as
interrupted and a shutdown carries on without it. Only runs that never end are cut short by it.
The theorems about the engine do not rest on its value: each is proved for a run of the pool of
any length (`runPoolFor n`, `runBothFor n`), one step at a time. -/
def stepBudget : Nat := 100000

/-- Live pool workers run, the first one with work each time, until none has any. -/
def runPoolFor : Nat → Engine → Engine
  | 0, e => e
  | n + 1, e =>
    match e.live.findSome? (fun i => e.stepWorker (.pool i)) with
    | some e => runPoolFor n e
    | none => e

/-- Fires due timers, then runs the pool until it is idle. -/
def runPool (e : Engine) : Engine := runPoolFor stepBudget e.fireTimers

/-- The main worker runs until it has nothing to do. -/
def runMainFor : Nat → Engine → Engine
  | 0, e => e
  | n + 1, e =>
    match e.stepWorker .main with
    | some e => runMainFor n e
    | none => e

end Engine

end Courier.Dispatch
