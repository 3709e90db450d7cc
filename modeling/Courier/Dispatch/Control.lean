import Courier.Dispatch.Run
/-!
The engine's calls. Starting makes the pool workers in turn; a worker that fails to start stops
the whole engine again. Shutting down gives every worker a stopping job behind its low-priority
work and runs the pool until all have left. Work is taken only while the engine runs with a live
worker. A caller that waits for a group of tasks gets its answer once the pool is idle: the
first failure among them, or, with work of the group still queued, the news that it gave up.
Serial queues count suspensions and holds; the last release posts the disposer.
-/

set_option autoImplicit false

namespace Courier.Dispatch

namespace Engine

/-- Whether work is taken now. -/
def accepting (e : Engine) : Except Fault Unit :=
  if e.shutdown then .error .rejected
  else if !e.started then .error .notStarted
  else if e.live.isEmpty then .error .rejected
  else .ok ()

/-- Stops all workers, then the balancer and the timer. -/
def stopAll (e : Engine) : Engine :=
  let e := { e with shutdown := true }
  let e := (List.range e.workers.size).foldl
    (fun e i => e.pushThread Scope.outside (.pool i) .low ⟨.pill i, none, none⟩) e
  let e := e.runPool
  let e := { e with balancer := e.balancer.stop }
  let timer := match e.timer.shutdown false with
    | .ok t => t
    | .error _ => e.timer
  { e with timer := (timer.advance e.clock).1 }

/-- Starts pool workers `i`, `i + 1`, … for `n` more; gives the number of live workers. -/
def startWorkers (e : Engine) (i : Nat) : Nat → Except Fault Nat × Engine
  | 0 => (.ok e.live.length, e)
  | n + 1 =>
    let name := e.workerName (.pool i)
    let e := { e with workers := e.workers.push (Worker.create name) }
    if e.failAt == some i then
      let e := e.modifyWorker (.pool i) fun wk => { wk with status := .terminated }
      (.error (.initFailed name), e.stopAll)
    else
      let e := { e with
        live := e.live ++ [i]
        counters := { e.counters with liveWorkers := e.counters.liveWorkers + 1 }
        balancer := e.balancer.memberStarted i }
      startWorkers e (i + 1) n

/-- Starts the engine: the timer, the balancer, then the pool. -/
def start (e : Engine) : Except Fault Nat × Engine :=
  if e.shutdown then (.error .shutDown, e)
  else if e.started then (.error .alreadyStarted, e)
  else
    let e := { e with started := true, timer := e.timer.start, balancer := e.balancer.start.1 }
    e.startWorkers 0 e.threads

/-- Shuts the engine down once; gives the number of live workers left. -/
def stop (e : Engine) : Except Fault Nat × Engine :=
  if e.shutdown then (.error .shutDown, e)
  else
    let e := e.stopAll
    (.ok e.live.length, e)

/-- The answer of a waiting slot once the pool is idle. -/
def waitOutcome (e : Engine) (slot : Nat) : Except Fault Unit :=
  match e.waits[slot]? with
  | some w =>
    if w.remaining == 0 then
      match w.failure with
      | some v => .error (.panicked v)
      | none => .ok ()
    else .error .interrupted
  | none => .error .interrupted

/-- Posts `n` tasks to a queue as one group from `scope` and waits for them; `task slot i` is the
`i`-th task, where `slot` is the group's waiting slot. Gives the slot. -/
def runGroup (e : Engine) (scope : Scope) (q : QueueRef) (n : Nat) (task : Nat → Nat → Task) :
    Except Fault Nat × Engine :=
  match e.accepting with
  | .error f => (.error f, e)
  | .ok () =>
    let (slot, e) := e.openWait n
    let e := (List.range n).foldl (fun e i => e.post scope q ⟨.member slot (task slot i), none, none⟩) e
    let e := e.runPool
    match e.waitOutcome slot with
    | .ok () => (.ok slot, e)
    | .error f => (.error f, e)

/-- Hands a task to the timer, to be posted to `q` after `delay` nanoseconds. -/
def dispatchAfter (e : Engine) (q : QueueRef) (task : Task) (delay : Int) : Except Fault Unit × Engine :=
  match e.timer.addAfter e.clock delay (some (q, task)) with
  | .ok t => (.ok (), { e with timer := t })
  | .error err => (.error (.scheduleFailed (e.queueLabel q) err), e)

/-- Posts a task to the default queue of a chosen worker, now or after `delay` nanoseconds. -/
def schedule (e : Engine) (scope : Scope) (task : Task) (delay : Int) : Except Fault Unit × Engine :=
  match e.chooseWorker scope with
  | (.error f, e) => (.error f, e)
  | (.ok w, e) =>
    let q := QueueRef.thread (.pool w) .normal
    if delay ≤ 0 then (.ok (), e.dispatchAsync scope q task)
    else
      match e.timer.addAfter e.clock delay (some (q, task)) with
      | .ok t => (.ok (), { e with timer := t })
      | .error _ => (.error .rejected, e)

/-- Makes a serial queue of a priority on that priority's shared queue; gives its number. -/
def createSerial (e : Engine) (label : String) (prio : Priority) (options : QueueOptions) : Nat × Engine :=
  let label := if label.isEmpty then e.freshLabel "serial" else label
  (e.serials.size, { e with serials := e.serials.push (Serial.create label prio (.global prio) options none) })

/-- The label of a serial queue. -/
def serialLabel (e : Engine) (id : Nat) : String := e.queueLabel (.serial id)

/-- Suspends a serial queue once more. -/
def suspend (e : Engine) (id : Nat) : Engine :=
  e.modifySerial id fun s => { s with suspended := s.suspended + 1 }

/-- Lifts one suspension; when none is left and items wait, a drain is posted. Lifting more
suspensions than were made fails and changes nothing. -/
def resume (e : Engine) (id : Nat) : Except Fault Unit × Engine :=
  match e.serials[id]? with
  | none => (.ok (), e)
  | some s =>
    let n := s.suspended - 1
    if n < 0 then (.error (.aborted ("dispatch: unbalanced resume of " ++ s.label)), e)
    else
      let e := e.modifySerial id fun s => { s with suspended := n }
      if n == 0 && 0 < s.size then (.ok (), e.trigger Scope.outside id) else (.ok (), e)

/-- Holds a serial queue once more; holding one already released fails, though the hold is
counted. -/
def retain (e : Engine) (id : Nat) : Except Fault Unit × Engine :=
  match e.serials[id]? with
  | none => (.ok (), e)
  | some s =>
    let e := e.modifySerial id fun s => { s with refs := s.refs + 1 }
    if s.refs + 1 ≤ 1 then (.error (.aborted ("dispatch: retain of released queue " ++ s.label)), e)
    else (.ok (), e)

/-- Drops one hold of a serial queue; the last one posts the disposer, once. Dropping more holds
than there are fails, though the drop is counted. -/
def release (e : Engine) (id : Nat) : Except Fault Unit × Engine :=
  match e.serials[id]? with
  | none => (.ok (), e)
  | some s =>
    let n := s.refs - 1
    let e := e.modifySerial id fun s => { s with refs := n }
    if n < 0 then (.error (.aborted ("dispatch: unbalanced release of " ++ s.label)), e)
    else if 0 < n || s.disposed then (.ok (), e)
    else
      let e := e.modifySerial id fun s => { s with disposed := true, disposer := none }
      match s.disposer with
      | some t => (.ok (), e.dispatchAsync Scope.outside (.serial id) t)
      | none => (.ok (), e)

/-- Sets the task that runs when a serial queue is let go. -/
def setDisposer (e : Engine) (id : Nat) (t : Option Task) : Engine :=
  e.modifySerial id fun s => { s with disposer := t }

/-- Points a serial queue at another queue; none means the shared queue of its priority.
A queue cannot target itself. -/
def setTarget (e : Engine) (id : Nat) (onto : Option QueueRef) : Except Fault Unit × Engine :=
  match e.serials[id]? with
  | none => (.ok (), e)
  | some s =>
    let tq := onto.getD (.global s.prio)
    if tq == .serial id then (.error (.aborted "dispatch: serial queue cannot target itself"), e)
    else (.ok (), e.modifySerial id fun s => { s with target := tq })

/-- Closes a context once: it is no longer registered, and letting its queue go closes its
tracker. -/
def closeContext (e : Engine) (c : Nat) : Except Fault Unit × Engine :=
  match e.contexts[c]? with
  | none => (.ok (), e)
  | some ctx =>
    if ctx.closed then (.ok (), e)
    else
      let e := e.modifyContext c fun ctx => { ctx with closed := true, registered := false }
      (e.setDisposer ctx.queue (some (.closeTracker c))).release ctx.queue

/-- The main worker and the pool run, the main worker first, until neither has work. -/
def runBothFor : Nat → Engine → Engine
  | 0, e => e
  | n + 1, e =>
    match e.stepWorker .main with
    | some e => runBothFor n e
    | none =>
      match e.live.findSome? (fun i => e.stepWorker (.pool i)) with
      | some e => runBothFor n e
      | none => e

/-- Lets the caller's thread serve the main worker until the work runs out; the call ends when
waiting slot `slot` has been cancelled, and refuses once the engine is shut down. -/
def dispatchMain (e : Engine) (slot : Nat) : Except Fault Unit × Engine :=
  if e.shutdown then (.error .shutDown, e)
  else
    let e := runBothFor stepBudget e.fireTimers
    match e.waits[slot]? with
    | some w => (if w.canceled then .error .canceled else .error .interrupted, e)
    | none => (.error .interrupted, e)

/-- A fresh counter starting at zero; gives its number. -/
def newCell (e : Engine) : Nat × Engine := (e.cells.size, { e with cells := e.cells.push 0 })

end Engine

end Courier.Dispatch
