import Courier.Dispatch.State
/-!
Posting work. A shared queue takes every item at its end. A worker's own queue sends items to
the shared queue once the worker has left, and otherwise keeps what the worker posts to itself
apart from what others post. A serial queue keeps its items and, unless suspended, posts one
drain job to its target whenever none is pending; following a chain of serial queues sets one
flag per queue, so it ends. Registering a context picks a worker: the calling pool worker, or
the next live worker in turn.
-/

set_option autoImplicit false

namespace Courier.Dispatch

open Courier.Queue

namespace Engine

/-- Puts an item at the end of a shared queue. -/
def pushGlobal (e : Engine) (p : Priority) (it : Item) : Engine :=
  { e with global := e.global.modify p (·.push it) }

/-- Puts an item into a worker's own queue, as posted from `scope`. -/
def pushThread (e : Engine) (scope : Scope) (w : WorkerId) (p : Priority) (it : Item) : Engine :=
  if e.terminated w then e.pushGlobal p it
  else if scope.worker == some w then
    e.modifyWorker w fun wk => { wk with lanes := wk.lanes.modify p fun l => { l with mine := l.mine.push it } }
  else
    e.modifyWorker w fun wk => { wk with lanes := wk.lanes.modify p fun l => { l with others := l.others.push it } }

/-- A serial queue that follows its callers moves to the calling pool worker, as long as it
still targets a shared queue. -/
def followCaller (e : Engine) (scope : Scope) (id : Nat) : Engine :=
  match scope.poolWorker, e.serials[id]? with
  | some w, some s =>
    match s.target with
    | .global _ => e.modifySerial id fun s => { s with target := .thread (.pool w) s.prio }
    | _ => e
  | _, _ => e

/-- Posts a drain of serial queue `id` to its target, unless one is pending. -/
def triggerWith (post : Engine → Scope → QueueRef → Item → Engine) (e : Engine) (scope : Scope)
    (id : Nat) : Engine :=
  match e.serials[id]? with
  | some s =>
    if s.triggered then e
    else post (e.modifySerial id fun s => { s with triggered := true }) scope s.target ⟨.drain id, none, none⟩
  | none => e

/-- Posts an item to a queue from `scope`, following at most `hops` serial queues. A context's
queue records the calling pool worker and context with every item that is not the engine's own. -/
def postWithin : Nat → Engine → Scope → QueueRef → Item → Engine
  | _, e, _, .global p, it => e.pushGlobal p it
  | _, e, scope, .thread w p, it => e.pushThread scope w p it
  | 0, e, _, .serial _, _ => e
  | hops + 1, e, scope, .serial id, it =>
    match e.serials[id]? with
    | none => e
    | some s =>
      let it := if s.pooled.isSome && !it.internal then
          { it with caller := scope.poolWorker, callerCtx := scope.pooled }
        else it
      let e := if s.options.stickToCaller then e.followCaller scope id else e
      let e := e.modifySerial id fun s => { s with tasks := s.tasks.push it, size := s.size + 1 }
      if s.suspended == 0 then triggerWith (postWithin hops) e scope id else e

/-- Posts an item to a queue from `scope`. -/
def post (e : Engine) (scope : Scope) (q : QueueRef) (it : Item) : Engine :=
  postWithin (e.serials.size + 1) e scope q it

/-- Posts a drain of a serial queue to its target, unless one is pending. -/
def trigger (e : Engine) (scope : Scope) (id : Nat) : Engine :=
  triggerWith (postWithin e.serials.size) e scope id

/-- Posts a task to a queue from `scope`. -/
def dispatchAsync (e : Engine) (scope : Scope) (q : QueueRef) (t : Task) : Engine :=
  e.post scope q ⟨.task t, none, none⟩

/-- The place the turn counter names among `len` live workers: the counter's remainder by `len`,
which takes the counter's sign, so a counter that has wrapped past 2^63 - 1 names a place before
the first. -/
def turnIndex (next : Int64) (len : Nat) : Int := next.toInt.tmod len

/-- The next live worker in turn, and the counter moved on. A counter that names a place before
the first fails as an index out of range, and changes nothing. -/
def nextInTurn (e : Engine) : Except Fault Nat × Engine :=
  let i := turnIndex e.next e.live.length
  if i < 0 then (.error (.aborted ("runtime error: index out of range [" ++ toString i ++ "]")), e)
  else (.ok (e.live.getD i.toNat 0), { e with next := e.next + 1 })

/-- The worker that takes new work from `scope`: the calling pool worker while it is there,
else the next live worker in turn. Refused once shut down or when no worker is live. -/
def chooseWorker (e : Engine) (scope : Scope) : Except Fault Nat × Engine :=
  if e.shutdown || e.live.isEmpty then (.error .rejected, e)
  else
    match scope.poolWorker with
    | some w => if e.terminated (.pool w) then e.nextInTurn else (.ok w, e)
    | none => e.nextInTurn

/-- A label made unique. -/
def freshLabel (e : Engine) (kind : String) : String := kind ++ "-" ++ e.uniqueTag

/-- Registers a context from `scope`: a serial queue on the chosen worker's own queue, and a
tracker for the balancer. -/
def register (e : Engine) (scope : Scope) (label : String) (dispatchable : Option Task)
    (options : QueueOptions) : Except Fault Nat × Engine :=
  let label := if label.isEmpty then e.freshLabel "context" else label
  match e.chooseWorker scope with
  | (.error f, e) => (.error f, e)
  | (.ok w, e) =>
    let id := e.contexts.size
    let q := e.serials.size
    let e := { e with
      serials := e.serials.push (Serial.create label .normal (.thread (.pool w) .normal) options (some id))
      contexts := e.contexts.push ⟨label, dispatchable, q, w, false, false, true, Tracker.create id⟩ }
    (.ok id, e)

/-- Asks a context to run its dispatchable: posts one run unless one is pending, the context is
closed, or it has nothing to run. -/
def requestDispatch (e : Engine) (scope : Scope) (c : Nat) : Engine :=
  match e.contexts[c]? with
  | some ctx =>
    match ctx.dispatchable with
    | some fn =>
      if ctx.closed || ctx.pending then e
      else (e.modifyContext c fun ctx => { ctx with pending := true }).dispatchAsync scope
        (.serial ctx.queue) (.seq (.clearPending c) fn)
    | none => e
  | none => e

/-- Moves a context to a pool worker: its queue then targets that worker's own queue. -/
def assignTo (e : Engine) (c : Nat) (w : Nat) : Engine :=
  match e.contexts[c]? with
  | some ctx =>
    if ctx.owner == w then e
    else
      let e := e.modifyContext c fun ctx => { ctx with owner := w }
      let e := e.modifySerial ctx.queue fun s => { s with target := .thread (.pool w) s.prio }
      { e with counters := { e.counters with migrations := e.counters.migrations + 1 } }
  | none => e

end Engine

end Courier.Dispatch
