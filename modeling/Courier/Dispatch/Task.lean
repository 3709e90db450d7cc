import Courier.Dispatch.Priority
/-!
The work an engine runs. Queues are named by kind: the shared queue of a priority, a worker's
own queue of a priority, or a serial queue by number. Tasks are programs in a small language of
effects: write a line to the journal, fail, ask a context to run, post more work, change a
counter, register a context, or note where they run. What sits in a queue is an item: a task,
one member of a group that a caller waits for, or one of the engine's own jobs (draining a
serial queue, stopping a worker), with the worker and context that asked for it.
-/

set_option autoImplicit false

namespace Courier.Dispatch

/-- A worker: the main worker, or a pool worker by index. -/
inductive WorkerId where
  | main
  | pool (index : Nat)
deriving DecidableEq, Repr, Inhabited

/-- A queue: shared by priority, owned by a worker, or serial by number. -/
inductive QueueRef where
  | global (p : Priority)
  | thread (w : WorkerId) (p : Priority)
  | serial (id : Nat)
deriving DecidableEq, Repr, Inhabited

/-- How a serial queue follows workers. -/
structure QueueOptions where
  /-- Bind to the worker that drains it first. -/
  stickToDrainer : Bool := false
  /-- Move to the worker that posts to it, while it targets a shared queue. -/
  stickToCaller : Bool := false
deriving DecidableEq, Repr, Inhabited

/-- Where a task runs: the worker, the queue it was taken from, and the context it runs for. -/
structure Scope where
  worker : Option WorkerId := none
  queue : Option QueueRef := none
  pooled : Option Nat := none
deriving DecidableEq, Repr, Inhabited

/-- The scope of a caller outside every worker. -/
def Scope.outside : Scope := {}

/-- The pool worker of a scope, if it runs on one. -/
def Scope.poolWorker (s : Scope) : Option Nat :=
  match s.worker with
  | some (.pool i) => some i
  | _ => none

/-- Tasks, as programs of effects. -/
inductive Task where
  | noop
  /-- Writes `line` to the journal under `channel`. -/
  | log (channel line : String)
  /-- Fails with a message; the rest of a sequence is skipped. -/
  | fail (message : String)
  | seq (first second : Task)
  /-- Asks a context to run its dispatchable. -/
  | request (ctx : Nat)
  /-- Posts a task to a queue. -/
  | post (q : QueueRef) (t : Task)
  /-- Adds to a counter, wrapping around. -/
  | add (cell : Nat) (amount : Int64)
  /-- Registers a context and leaves the outcome in a waiting slot. -/
  | register (slot : Nat) (label : String) (dispatchable : Option Task) (options : QueueOptions)
  /-- Leaves the scope it runs in in a waiting slot. -/
  | probe (slot : Nat)
  /-- Marks a waiting slot as cancelled. -/
  | cancel (slot : Nat)
  /-- Closes the balancer's tracker of a context. -/
  | closeTracker (ctx : Nat)
  /-- Clears a context's pending request, so that the next request posts a run again. -/
  | clearPending (ctx : Nat)
deriving Inhabited

/-- What an item does. -/
inductive Job where
  | task (t : Task)
  /-- One member of a group a caller waits on: it runs the task, keeps the first failure and
  counts itself off. -/
  | member (slot : Nat) (t : Task)
  /-- The engine's own job of draining a serial queue. -/
  | drain (q : Nat)
  /-- The engine's own job of stopping a pool worker. -/
  | pill (w : Nat)
deriving Inhabited

/-- An item in a queue, with the pool worker and the context that posted it, where known. -/
structure Item where
  job : Job
  caller : Option Nat := none
  callerCtx : Option Nat := none
deriving Inhabited

/-- Whether an item is one of the engine's own jobs. -/
def Item.internal (it : Item) : Bool :=
  match it.job with
  | .drain _ | .pill _ => true
  | .task _ | .member _ _ => false

end Courier.Dispatch
