import Courier.Dispatch.Task
import Courier.Dispatch.Fault
import Courier.Dispatch.Balancer.Basic
import Courier.Queue.Chunked
import Courier.Queue.Linked
/-!
The state of an engine: shared queues by priority, a main worker and a pool of workers with
their own queues, serial queues, registered contexts, the balancer and the timer. The state also
holds what tasks leave behind for their callers: the journal of written lines, counters, and the
slots of callers waiting for work to finish.
-/

set_option autoImplicit false

namespace Courier.Dispatch

open Courier.Queue

/-- A worker's own queue of one priority: items posted by the worker itself, kept apart from
items posted from elsewhere. The worker takes its own first. -/
structure Lane where
  mine : Chunked Item
  others : Linked Item

/-- A lane with nothing in it. -/
def Lane.empty : Lane := ⟨Chunked.empty, Linked.empty⟩

/-- The lifecycle of a worker. -/
inductive WorkerStatus where
  | running
  /-- It ran its stopping job and leaves after the current item. -/
  | stopping
  | terminated
deriving DecidableEq, Repr

/-- A worker with its own queues. -/
structure Worker where
  name : String
  lanes : PerPriority Lane
  status : WorkerStatus

/-- A running worker with empty queues. -/
def Worker.create (name : String) : Worker := ⟨name, PerPriority.uniform Lane.empty, .running⟩

/-- A serial queue: its items run one at a time, in order, by draining it on its target. -/
structure Serial where
  label : String
  prio : Priority
  options : QueueOptions
  target : QueueRef
  tasks : Linked Item
  /-- Items posted and not yet taken by a drain. -/
  size : Int
  /-- Whether a drain is posted to the target and has not finished. -/
  triggered : Bool
  /-- Suspensions not yet lifted, as a 32-bit count that wraps from 2^31 - 1 to -2^31. -/
  suspended : Int32
  pinned : Bool
  /-- Holds of the queue, as a 32-bit count that wraps too. -/
  refs : Int32
  disposed : Bool
  disposer : Option Task
  /-- The context this queue belongs to, if any. -/
  pooled : Option Nat

/-- A fresh serial queue on a target, held once. -/
def Serial.create (label : String) (prio : Priority) (target : QueueRef) (options : QueueOptions)
    (pooled : Option Nat) : Serial :=
  ⟨label, prio, options, target, Linked.empty, 0, false, 0, false, 1, false, none, pooled⟩

/-- A registered context: a serial queue owned by a pool worker, and a dispatchable it runs on
request. -/
structure Context where
  label : String
  dispatchable : Option Task
  queue : Nat
  owner : Nat
  pending : Bool
  closed : Bool
  registered : Bool
  tracker : Tracker Nat

/-- What a caller waiting on a group of tasks gets back. -/
structure Wait where
  remaining : Nat
  failure : Option String
  seen : Option Scope
  made : Option (Except Fault Nat)
  canceled : Bool

/-- A slot for `n` tasks to finish. -/
def Wait.create (n : Nat) : Wait := ⟨n, none, none, none, false⟩

/-- Counters of what happened. -/
structure Counters where
  taskPanics : Nat
  migrations : Nat
  fatalExits : Nat
  liveWorkers : Int
  timerFired : Nat

/-- The configuration an engine is made from. -/
structure Settings where
  label : String
  threads : Int
  spinThreshold : Int
  rebalanceInterval : Int

/-- Checks a configuration: no count or duration may be negative. -/
def Settings.validate (s : Settings) : Except Fault Unit :=
  if s.threads < 0 then .error (.invalidConfig (.negativeThreads s.threads))
  else if s.spinThreshold < 0 then .error (.invalidConfig .negativeSpin)
  else if s.rebalanceInterval < 0 then .error (.invalidConfig .negativeInterval)
  else .ok ()

/-- The label an engine takes when none is given. -/
def defaultLabel : String := "dispatcher"

/-- An engine. -/
structure Engine where
  label : String
  threads : Nat
  /-- The pool worker whose start fails, if any. -/
  failAt : Option Nat
  /-- The unique part of generated labels. -/
  uniqueTag : String
  global : PerPriority (Linked Item)
  main : Worker
  mainQueue : Nat
  /-- Every pool worker ever created, by index. -/
  workers : Array Worker
  /-- The live pool workers, in the order they started. -/
  live : List Nat
  /-- The counter by which live workers are taken in turn, as a 64-bit count that wraps from
  2^63 - 1 to -2^63. -/
  next : Int64
  serials : Array Serial
  contexts : Array Context
  started : Bool
  shutdown : Bool
  counters : Counters
  balancer : Balancer Nat
  timer : Timer (QueueRef × Task)
  clock : Int
  waits : Array Wait
  journal : Array (String × String)
  cells : Array Int64

namespace Engine

/-- The name of a worker. -/
def workerName (e : Engine) : WorkerId → String
  | .main => e.label ++ "-main"
  | .pool i => e.label ++ "-" ++ toString i

/-- A new engine: checks the configuration, names it, and makes the shared queues, the main
worker and the main queue; no pool worker runs yet. `cpus` is the worker count taken when the
configuration asks for none. -/
def create (s : Settings) (cpus : Nat) (balancer : Balancer Nat) (failAt : Option Nat)
    (uniqueTag : String) (clock : Int) : Except Fault Engine := do
  s.validate
  let label := if s.label.isEmpty then defaultLabel else s.label
  let threads := if s.threads = 0 then cpus else s.threads.toNat
  pure {
    label, threads, failAt, uniqueTag, clock, balancer
    global := PerPriority.uniform Linked.empty
    main := Worker.create (label ++ "-main")
    mainQueue := 0
    workers := #[]
    live := []
    next := 0
    serials := #[Serial.create (label ++ "-main") .normal (.thread .main .normal) {} none]
    contexts := #[]
    started := false
    shutdown := false
    counters := ⟨0, 0, 0, 0, 0⟩
    timer := Timer.fresh
    waits := #[]
    journal := #[]
    cells := #[] }

/-- A worker's state. -/
def worker? (e : Engine) : WorkerId → Option Worker
  | .main => some e.main
  | .pool i => e.workers[i]?

/-- Changes a worker's state. -/
def modifyWorker (e : Engine) (w : WorkerId) (f : Worker → Worker) : Engine :=
  match w with
  | .main => { e with main := f e.main }
  | .pool i => { e with workers := e.workers.modify i f }

/-- Whether a worker has left for good. -/
def terminated (e : Engine) (w : WorkerId) : Bool :=
  match e.worker? w with
  | some wk => wk.status == .terminated
  | none => true

/-- Changes a serial queue. -/
def modifySerial (e : Engine) (id : Nat) (f : Serial → Serial) : Engine :=
  { e with serials := e.serials.modify id f }

/-- Changes a context. -/
def modifyContext (e : Engine) (id : Nat) (f : Context → Context) : Engine :=
  { e with contexts := e.contexts.modify id f }

/-- Changes a waiting slot. -/
def modifyWait (e : Engine) (slot : Nat) (f : Wait → Wait) : Engine :=
  { e with waits := e.waits.modify slot f }

/-- Opens a waiting slot for `n` tasks; gives its number. -/
def openWait (e : Engine) (n : Nat) : Nat × Engine :=
  (e.waits.size, { e with waits := e.waits.push (Wait.create n) })

/-- Writes a line to the journal. -/
def write (e : Engine) (channel line : String) : Engine :=
  { e with journal := e.journal.push (channel, line) }

/-- The label of a queue. -/
def queueLabel (e : Engine) : QueueRef → String
  | .global p => e.label ++ "-global-" ++ p.label
  | .thread w p => e.workerName w ++ "-" ++ p.label
  | .serial id => match e.serials[id]? with
    | some s => s.label
    | none => ""

/-- The priority of a queue. -/
def queuePriority (e : Engine) : QueueRef → Priority
  | .global p => p
  | .thread _ p => p
  | .serial id => match e.serials[id]? with
    | some s => s.prio
    | none => .normal

/-- The queue a queue hands its work to: only serial queues have one. -/
def queueTarget (e : Engine) : QueueRef → Option QueueRef
  | .serial id => e.serials[id]?.map Serial.target
  | _ => none

/-- Whether a queue is suspended: only serial queues can be. -/
def queueSuspended (e : Engine) : QueueRef → Bool
  | .serial id => match e.serials[id]? with
    | some s => decide (0 < s.suspended)
    | none => false
  | _ => false

end Engine

end Courier.Dispatch
