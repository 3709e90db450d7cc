import Courier.Dispatch.Task

/-!
# Parking and waking the pool

The pool's workers and the goroutines that post to them meet at a few shared places: each
worker's wake channel (room for one signal), its state word, its queues, the dispatcher's idle
list of parked workers, and the global queues. This layer runs them one atomic step at a time:
each critical section under the idle lock or a queue lock, each atomic load or store, each push
or pop of a lock-free list and each send or receive on a wake channel is one step, and any
goroutine may take the next one.

A worker runs its scheduling loop: it looks through its own queue and the global queue of each
priority in turn, runs what it finds, and otherwise parks. Parking puts it on the idle list and
stores `idle` before it looks at every queue once more; only then does it wait on its wake
channel. A post pushes its item, then wakes: a post to a global queue wakes the worker parked
last, a post to a worker's shared list wakes the owner, and a post to a worker's local list (made
with the worker's own context, by one of its tasks or a goroutine a task started) wakes the owner
only when the owner's state reads `idle`.

The layer covers the pool workers (the main worker never parks) from their start until Shutdown:
no worker gets its stopping job, and none leaves its loop. Every task runs under `execute`,
which recovers its panics; what a worker runs outside it is the drain of a serial queue and, for
a pooled context, the balancer's tracker, which the layer takes to return (a tracker that panics
ends the worker's loop, and such an exit is left out). Locks and atomics are sequentially
consistent, so an interleaving of these steps is what the pool can do. A worker's run of an
item is one step; the posts the item makes are posts like any other. The queues are read through
their items: the lists' own behaviour is that of `Courier.Queue.Chunked` and
`Courier.Queue.Linked`.
-/

set_option autoImplicit false

namespace Courier.Dispatch.Wake

/-- Where a worker takes items from, within one priority: its local list (`mine`: posts made with
the worker's own context), its shared list (`others`: posts from anywhere else), and the global
queue. -/
inductive Source where
  | mine
  | others
  | global
deriving DecidableEq, Repr

/-- The sources a worker looks at, in order: for each priority, its local list, its shared list,
then the global queue. -/
def slots : List (Priority × Source) :=
  Priority.all.flatMap fun p => [(p, .mine), (p, .others), (p, .global)]

/-- What a worker stores in its state word, for the other goroutines to read. -/
inductive Status where
  | starting
  | running
  | idle
deriving DecidableEq, Repr

/-- Where a worker stands in its loop: each point is just before one atomic step. -/
inductive Pc where
  /-- Not yet in its loop: it stores `running` first. -/
  | start
  /-- Looking for an item: it pops from the `k`-th source; past the last one it parks. -/
  | seek (k : Nat)
  /-- Running the item it took. -/
  | run
  /-- Parking: it joins the idle list, ... -/
  | addIdle
  /-- ... stores `idle`, ... -/
  | storeIdle
  /-- ... and looks at the `k`-th source once more; past the last one it waits. -/
  | check (k : Nat)
  /-- Receiving on its wake channel. -/
  | wait
  /-- Back from parking: it leaves the idle list ... -/
  | removeIdle
  /-- ... and stores `running`. -/
  | resume
deriving DecidableEq, Repr

/-- A pool worker, as the goroutines of the pool see it. -/
structure Worker where
  pc : Pc
  status : Status
  /-- On the dispatcher's idle list; guarded, like the list, by the idle lock. -/
  idle : Bool
  /-- The wake channel holds a signal. -/
  woken : Bool
  /-- The local list of each priority. -/
  mine : PerPriority (List Item)
  /-- The shared list of each priority. -/
  others : PerPriority (List Item)

/-- Blocked receiving on an empty wake channel. -/
def Worker.blocked (wk : Worker) : Prop := wk.pc = .wait ∧ wk.woken = false

/-- Started: its loop runs. -/
def Worker.live (wk : Worker) : Prop := wk.status ≠ .starting

instance (wk : Worker) : Decidable wk.blocked := inferInstanceAs (Decidable (_ ∧ _))

instance (wk : Worker) : Decidable wk.live := inferInstanceAs (Decidable (_ ≠ _))

/-- What is left of a post once it has pushed its item: its wake-up. -/
inductive Call (n : Nat) where
  /-- After a post to a global queue: `wakeupOne` takes the worker parked last off the idle list. -/
  | wakeOne
  /-- After a post to a worker's local list: it reads the worker's state, and wakes the worker
  only if it is idle. -/
  | readStatus (w : Fin n)
  /-- `wakeup`: it takes the worker off the idle list ... -/
  | removeIdle (w : Fin n)
  /-- ... and sends on its wake channel, unless a signal is already there. -/
  | signal (w : Fin n)
deriving DecidableEq, Repr

/-- Where a post goes: a global queue, or a worker's own queue of a priority, on its local list
when the post carries the worker's context and on its shared list otherwise. -/
inductive Target (n : Nat) where
  | global (p : Priority)
  | mine (w : Fin n) (p : Priority)
  | others (w : Fin n) (p : Priority)

/-- Who takes the next step: a worker, a post under way, or a new post, which pushes its item. -/
inductive Act (n : Nat) where
  | worker (w : Fin n)
  | call (c : Call n)
  | post (t : Target n) (it : Item)

/-- The pool of `n` workers: the workers, the global queue of each priority, the idle list (the
worker parked last at its end) and the posts under way. -/
structure Pool (n : Nat) where
  workers : Fin n → Worker
  global : PerPriority (List Item)
  idleList : List (Fin n)
  calls : List (Call n)

namespace Pool

variable {n : Nat}

/-- A new pool: no worker has started, every queue is empty and nobody is parked. -/
def init (n : Nat) : Pool n where
  workers := fun _ =>
    { pc := .start, status := .starting, idle := false, woken := false,
      mine := PerPriority.uniform [], others := PerPriority.uniform [] }
  global := PerPriority.uniform []
  idleList := []
  calls := []

/-- Changes one worker. -/
def modify (s : Pool n) (w : Fin n) (f : Worker → Worker) : Pool n :=
  { s with workers := fun v => if v = w then f (s.workers w) else s.workers v }

/-- Moves a worker to another point of its loop. -/
def goto (s : Pool n) (w : Fin n) (pc : Pc) : Pool n :=
  s.modify w fun wk => { wk with pc := pc }

/-- The items of a source, as worker `w` sees it. -/
def source (s : Pool n) (w : Fin n) : Priority × Source → List Item
  | (p, .mine) => (s.workers w).mine.get p
  | (p, .others) => (s.workers w).others.get p
  | (p, .global) => s.global.get p

/-- Replaces the items of a source, as worker `w` sees it. -/
def setSource (s : Pool n) (w : Fin n) : Priority × Source → List Item → Pool n
  | (p, .mine), l => s.modify w fun wk => { wk with mine := wk.mine.set p l }
  | (p, .others), l => s.modify w fun wk => { wk with others := wk.others.set p l }
  | (p, .global), l => { s with global := s.global.set p l }

/-- Sets a worker's flag and the idle list, both guarded by the idle lock. -/
def setIdle (s : Pool n) (w : Fin n) (b : Bool) (l : List (Fin n)) : Pool n :=
  { s.modify w (fun wk => { wk with idle := b }) with idleList := l }

/-- `addIdle`: a worker not on the idle list joins it, at the end. -/
def addIdle (s : Pool n) (w : Fin n) : Pool n :=
  if (s.workers w).idle then s else s.setIdle w true (s.idleList ++ [w])

/-- `removeIdle`: a worker on the idle list leaves it. -/
def removeIdle (s : Pool n) (w : Fin n) : Pool n :=
  if (s.workers w).idle then s.setIdle w false (s.idleList.erase w) else s

/-- A post continues with another step of its wake-up. -/
def await (s : Pool n) (c : Call n) : Pool n := { s with calls := c :: s.calls }

/-- A post's step is done. -/
def finish (s : Pool n) (c : Call n) : Pool n := { s with calls := s.calls.erase c }

/-- One step of worker `w`; none while it is blocked on an empty wake channel. -/
def stepWorker (s : Pool n) (w : Fin n) : Option (Pool n) :=
  match (s.workers w).pc with
  | .start => some (s.modify w fun wk => { wk with pc := .seek 0, status := .running })
  | .seek k =>
    match slots[k]? with
    | none => some (s.goto w .addIdle)
    | some x =>
      match s.source w x with
      | [] => some (s.goto w (.seek (k + 1)))
      | _ :: rest => some ((s.setSource w x rest).goto w .run)
  | .run => some (s.goto w (.seek 0))
  | .addIdle => some ((s.addIdle w).goto w .storeIdle)
  | .storeIdle => some (s.modify w fun wk => { wk with pc := .check 0, status := .idle })
  | .check k =>
    match slots[k]? with
    | none => some (s.goto w .wait)
    | some x => some (s.goto w (if (s.source w x).isEmpty then .check (k + 1) else .removeIdle))
  | .wait =>
    if (s.workers w).woken then some (s.modify w fun wk => { wk with pc := .removeIdle, woken := false })
    else none
  | .removeIdle => some ((s.removeIdle w).goto w .resume)
  | .resume => some (s.modify w fun wk => { wk with pc := .seek 0, status := .running })

/-- One step of a post under way. -/
def stepCall (s : Pool n) (c : Call n) : Pool n :=
  match c with
  | .wakeOne =>
    match s.idleList.getLast? with
    | none => s.finish c
    | some v => ((s.finish c).setIdle v false s.idleList.dropLast).await (.signal v)
  | .readStatus w =>
    if (s.workers w).status = .idle then (s.finish c).await (.removeIdle w) else s.finish c
  | .removeIdle w => ((s.finish c).removeIdle w).await (.signal w)
  | .signal w => (s.finish c).modify w fun wk => { wk with woken := true }

/-- A new post pushes its item at the end of its list; its wake-up is then under way. -/
def post (s : Pool n) : Target n → Item → Pool n
  | .global p, it => { s with global := s.global.modify p (· ++ [it]) }.await .wakeOne
  | .mine w p, it =>
    (s.modify w fun wk => { wk with mine := wk.mine.modify p (· ++ [it]) }).await (.readStatus w)
  | .others w p, it =>
    (s.modify w fun wk => { wk with others := wk.others.modify p (· ++ [it]) }).await (.removeIdle w)

/-- One step of the pool; none if the one named cannot move. -/
def step (s : Pool n) : Act n → Option (Pool n)
  | .worker w => s.stepWorker w
  | .call c => if c ∈ s.calls then some (s.stepCall c) else none
  | .post t it => some (s.post t it)

/-- The states of the pool reachable from a new pool, whatever goroutine moves at each step. -/
inductive Reachable : Pool n → Prop
  | init : Reachable (init n)
  | step {s s' : Pool n} (a : Act n) (h : Reachable s) (hs : s.step a = some s') : Reachable s'

/-- The pool after a run of steps, if every step could be taken. -/
def run (s : Pool n) (as : List (Act n)) : Option (Pool n) := as.foldlM step s

-- A lone worker that finds nothing parks and blocks after 23 steps; a post to a global queue
-- takes it off the idle list and signals it, and it leaves its wait.
example : ((Pool.init 1).run (List.replicate 23 (.worker 0))).map
    (fun s => decide (s.workers 0).blocked) = some true := by decide

example : ((Pool.init 1).run (List.replicate 23 (.worker 0) ++
    [.post (.global .normal) default, .call .wakeOne, .call (.signal 0), .worker 0])).map
    (fun s => (s.workers 0).pc) = some .removeIdle := by decide

end Pool

end Courier.Dispatch.Wake
