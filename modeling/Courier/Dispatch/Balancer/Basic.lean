/-!
Load balancing of contexts across dispatchers. A tracker watches the requests for one context's
work. While every request comes from one other context, the tracked context follows the
dispatcher that made the request: it is moved there whenever that dispatcher is not already its
owner. Once a second source shows up the tracker only counts requests per source and moves
nothing. The balancer itself keeps the running flag, the dispatchers that have started, and the
counts of moves and of periodic passes; a pass, while running, asks for the next one.
-/

set_option autoImplicit false

namespace Courier.Dispatch

/-- What a tracker knows about the sources of requests for its context. -/
structure Tracker (κ : Type) where
  subject : κ
  singleSource : Bool
  source : Option κ
  sourceCalls : Nat
  calls : List (κ × Nat)
  closed : Bool

namespace Tracker

variable {κ : Type} [BEq κ]

/-- A tracker that has seen no request yet. -/
def create (subject : κ) : Tracker κ := ⟨subject, true, none, 0, [], false⟩

/-- Adds one to the count of a source. -/
def bump (c : κ) : List (κ × Nat) → List (κ × Nat)
  | [] => [(c, 1)]
  | (k, n) :: rest => if k == c then (k, n + 1) :: rest else (k, n) :: bump c rest

/-- Takes note of one request made from `callerCtx` on dispatcher `caller`, while the tracked
context is owned by `owner`. Gives the tracker afterwards and the dispatcher the context is to
move to, if any. Requests without a calling context, or from the tracked context itself, are
ignored, and so is everything while the balancer is not running or the tracker is closed. -/
def observe {δ : Type} [BEq δ] (t : Tracker κ) (running : Bool) (owner : Option δ)
    (caller : Option δ) (callerCtx : Option κ) : Tracker κ × Option δ :=
  if t.closed || !running then (t, none)
  else
    match callerCtx with
    | none => (t, none)
    | some c =>
      if c == t.subject then (t, none)
      else if t.singleSource then
        let source := t.source.getD c
        if source == c then
          let t := { t with source := some source, sourceCalls := t.sourceCalls + 1 }
          match caller with
          | some w => (t, if owner == some w then none else some w)
          | none => (t, none)
        else
          ({ t with singleSource := false, source := none,
                    calls := bump c [(source, t.sourceCalls)] }, none)
      else ({ t with calls := bump c t.calls }, none)

/-- Stops watching; later requests are ignored. -/
def close (t : Tracker κ) : Tracker κ := { t with closed := true, calls := [], source := none }

/-- The requests counted for each source: the one source while there is one, with its count,
else the count of every source. -/
def callers (t : Tracker κ) : List (κ × Nat) :=
  if t.singleSource then
    match t.source with
    | some s => [(s, t.sourceCalls)]
    | none => []
  else t.calls

end Tracker

/-- A balancer. One that is not `enabled` never runs, tracks nothing and moves nothing. -/
structure Balancer (δ : Type) where
  enabled : Bool
  running : Bool
  migrations : Nat
  passes : Nat
  /-- Dispatchers in the order they started. -/
  members : List δ
  /-- Nanoseconds between periodic passes; none unless positive. -/
  interval : Int
  /-- Whether anything is there to schedule passes. -/
  schedulable : Bool

namespace Balancer

variable {δ : Type}

/-- A balancer that moves contexts, with passes every `interval` when a scheduler is given. -/
def active (interval : Int) (schedulable : Bool) : Balancer δ :=
  ⟨true, false, 0, 0, [], interval, schedulable⟩

/-- The balancer that does nothing. -/
def inert : Balancer δ := ⟨false, false, 0, 0, [], 0, false⟩

/-- Starts running; the flag says whether the first pass is to be scheduled now. -/
def start (b : Balancer δ) : Balancer δ × Bool :=
  if !b.enabled || b.running then (b, false)
  else ({ b with running := true }, decide (0 < b.interval) && b.schedulable)

/-- Stops running. -/
def stop (b : Balancer δ) : Balancer δ := { b with running := false }

/-- Records a dispatcher that started. -/
def memberStarted (b : Balancer δ) (d : δ) : Balancer δ :=
  if b.enabled then { b with members := b.members ++ [d] } else b

/-- Forgets the first record of a dispatcher that stopped. -/
def memberStopped [BEq δ] (b : Balancer δ) (d : δ) : Balancer δ :=
  if b.enabled then { b with members := b.members.erase d } else b

/-- A periodic pass: counted while running, and then the next one is to be scheduled. -/
def pass (b : Balancer δ) : Balancer δ × Bool :=
  if b.running then ({ b with passes := b.passes + 1 }, true) else (b, false)

/-- Counts one move of a context. -/
def noteMigration (b : Balancer δ) : Balancer δ := { b with migrations := b.migrations + 1 }

end Balancer

end Courier.Dispatch
