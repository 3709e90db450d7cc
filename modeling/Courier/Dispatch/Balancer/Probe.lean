import Courier.Dispatch.Balancer.Basic
/-!
A balancer driven step by step against stand-ins: dispatchers are bare names, a context is a
label with an owner that a move simply overwrites, and the scheduler writes down every delay
asked of it and keeps the passes until they are run on request (or refuses them all). It runs
its passes one at a time, oldest first; a run on request takes the passes waiting when it
begins, so a pass that one of them asks for waits for the next run. Each step also reports the
moves the balancer made during it.
-/

set_option autoImplicit false

namespace Courier.Dispatch

/-- A step of a balancer session. -/
inductive BalancerStep where
  | start
  | stop
  | running
  | memberStarted (name : String)
  | memberStopped (name : String)
  | members
  /-- A stand-in context with an optional owner. -/
  | context (label : String) (owner : Option String)
  /-- A tracker named `id` for the context `ctx`. -/
  | track (ctx id : String)
  | request (tracker : String) (caller : Option String) (callerCtx : Option String)
  | close (tracker : String)
  | owner (ctx : String)
  | assign (ctx owner : String)
  | counters
  /-- Runs, one at a time, the passes waiting in the scheduler when it begins. -/
  | tick
  | scheduled

/-- What a step of a balancer session answers. -/
inductive BalancerReply where
  | none
  | flag (b : Bool)
  | names (ns : List String)
  | owner (o : Option String)
  | counters (migrations passes : Nat)
  | count (n : Nat)
  | delays (ds : List Int)

/-- A move: the context, the owner it left and the dispatcher it went to. -/
abbrev Move := String × Option String × String

/-- A balancer with its stand-ins. -/
structure BalancerProbe where
  balancer : Balancer String
  owners : List (String × Option String)
  trackers : List (String × Tracker String)
  delays : Array Int
  queued : Nat
  refuses : Bool
  moves : Array Move

namespace BalancerProbe

/-- A session over a balancer; `refuses` makes the scheduler refuse every pass. -/
def initial (b : Balancer String) (refuses : Bool) : BalancerProbe := ⟨b, [], [], #[], 0, refuses, #[]⟩

/-- Asks the scheduler for the next pass. -/
def arm (p : BalancerProbe) : BalancerProbe :=
  { p with delays := p.delays.push p.balancer.interval, queued := if p.refuses then p.queued else p.queued + 1 }

/-- Runs the oldest waiting pass, as the scheduler runs its callbacks, one at a time: the
balancer's pass, which may ask for the next one; nothing when no pass waits. -/
def runNext (p : BalancerProbe) : Option BalancerProbe :=
  if p.queued = 0 then none
  else
    let (b, again) := p.balancer.pass
    let p := { p with balancer := b, queued := p.queued - 1 }
    some (if again then p.arm else p)

/-- Runs up to `n` waiting passes in turn. -/
def runPasses (p : BalancerProbe) : Nat → BalancerProbe
  | 0 => p
  | n + 1 =>
    match p.runNext with
    | some p => runPasses p n
    | none => p

/-- The owner of a stand-in context. -/
def ownerOf (p : BalancerProbe) (ctx : String) : Except String (Option String) :=
  match p.owners.lookup ctx with
  | some o => .ok o
  | none => .error ("unknown context " ++ ctx)

/-- Replaces or adds an entry of an association list. -/
def setEntry {β : Type} (k : String) (v : β) (xs : List (String × β)) : List (String × β) :=
  if xs.any (·.1 == k) then xs.map (fun e => if e.1 == k then (k, v) else e) else xs ++ [(k, v)]

/-- Refuses what the inert balancer cannot answer. -/
def needsActive (p : BalancerProbe) (r : BalancerReply) : Except String BalancerReply :=
  if p.balancer.enabled then .ok r else .error "noop balancer"

/-- Applies a step; the moves it made are in `moves` afterwards. -/
def step (p : BalancerProbe) (s : BalancerStep) : Except String (BalancerReply × BalancerProbe) := do
  let p := { p with moves := #[] }
  match s with
  | .start =>
    let (b, arming) := p.balancer.start
    let p := { p with balancer := b }
    let p := if arming then p.arm else p
    pure (.flag p.balancer.running, p)
  | .stop => let p := { p with balancer := p.balancer.stop }; pure (.flag p.balancer.running, p)
  | .running => pure (.flag p.balancer.running, p)
  | .memberStarted n => pure (.none, { p with balancer := p.balancer.memberStarted n })
  | .memberStopped n => pure (.none, { p with balancer := p.balancer.memberStopped n })
  | .members => pure (← p.needsActive (.names p.balancer.members), p)
  | .context label owner => pure (.none, { p with owners := setEntry label owner p.owners })
  | .track ctx id =>
    let _ ← p.ownerOf ctx
    pure (.none, { p with trackers := setEntry id (Tracker.create ctx) p.trackers })
  | .request id caller callerCtx =>
    let some t := p.trackers.lookup id | .error ("unknown tracker " ++ id)
    if let some c := callerCtx then let _ ← p.ownerOf c
    let owner ← p.ownerOf t.subject
    let (t, target) := t.observe p.balancer.running owner caller callerCtx
    let p := { p with trackers := setEntry id t p.trackers }
    match target with
    | some w =>
      pure (.none, { p with
        owners := setEntry t.subject (some w) p.owners
        balancer := p.balancer.noteMigration
        moves := p.moves.push (t.subject, owner, w) })
    | none => pure (.none, p)
  | .close id =>
    let some t := p.trackers.lookup id | .error ("unknown tracker " ++ id)
    pure (.none, { p with trackers := setEntry id t.close p.trackers })
  | .owner ctx => pure (.owner (← p.ownerOf ctx), p)
  | .assign ctx owner =>
    let _ ← p.ownerOf ctx
    pure (.none, { p with owners := setEntry ctx (some owner) p.owners })
  | .counters => pure (← p.needsActive (.counters p.balancer.migrations p.balancer.passes), p)
  -- the passes waiting when the scheduler runs; those they ask for wait for its next run
  | .tick => pure (.count p.queued, runPasses p p.queued)
  | .scheduled => pure (.delays p.delays.toList, p)

end BalancerProbe

end Courier.Dispatch
