import Courier.Dispatch.Timer.Basic
/-!
A timer driven step by step against a target that records what fires. Each job is a tag that
the target writes down; a job marked to fail is written down and then makes the target fail,
which the timer survives without counting the firing. After every step of a started timer the
loop runs up to an hour past the clock, so that a request counts as due unless it lies more than
an hour ahead. The clock starts on the thirteenth of November 2026, later than every date the
sessions treat as past, and moves only when told to.
-/

set_option autoImplicit false

namespace Courier.Dispatch

/-- A step of a timer session. -/
inductive TimerStep where
  /-- A request for a time given in milliseconds since the epoch. -/
  | addAt (tag : String) (ms : Int) (fails : Bool)
  /-- A request for a delay in nanoseconds from the clock. -/
  | addAfter (tag : String) (delay : Int) (fails : Bool)
  /-- A request without a job or without a target. -/
  | addMissing
  | start
  | shutdown (notify : Bool)
  | size
  /-- Moves the clock on by some milliseconds. -/
  | wait (ms : Nat)

/-- What a step of a timer session answers. -/
inductive TimerReply where
  | none
  | count (n : Nat)
  | stopped (callbackRan : Bool)

/-- A timer with its recording target and a clock. -/
structure TimerProbe where
  timer : Timer (String × Bool)
  clock : Int
  /-- The tags fired so far, in order. -/
  fired : Array String
  /-- Firings that the target took without failing. -/
  hooks : Nat

namespace TimerProbe

/-- Nanoseconds in a millisecond. -/
def nanosPerMilli : Int := 1000000

/-- How far ahead of the clock a request still counts as due. -/
def horizon : Int := 3600 * 1000 * nanosPerMilli

/-- The moment a session starts at, in milliseconds since the epoch. -/
def startMillis : Int := 1794528000000

/-- A session at its starting moment, with a timer not yet started. -/
def initial : TimerProbe := ⟨Timer.fresh, startMillis * nanosPerMilli, #[], 0⟩

/-- Runs the loop of a started timer and records what fired. -/
def settle (p : TimerProbe) : TimerProbe :=
  let (t, jobs) := p.timer.advance (p.clock + horizon)
  { p with
    timer := t
    fired := p.fired ++ jobs.toArray.map Prod.fst
    hooks := p.hooks + (jobs.filter (fun j => !j.2)).length }

/-- Applies a step; the session then settles. -/
def step (p : TimerProbe) (s : TimerStep) : Except TimerError TimerReply × TimerProbe :=
  let done (r : Except TimerError (Timer (String × Bool))) : Except TimerError TimerReply × TimerProbe :=
    match r with
    | .ok t => (.ok .none, settle { p with timer := t })
    | .error e => (.error e, p)
  match s with
  | .addAt tag ms fails => done (p.timer.addAt (ms * nanosPerMilli) (some (tag, fails)))
  | .addAfter tag delay fails => done (p.timer.addAfter p.clock delay (some (tag, fails)))
  | .addMissing => done (p.timer.addAt p.clock none)
  | .start => (.ok .none, settle { p with timer := p.timer.start })
  | .shutdown notify =>
    match p.timer.shutdown notify with
    | .ok t => (.ok (.stopped notify), settle { p with timer := t })
    | .error e => (.error e, p)
  | .size => (.ok (.count p.timer.size), p)
  | .wait ms => (.ok .none, settle { p with clock := p.clock + ms * nanosPerMilli })

end TimerProbe

end Courier.Dispatch
