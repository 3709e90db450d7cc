/-!
A timer that fires jobs at points in time. Requests are handed in with a time and a sequence
number; the timer's loop takes them over in the order they came, keeps them ordered by time and,
for equal times, by sequence number, and fires every request whose time has come. A shutdown
request ends the loop: it runs the shutdown's callback and closes the channel that tells the
timer is done, and what it has not fired is dropped. A timer shut down before it was ever started
does both at once, but its shutdown request stays handed in: a loop started later still takes it
over, runs the callback again and closes the closed channel, which crashes the process. What
others see of the timer (jobs handed to their targets, the callback, the closing) comes out as
effects, in order. Time here is a number of nanoseconds since the epoch, and the loop is run up
to a given point in time.
-/

set_option autoImplicit false

namespace Courier.Dispatch

/-- A job to fire at a time; `seq` orders requests of equal time. -/
structure Request (α : Type) where
  time : Int
  seq : Nat
  job : α

/-- What is handed to the timer's loop: a request, or a shutdown that may run a callback. -/
inductive Entry (α : Type) where
  | request (r : Request α)
  | stop (notify : Bool)

/-- Why the timer refused a request. -/
inductive TimerError where
  /-- The timer has been shut down. -/
  | stopped
  /-- The request had no job or no target. -/
  | missing
deriving DecidableEq, Repr

/-- The text of a timer error. -/
def TimerError.message : TimerError → String
  | .stopped => "timer stopped"
  | .missing => "timer: nil task or target"

/-- What others see the timer do: hand a job to its target, run the callback of a shutdown,
close the channel that tells the timer is done, or crash the process by closing that channel a
second time (the loop does not recover from the panic). -/
inductive TimerEffect (α : Type) where
  | fire (job : α)
  | callback
  | close
  | crash

/-- The job an effect hands to its target, if it is a firing. -/
def TimerEffect.job? {α : Type} : TimerEffect α → Option α
  | .fire j => some j
  | _ => none

/-- A timer: entries not yet taken by the loop, requests waiting in firing order, and its
lifecycle flags. -/
structure Timer (α : Type) where
  pending : List (Entry α)
  waiting : List (Request α)
  seq : Nat
  started : Bool
  stopped : Bool
  /-- Whether the channel telling the timer is done has been closed. -/
  finished : Bool
  /-- Whether the loop has ended. -/
  exited : Bool

namespace Timer

variable {α : Type}

/-- A timer that has not been started. -/
def fresh : Timer α := ⟨[], [], 0, false, false, false, false⟩

/-- Closing the done channel: it closes, or, closed already, the process crashes. -/
def closeDone (closed : Bool) : TimerEffect α := if closed then .crash else .close

/-- What ending runs: the callback, if there is one, then the closing of the done channel, which
crashes the process if the channel is `closed` already. -/
def ending (notify closed : Bool) : List (TimerEffect α) :=
  (if notify then [.callback] else []) ++ [closeDone closed]

/-- The end of a timer hands no job to a target. -/
@[simp] theorem jobs_ending (notify closed : Bool) :
    (ending notify closed : List (TimerEffect α)).filterMap TimerEffect.job? = [] := by
  cases notify <;> cases closed <;> rfl

/-- Whether request `a` fires before request `b`. -/
def Request.before (a b : Request α) : Bool := a.time < b.time || (a.time == b.time && a.seq < b.seq)

/-- Puts a request into a list kept in firing order. -/
def place (r : Request α) : List (Request α) → List (Request α)
  | [] => [r]
  | x :: rest => if Request.before r x then r :: x :: rest else x :: place r rest

/-- Hands in a job for a point in time; `none` stands for a request without job or target. -/
def addAt (t : Timer α) (time : Int) (job : Option α) : Except TimerError (Timer α) :=
  match job with
  | none => .error .missing
  | some j =>
    if t.stopped then .error .stopped
    else .ok { t with pending := t.pending ++ [.request ⟨time, t.seq + 1, j⟩], seq := t.seq + 1 }

/-- Hands in a job for `delay` nanoseconds after `now`; a negative delay counts as none. -/
def addAfter (t : Timer α) (now delay : Int) (job : Option α) : Except TimerError (Timer α) :=
  t.addAt (now + max delay 0) job

/-- Starts the loop; a second start changes nothing. -/
def start (t : Timer α) : Timer α := { t with started := true }

/-- Asks the loop to end, with a callback if `notify`; gives the effects it has at once. A timer
never started ends at once, though its shutdown request stays handed in; a second shutdown is
refused. -/
def shutdownWith (t : Timer α) (notify : Bool) : Except TimerError (Timer α × List (TimerEffect α)) :=
  if t.stopped then .error .stopped
  else
    let t := { t with stopped := true, pending := t.pending ++ [.stop notify] }
    .ok (if t.started then (t, []) else ({ t with finished := true }, ending notify false))

/-- Asks the loop to end. -/
def shutdown (t : Timer α) (notify : Bool) : Except TimerError (Timer α) :=
  (t.shutdownWith notify).map Prod.fst

/-- The loop takes over handed-in entries in order, putting requests among the waiting ones; at
a shutdown it stops, with whether the shutdown has a callback. -/
def takeOver (waiting : List (Request α)) : List (Entry α) → List (Request α) ⊕ Bool
  | [] => .inl waiting
  | .request r :: rest => takeOver (place r waiting) rest
  | .stop notify :: _ => .inr notify

/-- Runs the loop once up to `horizon`: takes over what was handed in and fires, in order,
every waiting request whose time is not after `horizon`; or, at a shutdown, ends, dropping what
waits, and closes the done channel even if a shutdown before the start closed it. A loop not
started, or ended, does nothing. -/
def loop (t : Timer α) (horizon : Int) : Timer α × List (TimerEffect α) :=
  if !t.started || t.exited then (t, [])
  else
    match takeOver t.waiting t.pending with
    | .inl w =>
      let due := w.takeWhile (fun r => r.time ≤ horizon)
      ({ t with pending := [], waiting := w.drop due.length }, due.map (.fire ∘ Request.job))
    | .inr notify =>
      ({ t with pending := [], waiting := [], finished := true, exited := true },
        ending notify t.finished)

/-- Runs the loop once up to `horizon`; gives the jobs it handed to their targets. -/
def advance (t : Timer α) (horizon : Int) : Timer α × List α :=
  let (t, effects) := t.loop horizon
  (t, effects.filterMap TimerEffect.job?)

/-- The number of entries handed in and requests waiting. -/
def size (t : Timer α) : Nat := t.pending.length + t.waiting.length

end Timer

end Courier.Dispatch
