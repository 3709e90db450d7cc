import Courier.Dispatch.Timer.Probe

/-!
# The life of a timer

A timer is started, shut down and handed requests by its callers, while its loop runs now and
then. A shutdown is accepted once: the first is, every later one is refused as stopped. A request
handed in after the shutdown is refused as well: as stopped when it has a job and a target, and
as incomplete when it lacks one, a check made first; either way the timer is left as it was.

What others see of the timer is the jobs it hands to their targets and, at the end, the callback
of the shutdown, if it has one, and then the closing of the done channel. Along every run in which
the timer is not started after being shut down unstarted, these come in one order: jobs, then the
end, at most once, and no job after it; the end comes at the shutdown itself for a timer never
started, else at the loop's next iteration. A timer that is started after such a shutdown still
finds the shutdown handed in: it runs the callback a second time and closes the done channel
again, which crashes the process (`crash_of_late_start`).

- `TimerOp`, `Timer.apply`, `Timer.exec`: what can happen to a timer, and runs of it;
- `Timer.Lifecycle`: where a timer is in its life, given its effects so far, with one lemma per
  operation and `Lifecycle.exec` for runs;
- `Timer.shutdown_accepted_once`, `Timer.add_after_shutdown`: the answers of the calls;
- `Timer.lifecycle`: the whole life of a timer.
-/

set_option autoImplicit false

namespace Courier.Dispatch

/-- What can happen to a timer: one of its calls, or an iteration of its loop up to a point in
time. -/
inductive TimerOp (α : Type) where
  | start
  | shutdown (notify : Bool)
  | addAt (time : Int) (job : Option α)
  | addAfter (now delay : Int) (job : Option α)
  | loop (horizon : Int)

namespace TimerOp

variable {α : Type}

/-- The job an operation hands in, if it is a request. -/
def added : TimerOp α → Option (Option α)
  | .addAt _ job => some job
  | .addAfter _ _ job => some job
  | _ => none

/-- Whether an operation is a shutdown. -/
def isShutdown : TimerOp α → Bool
  | .shutdown _ => true
  | _ => false

/-- Whether an operation is a start. -/
def isStart : TimerOp α → Bool
  | .start => true
  | _ => false

/-- The callback flag of the first shutdown among operations. -/
def firstShutdown : List (TimerOp α) → Option Bool
  | [] => none
  | .shutdown n :: _ => some n
  | _ :: ops => firstShutdown ops

/-- No start comes after a shutdown of a timer that was never started. -/
def NoLateStart (ops : List (TimerOp α)) : Prop :=
  ∀ pre post n, ops = pre ++ .shutdown n :: post → .start ∈ post → .start ∈ pre

/-- A run that starts the timer first never starts it late. -/
theorem noLateStart_start_cons (ops : List (TimerOp α)) : NoLateStart (.start :: ops) := by
  intro pre post n hops _
  cases pre with
  | nil => cases (List.cons.inj hops).1
  | cons op pre =>
    obtain ⟨rfl, -⟩ := List.cons.inj hops
    exact List.mem_cons_self

end TimerOp

namespace Timer

open TimerOp

variable {α : Type}

/-- Applies an operation: the call's answer, the timer afterwards and its effects. A refused
call leaves the timer as it was. -/
def apply (t : Timer α) : TimerOp α → Except TimerError Unit × Timer α × List (TimerEffect α)
  | .start => (.ok (), t.start, [])
  | .shutdown n =>
    match t.shutdownWith n with
    | .ok (t', effects) => (.ok (), t', effects)
    | .error e => (.error e, t, [])
  | .addAt time job =>
    match t.addAt time job with
    | .ok t' => (.ok (), t', [])
    | .error e => (.error e, t, [])
  | .addAfter now delay job =>
    match t.addAfter now delay job with
    | .ok t' => (.ok (), t', [])
    | .error e => (.error e, t, [])
  | .loop horizon => (.ok (), t.loop horizon)

/-- Applies operations in turn: the timer at the end and all effects, in order. -/
def exec (t : Timer α) : List (TimerOp α) → Timer α × List (TimerEffect α)
  | [] => (t, [])
  | op :: ops =>
    let r := (t.apply op).2
    let s := r.1.exec ops
    (s.1, r.2 ++ s.2)

@[simp] theorem exec_nil (t : Timer α) : t.exec [] = (t, []) := rfl

theorem exec_cons (t : Timer α) (op : TimerOp α) (ops : List (TimerOp α)) :
    t.exec (op :: ops) = (((t.apply op).2.1.exec ops).1,
      (t.apply op).2.2 ++ ((t.apply op).2.1.exec ops).2) := rfl

theorem exec_append (t : Timer α) (ops ops' : List (TimerOp α)) :
    (t.exec (ops ++ ops')).1 = ((t.exec ops).1.exec ops').1 := by
  induction ops generalizing t with
  | nil => rfl
  | cons op ops ih => exact ih _

/-! ## Flags along a run -/

/-- Only a start starts a timer, and only an accepted shutdown stops it; every shutdown is
accepted unless the timer is stopped. -/
theorem flags_apply (t : Timer α) (op : TimerOp α) :
    (t.apply op).2.1.started = (t.started || op.isStart) ∧
      (t.apply op).2.1.stopped = (t.stopped || op.isShutdown) := by
  cases op with
  | start => simp [apply, Timer.start, isStart, isShutdown]
  | shutdown n =>
    cases hs : t.stopped
    · cases hst : t.started <;> simp [apply, shutdownWith, hs, hst, isStart, isShutdown]
    · simp [apply, shutdownWith, hs, isStart, isShutdown]
  | addAt time job =>
    cases job with
    | none => simp [apply, Timer.addAt, isStart, isShutdown]
    | some j => cases hs : t.stopped <;> simp [apply, Timer.addAt, hs, isStart, isShutdown]
  | addAfter now delay job =>
    cases job with
    | none => simp [apply, Timer.addAfter, Timer.addAt, isStart, isShutdown]
    | some j =>
      cases hs : t.stopped <;> simp [apply, Timer.addAfter, Timer.addAt, hs, isStart, isShutdown]
  | loop horizon =>
    simp only [apply, Timer.loop, isStart, isShutdown, Bool.or_false]
    split
    · simp
    · split <;> simp

/-- A timer is stopped at the end of a run exactly when it was before, or a shutdown was among
the operations. -/
theorem stopped_exec (t : Timer α) (ops : List (TimerOp α)) :
    (t.exec ops).1.stopped = (t.stopped || ops.any isShutdown) := by
  induction ops generalizing t with
  | nil => simp
  | cons op ops ih => rw [exec_cons, ih, (flags_apply t op).2, List.any_cons, Bool.or_assoc]

/-! ## The answers of the calls -/

theorem apply_shutdown (t : Timer α) (n : Bool) :
    (t.apply (.shutdown n)).1 = if t.stopped then .error .stopped else .ok () := by
  cases hs : t.stopped <;> simp [apply, shutdownWith, hs]

/-- Only the first shutdown is accepted: one made after a run is refused as stopped exactly when
a shutdown came before it. -/
theorem shutdown_accepted_once (pre : List (TimerOp α)) (n : Bool) :
    ((Timer.fresh.exec pre).1.apply (.shutdown n)).1 =
      if pre.any isShutdown then .error .stopped else .ok () := by
  rw [apply_shutdown, stopped_exec]
  rfl

/-- A request handed to a stopped timer is refused and changes nothing: as incomplete when it
lacks a job or a target, else as stopped. -/
theorem apply_added_of_stopped (t : Timer α) (op : TimerOp α) {job : Option α}
    (hop : op.added = some job) (hs : t.stopped = true) :
    t.apply op = (.error (if job.isSome then .stopped else .missing), t, []) := by
  cases op with
  | addAt time j =>
    obtain rfl : j = job := Option.some.inj hop
    cases j <;> simp [apply, addAt, hs]
  | addAfter now delay j =>
    obtain rfl : j = job := Option.some.inj hop
    cases j <;> simp [apply, addAfter, addAt, hs]
  | _ => simp [added] at hop

/-- A request handed in after a shutdown is refused and changes nothing. -/
theorem add_after_shutdown (pre : List (TimerOp α)) (op : TimerOp α) {job : Option α}
    (hop : op.added = some job) (hpre : pre.any isShutdown = true) :
    (Timer.fresh.exec pre).1.apply op =
      (.error (if job.isSome then .stopped else .missing), (Timer.fresh.exec pre).1, []) :=
  apply_added_of_stopped _ op hop (by rw [stopped_exec, hpre, Bool.or_true])

/-- Handing in a request without a job after a shutdown is refused as incomplete, not as
stopped: the missing job is checked first. -/
theorem add_without_job_after_shutdown :
    (((Timer.fresh : Timer (String × Bool)).exec [.shutdown false]).1.apply (.addAt 0 none)).1 =
        .error .missing ∧
      (((Timer.fresh : Timer (String × Bool)).exec [.shutdown false]).1.apply (.addAt 0 none)).1 ≠
        .error .stopped := by
  have e : (((Timer.fresh : Timer (String × Bool)).exec [.shutdown false]).1.apply
      (.addAt 0 none)).1 = .error .missing := rfl
  rw [e]
  exact ⟨rfl, by simp⟩

/-! ## Taking over handed-in entries -/

/-- Handed-in entries that are all requests are taken over without ending the loop. -/
theorem takeOver_requests {es : List (Entry α)} (h : ∀ e ∈ es, ∃ r, e = .request r)
    (w : List (Request α)) : ∃ w', takeOver w es = .inl w' := by
  induction es generalizing w with
  | nil => exact ⟨w, rfl⟩
  | cons e es ih =>
    obtain ⟨r, rfl⟩ := h e List.mem_cons_self
    exact ih (fun e he => h e (List.mem_cons_of_mem _ he)) _

/-- Requests followed by a shutdown end the loop with the shutdown's callback flag. -/
theorem takeOver_requests_stop {es : List (Entry α)} (h : ∀ e ∈ es, ∃ r, e = .request r)
    (n : Bool) (w : List (Request α)) : takeOver w (es ++ [.stop n]) = .inr n := by
  induction es generalizing w with
  | nil => rfl
  | cons e es ih =>
    obtain ⟨r, rfl⟩ := h e List.mem_cons_self
    exact ih (fun e he => h e (List.mem_cons_of_mem _ he)) _

/-! ## The lifecycle invariant -/

/-- Where a timer is in its life, given its effects so far and the callback flag of its accepted
shutdown, if any. -/
structure Lifecycle (t : Timer α) (E : List (TimerEffect α)) (stop : Option Bool) : Prop where
  stopped : t.stopped = stop.isSome
  /-- Before the shutdown only requests are handed in, and nothing has ended. -/
  running : stop = none →
    (∀ e ∈ t.pending, ∃ r, e = .request r) ∧ t.finished = false ∧ t.exited = false
  /-- After it and before the end, the loop runs and finds the shutdown behind the requests. -/
  stopping : ∀ n, stop = some n → t.finished = false →
    t.started = true ∧ t.exited = false ∧
      ∃ es, (∀ e ∈ es, ∃ r, e = .request r) ∧ t.pending = es ++ [.stop n]
  /-- An end is for good: the loop has ended, or the timer was never started. -/
  ended : t.finished = true → t.exited = true ∨ t.started = false
  /-- Jobs handed to their targets, then the end, once it came. -/
  effects : (∃ fs : List α, E = fs.map .fire ∧ t.finished = false) ∨
    ∃ (fs : List α) (n : Bool), stop = some n ∧ E = fs.map .fire ++ ending n false ∧ t.finished = true

namespace Lifecycle

variable {t : Timer α} {E : List (TimerEffect α)} {stop : Option Bool}

theorem fresh : Lifecycle (Timer.fresh : Timer α) [] none :=
  ⟨rfl, fun _ => ⟨(fun _ h => nomatch h), rfl, rfl⟩, (fun _ h => nomatch h), (fun h => nomatch h),
    .inl ⟨[], rfl, rfl⟩⟩

theorem stop_eq_none (h : Lifecycle t E stop) (hs : t.stopped = false) : stop = none := by
  cases stop with
  | none => rfl
  | some n => have := h.stopped; simp_all

theorem exists_stop_eq_some (h : Lifecycle t E stop) (hs : t.stopped = true) :
    ∃ n, stop = some n := by
  cases stop with
  | none => have := h.stopped; simp_all
  | some n => exact ⟨n, rfl⟩

/-- An unfinished timer has had only jobs as effects. -/
theorem fires (h : Lifecycle t E stop) (hf : t.finished = false) : ∃ fs : List α, E = fs.map .fire := by
  rcases h.effects with ⟨fs, hE, -⟩ | ⟨fs, n, -, -, hfin⟩
  · exact ⟨fs, hE⟩
  · simp [hf] at hfin

/-- Starting a timer that is not stopped unstarted. -/
theorem start (h : Lifecycle t E stop) (hlate : t.stopped = true → t.started = true) :
    Lifecycle t.start E stop := by
  cases hst : t.started
  · -- a timer never started is not stopped, so nothing has ended
    have hs : t.stopped = false := by
      cases hs : t.stopped
      · rfl
      · simp [hlate hs] at hst
    obtain rfl := h.stop_eq_none hs
    obtain ⟨hp, hf, he⟩ := h.running rfl
    exact ⟨h.stopped, fun _ => ⟨hp, hf, he⟩, (fun _ hn => nomatch hn),
      fun hfin => absurd hfin (by simp [Timer.start, hf]), h.effects⟩
  · have : t.start = t := by cases t; simp_all [Timer.start]
    rw [this]
    exact h

/-- A shutdown: refused once stopped; accepted first, with its callback flag. -/
theorem shutdown (h : Lifecycle t E stop) (n : Bool) :
    Lifecycle (t.apply (.shutdown n)).2.1 (E ++ (t.apply (.shutdown n)).2.2) (stop.or (some n)) := by
  cases hs : t.stopped
  · -- the first shutdown: nothing has ended yet
    obtain rfl := h.stop_eq_none hs
    obtain ⟨hp, hf, he⟩ := h.running rfl
    obtain ⟨fs, rfl⟩ := h.fires hf
    cases hst : t.started
    · -- a timer never started ends at once
      simp only [apply, shutdownWith, hs, hst]
      exact ⟨rfl, (fun h => nomatch h), (fun _ _ hfin => nomatch hfin), fun _ => .inr rfl,
        .inr ⟨fs, n, rfl, rfl, rfl⟩⟩
    · -- a started one leaves the end to its loop
      simp only [apply, shutdownWith, hs, hst]
      refine ⟨rfl, (fun h => nomatch h), fun m hm _ => ⟨rfl, he, t.pending, hp, ?_⟩,
        fun hfin => absurd hfin (by simp [hf]), .inl ⟨fs, by simp, hf⟩⟩
      obtain rfl : n = m := Option.some.inj hm
      rfl
  · -- refused: nothing changes
    obtain ⟨m, rfl⟩ := h.exists_stop_eq_some hs
    simpa [apply, shutdownWith, hs] using h

/-- A request: refused without a job or once stopped, else handed in behind the others. -/
theorem addAt (h : Lifecycle t E stop) (time : Int) (job : Option α) :
    Lifecycle (t.apply (.addAt time job)).2.1 (E ++ (t.apply (.addAt time job)).2.2) stop := by
  cases job with
  | none => simpa [apply, Timer.addAt] using h
  | some j =>
    cases hs : t.stopped
    · obtain rfl := h.stop_eq_none hs
      obtain ⟨hp, hf, he⟩ := h.running rfl
      simp only [apply, Timer.addAt, hs, Bool.false_eq_true, ↓reduceIte]
      refine ⟨rfl, fun _ => ⟨fun e he' => ?_, hf, he⟩, (fun _ hn => nomatch hn),
        fun hfin => absurd hfin (by simp [hf]), by simpa using h.effects⟩
      rcases List.mem_append.mp he' with he' | he'
      · exact hp e he'
      · exact ⟨_, List.mem_singleton.mp he'⟩
    · simpa [apply, Timer.addAt, hs] using h

/-- A relative request is a request for a computed time. -/
theorem addAfter (h : Lifecycle t E stop) (now delay : Int) (job : Option α) :
    Lifecycle (t.apply (.addAfter now delay job)).2.1 (E ++ (t.apply (.addAfter now delay job)).2.2)
      stop :=
  h.addAt (now + max delay 0) job

/-- An iteration of the loop: nothing before the start or after the end; before the shutdown it
hands out the due jobs; after it, it ends with the shutdown's callback flag. -/
theorem loop (h : Lifecycle t E stop) (horizon : Int) :
    Lifecycle (t.apply (.loop horizon)).2.1 (E ++ (t.apply (.loop horizon)).2.2) stop := by
  cases hst : t.started
  · simpa [apply, Timer.loop, hst] using h
  cases hex : t.exited
  case true => simpa [apply, Timer.loop, hex] using h
  -- a running loop has not seen the end
  have hf : t.finished = false := by
    cases hf : t.finished
    · rfl
    · rcases h.ended hf with h' | h' <;> simp_all
  obtain ⟨fs, rfl⟩ := h.fires hf
  cases stop with
  | none =>
    obtain ⟨hp, -, -⟩ := h.running rfl
    obtain ⟨w, hw⟩ := takeOver_requests hp t.waiting
    simp only [apply, Timer.loop, hst, hex, hw, Bool.not_true, Bool.or_false, Bool.false_eq_true,
      ↓reduceIte]
    refine ⟨h.stopped, fun _ => ⟨(fun e he => nomatch he), hf, rfl⟩, (fun _ hn => nomatch hn),
      fun hfin => absurd hfin (by simp [hf]), .inl ⟨fs ++ (w.takeWhile (fun r => r.time ≤ horizon)).map Request.job, ?_, hf⟩⟩
    simp [List.map_append, Function.comp_def]
  | some n =>
    obtain ⟨-, -, es, hes, hp⟩ := h.stopping n rfl hf
    simp only [apply, Timer.loop, hst, hex, hp, hf, takeOver_requests_stop hes, Bool.not_true,
      Bool.or_false, Bool.false_eq_true, ↓reduceIte]
    exact ⟨h.stopped, (fun hn => nomatch hn), (fun _ _ hfin => nomatch hfin), fun _ => .inl rfl,
      .inr ⟨fs, n, rfl, rfl, rfl⟩⟩

/-- One operation, of a timer not started after being stopped unstarted. -/
theorem apply (h : Lifecycle t E stop) (op : TimerOp α)
    (hlate : op = .start → t.stopped = true → t.started = true) :
    Lifecycle (t.apply op).2.1 (E ++ (t.apply op).2.2) (stop.or (firstShutdown [op])) := by
  cases op with
  | start =>
    have h' := h.start (hlate rfl)
    cases stop <;> simpa [Timer.apply, firstShutdown] using h'
  | shutdown n => exact h.shutdown n
  | addAt time job => cases stop <;> simpa [firstShutdown] using h.addAt time job
  | addAfter now delay job => cases stop <;> simpa [firstShutdown] using h.addAfter now delay job
  | loop horizon => cases stop <;> simpa [firstShutdown] using h.loop horizon

end Lifecycle

/-! ## Runs -/

/-- What a run from a timer may still do: no start while the timer is stopped unstarted, and
none after a shutdown of the run unless the timer was started or a start came before it. -/
def Admissible (t : Timer α) (ops : List (TimerOp α)) : Prop :=
  (t.stopped = true → t.started = false → .start ∉ ops) ∧
    ∀ pre post n, ops = pre ++ .shutdown n :: post → .start ∈ post →
      t.started = true ∨ .start ∈ pre

theorem admissible_fresh {ops : List (TimerOp α)} (h : NoLateStart ops) :
    Admissible (Timer.fresh : Timer α) ops :=
  ⟨(fun hs => nomatch hs), fun pre post n hops hpost => .inr (h pre post n hops hpost)⟩

/-- What a run may still do after its first operation. -/
theorem Admissible.tail {t : Timer α} {op : TimerOp α} {ops : List (TimerOp α)}
    (h : Admissible t (op :: ops)) : Admissible (t.apply op).2.1 ops := by
  obtain ⟨hst, hsp⟩ := flags_apply t op
  refine ⟨fun hs hs' hmem => ?_, fun pre post n hops hpost => ?_⟩
  · rw [hst, Bool.or_eq_false_iff] at hs'
    rw [hsp, Bool.or_eq_true] at hs
    rcases hs with hs | hs
    · exact h.1 hs hs'.1 (List.mem_cons_of_mem _ hmem)
    · -- the shutdown is the first operation: no start may follow it
      cases op with
      | shutdown n =>
        rcases h.2 [] ops n rfl hmem with h' | h'
        · simp [h'] at hs'
        · simp at h'
      | _ => simp [isShutdown] at hs
  · rcases h.2 (op :: pre) post n (by simp [hops]) hpost with h' | h'
    · exact .inl (by rw [hst, h', Bool.true_or])
    · rcases List.mem_cons.mp h' with rfl | h'
      · exact .inl (by rw [hst]; simp [isStart])
      · exact .inr h'

theorem Admissible.head {t : Timer α} {op : TimerOp α} {ops : List (TimerOp α)}
    (h : Admissible t (op :: ops)) : op = .start → t.stopped = true → t.started = true := by
  rintro rfl hs
  cases hst : t.started
  · exact absurd List.mem_cons_self (h.1 hs hst)
  · rfl

theorem firstShutdown_cons (op : TimerOp α) (ops : List (TimerOp α)) :
    firstShutdown (op :: ops) = (firstShutdown [op]).or (firstShutdown ops) := by
  cases op <;> rfl

/-- The invariant along a run. -/
theorem Lifecycle.exec {t : Timer α} {E : List (TimerEffect α)} {stop : Option Bool}
    (h : Lifecycle t E stop) (ops : List (TimerOp α)) (hops : Admissible t ops) :
    Lifecycle (t.exec ops).1 (E ++ (t.exec ops).2) (stop.or (firstShutdown ops)) := by
  induction ops generalizing t E stop with
  | nil => simpa [firstShutdown] using h
  | cons op ops ih =>
    have h1 := h.apply op hops.head
    have h2 := ih h1 hops.tail
    rw [exec_cons, ← List.append_assoc, firstShutdown_cons, ← Option.or_assoc]
    exact h2

/-- A timer shut down before its start and started afterwards ends a second time at its loop's
next iteration, its shutdown being still handed in: the callback runs again, and closing the done
channel again crashes the process. -/
theorem crash_of_late_start {t : Timer α} {E : List (TimerEffect α)} (h : Lifecycle t E none)
    (hst : t.started = false) (n : Bool) (horizon : Int) :
    (t.exec [.shutdown n, .start, .loop horizon]).2 = ending n false ++ ending n true := by
  obtain ⟨hp, -, hex⟩ := h.running rfl
  have hs : t.stopped = false := h.stopped
  simp [exec_cons, apply, shutdownWith, hs, hst, hex, Timer.start, Timer.loop,
    takeOver_requests_stop hp]

/-- The life of a timer, along any run of calls and loop iterations from a fresh timer. Only the
first shutdown is accepted, later ones are refused as stopped; a request handed in after it is
refused, as stopped when it has a job and a target and as incomplete otherwise, and changes
nothing. If the timer is not started after being shut down unstarted, what others see of it is
jobs handed to their targets and then, once, the end of its first shutdown: the callback, if it
has one, then the closing of the done channel, with no job after them; and the end has come, or
comes at the loop's next iteration. -/
theorem lifecycle (ops : List (TimerOp α)) :
    (∀ pre op post, ops = pre ++ op :: post →
      (∀ n, op = .shutdown n → ((Timer.fresh.exec pre).1.apply op).1 =
        if pre.any isShutdown then .error .stopped else .ok ()) ∧
      (∀ job, op.added = some job → pre.any isShutdown = true → (Timer.fresh.exec pre).1.apply op =
        (.error (if job.isSome then .stopped else .missing), (Timer.fresh.exec pre).1, []))) ∧
    (NoLateStart ops →
      ((∃ fs : List α, (Timer.fresh.exec ops).2 = fs.map .fire ∧
          (Timer.fresh.exec ops).1.finished = false) ∨
        ∃ (fs : List α) (n : Bool), firstShutdown ops = some n ∧
          (Timer.fresh.exec ops).2 = fs.map .fire ++ ending n false ∧
          (Timer.fresh.exec ops).1.finished = true) ∧
      ∀ n, firstShutdown ops = some n → (Timer.fresh.exec ops).1.finished = false →
        ∀ horizon, ((Timer.fresh.exec ops).1.loop horizon).2 = ending n false) := by
  refine ⟨fun pre op post _ => ⟨fun n hn => ?_, fun job hop hpre => add_after_shutdown pre op hop hpre⟩,
    fun hlate => ?_⟩
  · subst hn
    exact shutdown_accepted_once pre n
  · have h := Lifecycle.fresh.exec ops (admissible_fresh hlate)
    simp only [List.nil_append, Option.none_or] at h
    refine ⟨h.effects, fun n hn hf horizon => ?_⟩
    obtain ⟨hst, hex, es, hes, hp⟩ := h.stopping n hn hf
    simp [Timer.loop, hst, hex, hp, hf, takeOver_requests_stop hes]

/-- A timer started, handed a job, run past it, shut down with its callback and run again: the
job fires, then the callback runs and the done channel closes. -/
theorem job_then_shutdown_lifecycle :
    let ops : List (TimerOp Nat) := [.start, .addAt 5 (some 7), .loop 10, .shutdown true, .loop 20]
    NoLateStart ops ∧ (Timer.fresh.exec ops).2 = [.fire 7, .callback, .close] ∧
      ((∃ fs : List Nat, (Timer.fresh.exec ops).2 = fs.map .fire ∧
          (Timer.fresh.exec ops).1.finished = false) ∨
        ∃ (fs : List Nat) (n : Bool), firstShutdown ops = some n ∧
          (Timer.fresh.exec ops).2 = fs.map .fire ++ ending n false ∧
          (Timer.fresh.exec ops).1.finished = true) ∧
      ∀ n, firstShutdown ops = some n → (Timer.fresh.exec ops).1.finished = false →
        ∀ horizon, ((Timer.fresh.exec ops).1.loop horizon).2 = ending n false := by
  intro ops
  have hlate : NoLateStart ops := noLateStart_start_cons _
  exact ⟨hlate, rfl, (lifecycle ops).2 hlate⟩

end Timer

end Courier.Dispatch
