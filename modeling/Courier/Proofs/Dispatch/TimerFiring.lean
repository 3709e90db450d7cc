import Courier.Proofs.Dispatch.TimerLifecycle
import Mathlib.Data.List.Perm.Subperm
import Mathlib.Data.List.TakeWhile

/-!
# The order in which a timer fires

A request handed to the timer gets the next sequence number and joins the entries handed in;
each iteration of the loop takes the entries over, keeping the waiting requests ordered by time
and, for equal times, by sequence number, and fires those whose time has come. `Timer.log` tells
what each operation of a run does to the requests: a request is handed in, or an iteration runs
up to a point in time and fires some. Along every run from a fresh timer:

- the jobs handed to their targets are those of the fired requests, in order, and no request
  fires twice or without having been handed in;
- an iteration fires only requests whose time has come, in strictly increasing order of time
  and sequence number;
- a request handed in before an iteration, and ordered before one the iteration fires, has fired
  already or fires in that iteration ahead of it;
- until the loop ends, the timer holds every request handed in and not fired, and, once a
  shutdown was accepted, the shutdown itself; once the loop ended it holds nothing.

- `Timer.Request.before`, `Timer.place`, `Timer.takeOver`: the firing order and how the loop keeps
  it;
- `TimerEvent`, `Timer.dueAt`, `Timer.log`: the requests of a run;
- `Timer.Holds`, `Timer.Fires`: the invariant, with one lemma per operation, and
  `Timer.Holds.log` for runs;
- `Timer.firing_order`, `Timer.size_accounts`: the main statements.
-/

set_option autoImplicit false

namespace Courier.Dispatch

/-- The request an entry hands in, if it is not a shutdown. -/
def Entry.request? {α : Type} : Entry α → Option (Request α)
  | .request r => some r
  | .stop _ => none

/-- Whether an entry is a shutdown. -/
def Entry.isStop {α : Type} : Entry α → Bool
  | .request _ => false
  | .stop _ => true

/-- What happens to a timer's requests at one operation: a request is handed in, or an iteration
of the loop runs up to a point in time and fires some requests, in order. -/
inductive TimerEvent (α : Type) where
  | accept (r : Request α)
  | iterate (horizon : Int) (fired : List (Request α))

namespace TimerEvent

variable {α : Type}

/-- The requests handed in, in order. -/
def accepted (L : List (TimerEvent α)) : List (Request α) :=
  L.filterMap fun
    | .accept r => some r
    | .iterate _ _ => none

/-- The requests fired, in order. -/
def fired (L : List (TimerEvent α)) : List (Request α) :=
  L.flatMap fun
    | .accept _ => []
    | .iterate _ rs => rs

@[simp] theorem accepted_nil : accepted ([] : List (TimerEvent α)) = [] := rfl

@[simp] theorem fired_nil : fired ([] : List (TimerEvent α)) = [] := rfl

@[simp] theorem accepted_append (L E : List (TimerEvent α)) :
    accepted (L ++ E) = accepted L ++ accepted E := List.filterMap_append

@[simp] theorem fired_append (L E : List (TimerEvent α)) : fired (L ++ E) = fired L ++ fired E :=
  List.flatMap_append

@[simp] theorem accepted_accept (r : Request α) : accepted [.accept r] = [r] := rfl

@[simp] theorem fired_accept (r : Request α) : fired [.accept r] = [] := rfl

@[simp] theorem accepted_iterate (h : Int) (rs : List (Request α)) :
    accepted [.iterate h rs] = [] := rfl

@[simp] theorem fired_iterate (h : Int) (rs : List (Request α)) : fired [.iterate h rs] = rs := by
  simp [fired]

end TimerEvent

namespace Timer

open TimerEvent

variable {α : Type}

/-! ## The firing order -/

theorem before_iff {a b : Request α} :
    Request.before a b = true ↔ a.time < b.time ∨ (a.time = b.time ∧ a.seq < b.seq) := by
  simp [Request.before]

theorem before_trans {a b c : Request α} (hab : Request.before a b = true)
    (hbc : Request.before b c = true) : Request.before a c = true := by
  rw [before_iff] at *
  omega

theorem not_before_of_before {a b : Request α} (h : Request.before a b = true) :
    Request.before b a = false := by
  rw [before_iff] at h
  cases h' : Request.before b a
  · rfl
  · rw [before_iff] at h'
    omega

/-- Requests with different numbers are ordered one way or the other. -/
theorem before_total {a b : Request α} (h : a.seq ≠ b.seq) :
    Request.before a b = true ∨ Request.before b a = true := by
  rw [before_iff, before_iff]
  omega

/-- Placing a request puts it among the others. -/
theorem place_perm (r : Request α) (w : List (Request α)) : (place r w).Perm (r :: w) := by
  induction w with
  | nil => rfl
  | cons x rest ih =>
    unfold place
    split
    · rfl
    · exact (ih.cons x).trans (List.Perm.swap r x rest)

/-- Placing a request keeps a list in firing order, when no request in it has the same number. -/
theorem place_sorted {r : Request α} {w : List (Request α)}
    (hw : w.Pairwise (Request.before · ·)) (hr : ∀ x ∈ w, x.seq ≠ r.seq) :
    (place r w).Pairwise (Request.before · ·) := by
  induction w with
  | nil => simp [place]
  | cons x rest ih =>
    rw [List.pairwise_cons] at hw
    unfold place
    split
    · rename_i hrx
      refine List.pairwise_cons.2 ⟨fun y hy => ?_, List.pairwise_cons.2 hw⟩
      rcases List.mem_cons.1 hy with rfl | hy
      · exact hrx
      · exact before_trans hrx (hw.1 y hy)
    · rename_i hrx
      -- the request goes further back: the head comes before it
      have hxr : Request.before x r = true :=
        (before_total (hr x List.mem_cons_self)).resolve_right hrx
      refine List.pairwise_cons.2 ⟨fun y hy => ?_, ih hw.2 fun y hy => hr y (List.mem_cons_of_mem _ hy)⟩
      rcases List.mem_cons.1 ((place_perm r rest).mem_iff.1 hy) with rfl | hy
      · exact hxr
      · exact hw.1 y hy

/-- Taking over entries that hold no shutdown puts their requests among the waiting ones. -/
theorem takeOver_inl {w w' : List (Request α)} {es : List (Entry α)} (h : takeOver w es = .inl w') :
    w'.Perm (w ++ es.filterMap Entry.request?) ∧ ∀ e ∈ es, e.isStop = false := by
  induction es generalizing w with
  | nil =>
    obtain rfl : w = w' := Sum.inl.inj h
    simp
  | cons e es ih =>
    cases e with
    | request r =>
      obtain ⟨hp, hs⟩ := ih h
      refine ⟨hp.trans ?_, ?_⟩
      · simpa [Entry.request?] using ((place_perm r w).append_right _).trans List.perm_middle.symm
      · simpa [Entry.isStop] using hs
    | stop n => simp [takeOver] at h

/-- The loop ends only at a shutdown among the entries. -/
theorem takeOver_inr {w : List (Request α)} {es : List (Entry α)} {n : Bool}
    (h : takeOver w es = .inr n) : ∃ e ∈ es, e.isStop = true := by
  induction es generalizing w with
  | nil => simp [takeOver] at h
  | cons e es ih =>
    cases e with
    | request r =>
      obtain ⟨e, he, hs⟩ := ih h
      exact ⟨e, List.mem_cons_of_mem _ he, hs⟩
    | stop m => exact ⟨_, List.mem_cons_self, rfl⟩

/-- Taking over keeps the waiting requests in firing order, when all numbers differ. -/
theorem takeOver_sorted {w w' : List (Request α)} {es : List (Entry α)} (h : takeOver w es = .inl w')
    (hw : w.Pairwise (Request.before · ·))
    (hn : ((w ++ es.filterMap Entry.request?).map Request.seq).Nodup) :
    w'.Pairwise (Request.before · ·) := by
  induction es generalizing w with
  | nil =>
    obtain rfl : w = w' := Sum.inl.inj h
    exact hw
  | cons e es ih =>
    cases e with
    | request r =>
      simp only [List.filterMap_cons, Entry.request?, List.map_append, List.map_cons] at hn
      have hr : ∀ x ∈ w, x.seq ≠ r.seq := by
        intro x hx hxr
        exact (List.nodup_append.1 hn).2.2 _ (List.mem_map_of_mem hx) _ List.mem_cons_self hxr
      refine ih h (place_sorted hw hr) ?_
      have hp : ((place r w ++ es.filterMap Entry.request?).map Request.seq).Perm
          (w.map Request.seq ++ r.seq :: (es.filterMap Entry.request?).map Request.seq) := by
        simpa using (((place_perm r w).append_right _).map Request.seq).trans
          (by simpa using List.perm_middle.symm)
      exact hp.nodup_iff.2 hn
    | stop n => simp [takeOver] at h

/-- In a list in firing order, a request ordered before one that is taken while a test holds
is taken too, ahead of it. -/
theorem takeWhile_before {p : Request α → Bool} {l : List (Request α)}
    (hl : l.Pairwise (Request.before · ·)) {a b : Request α} (ha : a ∈ l) (hb : b ∈ l.takeWhile p)
    (hab : Request.before a b = true) : ∃ xs ys, l.takeWhile p = xs ++ a :: ys ∧ b ∈ ys := by
  induction l with
  | nil => simp at ha
  | cons x rest ih =>
    rw [List.pairwise_cons] at hl
    have hpx : p x = true := by
      by_contra hpx
      simp [hpx] at hb
    rw [List.takeWhile_cons_of_pos hpx] at hb ⊢
    rcases List.mem_cons.1 ha with rfl | har
    · -- the first request is taken first; the later one is not the first itself
      refine ⟨[], _, rfl, ?_⟩
      rcases List.mem_cons.1 hb with rfl | hbr
      · simp [Request.before] at hab
      · exact hbr
    · rcases List.mem_cons.1 hb with rfl | hbr
      · have := not_before_of_before (hl.1 a har)
        simp [this] at hab
      · obtain ⟨xs, ys, he, hy⟩ := ih hl.2 har hbr
        exact ⟨x :: xs, ys, by rw [he]; rfl, hy⟩

/-- Taking while a test holds and dropping as many gives the list back. -/
theorem takeWhile_append_drop (p : Request α → Bool) (l : List (Request α)) :
    l.takeWhile p ++ l.drop (l.takeWhile p).length = l := by
  conv => rhs; rw [← List.take_append_drop (l.takeWhile p).length l]
  rw [← List.prefix_iff_eq_take.1 (List.takeWhile_prefix p)]

/-! ## The requests of a run -/

/-- The requests an iteration of the loop up to `horizon` fires: none before the start or after
the end, and none at a shutdown; else the waiting requests, taken over with the entries handed
in, whose time has come. -/
def dueAt (t : Timer α) (horizon : Int) : List (Request α) :=
  if !t.started || t.exited then []
  else
    match takeOver t.waiting t.pending with
    | .inl w => w.takeWhile fun r => r.time ≤ horizon
    | .inr _ => []

/-- What the loop hands to targets are the jobs of the requests it fires. -/
theorem loop_jobs (t : Timer α) (horizon : Int) :
    (t.loop horizon).2.filterMap TimerEffect.job? = (t.dueAt horizon).map Request.job := by
  unfold loop dueAt
  by_cases hr : (!t.started || t.exited) = true
  · simp [hr]
  · cases h : takeOver t.waiting t.pending with
    | inl w => simp [hr, List.filterMap_map, Function.comp_def, TimerEffect.job?]
    | inr n => simp [hr]

/-- The request an operation hands in, when the timer takes it: a request with a job, to a timer
not shut down, numbered next. -/
def handedIn (t : Timer α) : TimerOp α → Option (Request α)
  | .addAt time (some j) => if t.stopped then none else some ⟨time, t.seq + 1, j⟩
  | .addAfter now delay (some j) =>
    if t.stopped then none else some ⟨now + max delay 0, t.seq + 1, j⟩
  | _ => none

/-- What an operation does to the requests. -/
def eventsOf (t : Timer α) : TimerOp α → List (TimerEvent α)
  | .loop horizon => [.iterate horizon (t.dueAt horizon)]
  | op => ((t.handedIn op).map TimerEvent.accept).toList

/-- What the operations of a run do to the requests, in order. -/
def log (t : Timer α) : List (TimerOp α) → List (TimerEvent α)
  | [] => []
  | op :: ops => t.eventsOf op ++ (t.apply op).2.1.log ops

/-- The jobs an operation hands to their targets are those of the requests it fires. -/
theorem apply_jobs (t : Timer α) (op : TimerOp α) :
    (t.apply op).2.2.filterMap TimerEffect.job? = (fired (t.eventsOf op)).map Request.job := by
  cases op with
  | start => rfl
  | shutdown n =>
    cases hs : t.stopped
    · cases hst : t.started <;> cases n <;>
        simp [apply, shutdownWith, hs, hst, eventsOf, handedIn]
    · simp [apply, shutdownWith, hs, eventsOf, handedIn]
  | addAt time job =>
    cases job with
    | none => rfl
    | some j => cases hs : t.stopped <;> simp [apply, Timer.addAt, hs, eventsOf, handedIn]
  | addAfter now delay job =>
    cases job with
    | none => rfl
    | some j =>
      cases hs : t.stopped <;> simp [apply, Timer.addAfter, Timer.addAt, hs, eventsOf, handedIn]
  | loop horizon => simpa [apply, eventsOf] using loop_jobs t horizon

/-- Along a run, the jobs handed to their targets are those of the fired requests, in order. -/
theorem exec_jobs (t : Timer α) (ops : List (TimerOp α)) :
    (t.exec ops).2.filterMap TimerEffect.job? = (fired (t.log ops)).map Request.job := by
  induction ops generalizing t with
  | nil => rfl
  | cons op ops ih => simp [exec_cons, log, apply_jobs, ih]

/-! ## What a timer holds -/

/-- The requests a timer holds: the waiting ones, then those among the entries handed in. -/
def held (t : Timer α) : List (Request α) := t.waiting ++ t.pending.filterMap Entry.request?

/-- How many shutdowns wait among the entries handed in. -/
def stops (t : Timer α) : Nat := t.pending.countP Entry.isStop

theorem length_entries (es : List (Entry α)) :
    es.length = (es.filterMap Entry.request?).length + es.countP Entry.isStop := by
  induction es with
  | nil => rfl
  | cons e es ih =>
    cases e <;> simp only [List.length_cons, List.filterMap_cons, List.countP_cons, Entry.request?,
      Entry.isStop, ih] <;> simp <;> omega

/-- A timer's size counts the requests it holds and the shutdowns handed in. -/
theorem size_eq (t : Timer α) : t.size = t.held.length + t.stops := by
  simp only [size, held, stops, List.length_append, length_entries t.pending]
  omega

/-- What a timer holds, given the requests of its run so far. -/
structure Holds (t : Timer α) (L : List (TimerEvent α)) : Prop where
  /-- The requests handed in are numbered 1, 2, … in turn. -/
  numbered : (accepted L).map Request.seq = List.range' 1 t.seq
  /-- The waiting requests are in firing order. -/
  sorted : t.waiting.Pairwise (Request.before · ·)
  /-- Until the loop ends, every request handed in has fired or is held, and not both. -/
  held : t.exited = false → (accepted L).Perm (fired L ++ t.held)
  /-- Once it ended, what had not fired was dropped: nothing is held. -/
  ended : t.exited = true →
    (∃ dropped, (accepted L).Perm (fired L ++ dropped)) ∧ t.size = 0 ∧ t.stopped = true
  /-- A shutdown waits among the entries from its acceptance until the loop ends. -/
  stops : t.stops = if t.stopped && !t.exited then 1 else 0
  /-- Nothing fires before the start. -/
  idle : t.started = false → fired L = []

namespace Holds

variable {t : Timer α} {L : List (TimerEvent α)}

theorem fresh : Holds (Timer.fresh : Timer α) [] :=
  ⟨rfl, List.Pairwise.nil, fun _ => by simp [Timer.held, Timer.fresh], (fun h => by cases h), rfl,
    fun _ => rfl⟩

/-- Every request handed in has fired, or is held or dropped. -/
theorem balance (h : Holds t L) : ∃ rest, (accepted L).Perm (fired L ++ rest) := by
  cases hx : t.exited
  · exact ⟨_, h.held hx⟩
  · exact (h.ended hx).1

/-- The requests handed in have different numbers. -/
theorem accepted_nodup (h : Holds t L) : ((accepted L).map Request.seq).Nodup :=
  h.numbered ▸ List.nodup_range' ..

/-- The requests held have different numbers. -/
theorem held_nodup (h : Holds t L) (hx : t.exited = false) : (t.held.map Request.seq).Nodup := by
  have := ((h.held hx).map Request.seq).nodup_iff.1 h.accepted_nodup
  rw [List.map_append] at this
  exact (List.nodup_append.1 this).2.1

/-- A timer not shut down has not ended, and no shutdown waits among its entries. -/
theorem of_not_stopped (h : Holds t L) (hs : t.stopped = false) : t.exited = false ∧ t.stops = 0 := by
  have hx : t.exited = false := by
    cases hx : t.exited
    · rfl
    · simp [(h.ended hx).2.2] at hs
  exact ⟨hx, by simpa [hs] using h.stops⟩

/-- Only the requests handed in and fired matter. -/
theorem of_log (h : Holds t L) {L' : List (TimerEvent α)} (ha : accepted L' = accepted L)
    (hf : fired L' = fired L) : Holds t L' :=
  ⟨ha ▸ h.numbered, h.sorted, fun hx => ha ▸ hf ▸ h.held hx,
    fun hx => ⟨ha ▸ hf ▸ (h.ended hx).1, (h.ended hx).2⟩, h.stops, fun hs => hf ▸ h.idle hs⟩

theorem start (h : Holds t L) : Holds (t.apply .start).2.1 (L ++ t.eventsOf .start) := by
  rw [show (t.apply .start).2.1 = t.start from rfl, show t.eventsOf .start = [] from rfl,
    List.append_nil]
  exact ⟨h.numbered, h.sorted, h.held, h.ended, h.stops, fun hs => by cases hs⟩

/-- A shutdown is refused once stopped; else its entry joins the others. -/
theorem shutdown (h : Holds t L) (n : Bool) :
    Holds (t.apply (.shutdown n)).2.1 (L ++ t.eventsOf (.shutdown n)) := by
  rw [show t.eventsOf (.shutdown n) = [] from rfl, List.append_nil]
  cases hs : t.stopped
  · -- the first shutdown: its entry joins the others, and an unstarted timer ends at once
    obtain ⟨hx, h0⟩ := h.of_not_stopped hs
    have hheld : t.held = t.waiting ++ (t.pending ++ [Entry.stop n]).filterMap Entry.request? := by
      simp [Timer.held, Entry.request?]
    have hstops : (t.pending ++ [Entry.stop n]).countP Entry.isStop = 1 := by
      simpa [Timer.stops, List.countP_append, Entry.isStop] using h0
    have hheld' := hheld ▸ h.held hx
    cases hst : t.started <;> simp only [apply, shutdownWith, hs, hst, Bool.false_eq_true,
      ↓reduceIte]
    · exact ⟨h.numbered, h.sorted, fun _ => hheld', fun hx' => absurd hx' (by simp [hx]),
        by simp [Timer.stops, hstops, hx], fun _ => h.idle hst⟩
    · exact ⟨h.numbered, h.sorted, fun _ => hheld', fun hx' => absurd hx' (by simp [hx]),
        by simp [Timer.stops, hstops, hx], fun hs' => by cases hs'⟩
  · simpa [apply, shutdownWith, hs] using h

/-- A request is refused without a job or once stopped; else it joins the entries, numbered
next. -/
theorem addAt (h : Holds t L) (time : Int) (job : Option α) :
    Holds (t.apply (.addAt time job)).2.1 (L ++ t.eventsOf (.addAt time job)) := by
  cases job with
  | none => simpa [apply, Timer.addAt, eventsOf, handedIn] using h
  | some j =>
    cases hs : t.stopped
    · obtain ⟨hx, h0⟩ := h.of_not_stopped hs
      simp only [apply, Timer.addAt, hs, eventsOf, handedIn, Bool.false_eq_true, ↓reduceIte,
        Option.map_some, Option.toList_some]
      refine ⟨?_, h.sorted, fun _ => ?_, fun hx' => absurd hx' (by simp [hx]), ?_, fun hst => ?_⟩
      · simp [h.numbered, List.range'_concat, Nat.add_comm]
      · simpa [Timer.held, Entry.request?, List.append_assoc] using (h.held hx).append_right [_]
      · simpa [Timer.stops, List.countP_append, Entry.isStop, hs, hx] using h0
      · simpa using h.idle hst
    · simpa [apply, Timer.addAt, hs, eventsOf, handedIn] using h

/-- A relative request is a request for a computed time. -/
theorem addAfter (h : Holds t L) (now delay : Int) (job : Option α) :
    Holds (t.apply (.addAfter now delay job)).2.1 (L ++ t.eventsOf (.addAfter now delay job)) := by
  cases job with
  | none => exact h.addAt (now + max delay 0) none
  | some j => exact h.addAt (now + max delay 0) (some j)

/-- An iteration of the loop: nothing before the start or after the end; at a shutdown the loop
ends and drops what it holds; else it fires the due requests and keeps the rest in order. -/
theorem loop (h : Holds t L) (horizon : Int) :
    Holds (t.apply (.loop horizon)).2.1 (L ++ t.eventsOf (.loop horizon)) := by
  simp only [apply, eventsOf]
  by_cases hr : (!t.started || t.exited) = true
  · have e1 : t.loop horizon = (t, []) := by simp only [Timer.loop, hr, ↓reduceIte]
    have e2 : t.dueAt horizon = [] := by simp only [dueAt, hr, ↓reduceIte]
    rw [e1, e2]
    exact h.of_log (by simp) (by simp)
  obtain ⟨hst, hx⟩ : t.started = true ∧ t.exited = false := by simpa using hr
  cases hw : takeOver t.waiting t.pending with
  | inl w =>
    -- the entries held no shutdown, so the timer is not stopped
    obtain ⟨hp, hreq⟩ := takeOver_inl hw
    have hs : t.stopped = false := by
      have h0 : t.stops = 0 := List.countP_eq_zero.2 fun e he => by simp [hreq e he]
      have := h.stops
      rw [h0, hx] at this
      cases hs : t.stopped
      · rfl
      · simp [hs] at this
    have hsorted : w.Pairwise (Request.before · ·) :=
      takeOver_sorted hw h.sorted (h.held_nodup hx)
    simp only [Timer.loop, dueAt, hr, hw, Bool.false_eq_true, ↓reduceIte]
    refine ⟨by simpa using h.numbered, hsorted.sublist (List.drop_sublist _ _), fun _ => ?_,
      fun hx' => absurd hx' (by simp [hx]), by simp [Timer.stops, hs],
      fun hs' => absurd hs' (by simp [hst])⟩
    -- what fires, followed by what stays, is what the loop took over
    have hsplit := takeWhile_append_drop (fun r => decide (r.time ≤ horizon)) w
    simp only [Timer.held, List.filterMap_nil, List.append_nil, accepted_append, accepted_iterate,
      fired_append, fired_iterate]
    rw [List.append_assoc, hsplit]
    exact (h.held hx).trans (hp.symm.append_left _)
  | inr n =>
    -- a shutdown was among the entries: the loop ends and drops what it holds
    obtain ⟨e, he, hse⟩ := takeOver_inr hw
    have hs : t.stopped = true := by
      have h1 : 0 < t.stops := List.countP_pos_iff.2 ⟨e, he, hse⟩
      have := h.stops
      cases hs : t.stopped
      · simp [hs] at this
        omega
      · rfl
    simp only [Timer.loop, dueAt, hr, hw, Bool.false_eq_true, ↓reduceIte]
    refine ⟨by simpa using h.numbered, List.Pairwise.nil, (fun hx' => by cases hx'),
      fun _ => ⟨⟨_, by simpa using h.held hx⟩, rfl, hs⟩, by simp [Timer.stops],
      fun hs' => absurd hs' (by simp [hst])⟩

/-- Every operation keeps what the timer holds in step with its requests. -/
theorem apply (h : Holds t L) (op : TimerOp α) : Holds (t.apply op).2.1 (L ++ t.eventsOf op) := by
  cases op with
  | start => exact h.start
  | shutdown n => exact h.shutdown n
  | addAt time job => exact h.addAt time job
  | addAfter now delay job => exact h.addAfter now delay job
  | loop horizon => exact h.loop horizon

end Holds

/-! ## What the iterations fire -/

theorem dueAt_cases (t : Timer α) (horizon : Int) :
    t.dueAt horizon = [] ∨ ∃ w, t.exited = false ∧ takeOver t.waiting t.pending = .inl w ∧
      t.dueAt horizon = w.takeWhile fun r => r.time ≤ horizon := by
  unfold dueAt
  by_cases hr : (!t.started || t.exited) = true
  · exact .inl (by simp only [hr, ↓reduceIte])
  · obtain ⟨-, hx⟩ : t.started = true ∧ t.exited = false := by simpa using hr
    cases hw : takeOver t.waiting t.pending with
    | inl w => exact .inr ⟨w, hx, rfl, by simp only [hr, Bool.false_eq_true, ↓reduceIte]⟩
    | inr n => exact .inl (by simp only [hr, Bool.false_eq_true, ↓reduceIte])

/-- An iteration fires only requests whose time has come. -/
theorem time_le_of_mem_dueAt {t : Timer α} {horizon : Int} {r : Request α}
    (hr : r ∈ t.dueAt horizon) : r.time ≤ horizon := by
  rcases dueAt_cases t horizon with he | ⟨w, -, -, he⟩
  · simp [he] at hr
  · rw [he] at hr
    simpa using List.mem_takeWhile_imp hr

theorem Holds.dueAt_sorted {t : Timer α} {L : List (TimerEvent α)} (h : Holds t L) (horizon : Int) :
    (t.dueAt horizon).Pairwise (Request.before · ·) := by
  rcases dueAt_cases t horizon with he | ⟨w, hx, hw, he⟩
  · simp [he]
  · rw [he]
    exact (takeOver_sorted hw h.sorted (h.held_nodup hx)).sublist (List.takeWhile_sublist _)

/-- A request handed in and ordered before one an iteration fires has fired already, or fires in
that iteration ahead of it. -/
theorem Holds.dueAt_first {t : Timer α} {L : List (TimerEvent α)} (h : Holds t L) {horizon : Int}
    {r₁ r₂ : Request α} (h₁ : r₁ ∈ accepted L) (h₂ : r₂ ∈ t.dueAt horizon)
    (hb : Request.before r₁ r₂ = true) :
    r₁ ∈ fired L ∨ ∃ xs ys, t.dueAt horizon = xs ++ r₁ :: ys ∧ r₂ ∈ ys := by
  rcases dueAt_cases t horizon with he | ⟨w, hx, hw, he⟩
  · simp [he] at h₂
  · rcases List.mem_append.1 ((h.held hx).mem_iff.1 h₁) with hf | hh
    · exact .inl hf
    · -- a held request is among those the loop takes over, which are in firing order
      have hw' : r₁ ∈ w := ((takeOver_inl hw).1.mem_iff.2 hh)
      rw [he] at h₂ ⊢
      exact .inr (takeWhile_before (takeOver_sorted hw h.sorted (h.held_nodup hx)) hw' h₂ hb)

/-- What the iterations of a run fire: only requests whose time has come, in firing order, and
no request handed in earlier that comes first is passed over. -/
structure Fires (L : List (TimerEvent α)) : Prop where
  due : ∀ h rs, .iterate h rs ∈ L → ∀ r ∈ rs, r.time ≤ h
  ordered : ∀ h rs, .iterate h rs ∈ L → rs.Pairwise (Request.before · ·)
  first : ∀ pre h rs post, L = pre ++ .iterate h rs :: post →
    ∀ r₁ ∈ accepted pre, ∀ r₂ ∈ rs, Request.before r₁ r₂ = true →
      r₁ ∈ fired pre ∨ ∃ xs ys, rs = xs ++ r₁ :: ys ∧ r₂ ∈ ys

/-- An event of a log extended by more events was logged before them or among them. -/
theorem split_append {L E pre post : List (TimerEvent α)} {x : TimerEvent α}
    (h : L ++ E = pre ++ x :: post) :
    (∃ post', L = pre ++ x :: post') ∨ ∃ mid post', pre = L ++ mid ∧ E = mid ++ x :: post' := by
  rcases List.append_eq_append_iff.1 h with ⟨mid, hpre, hE⟩ | ⟨c, hL, hxp⟩
  · exact .inr ⟨mid, post, hpre, hE⟩
  · rcases List.cons_eq_append_iff.1 hxp with ⟨rfl, hE⟩ | ⟨c', rfl, -⟩
    · exact .inr ⟨[], post, by simp [hL], by simpa using hE⟩
    · exact .inl ⟨c', hL⟩

namespace Fires

variable {L : List (TimerEvent α)}

theorem nil : Fires ([] : List (TimerEvent α)) :=
  ⟨fun _ _ h => by simp at h, fun _ _ h => by simp at h, fun _ _ _ _ h => by simp at h⟩

/-- Events that fire nothing keep what the earlier iterations fired. -/
theorem append_quiet (hL : Fires L) {E : List (TimerEvent α)} (hE : ∀ h rs, .iterate h rs ∉ E) :
    Fires (L ++ E) := by
  refine ⟨fun h rs hm => ?_, fun h rs hm => ?_, fun pre h rs post he => ?_⟩
  · rcases List.mem_append.1 hm with hm | hm
    · exact hL.due h rs hm
    · exact absurd hm (hE h rs)
  · rcases List.mem_append.1 hm with hm | hm
    · exact hL.ordered h rs hm
    · exact absurd hm (hE h rs)
  · rcases split_append he with ⟨post', hL'⟩ | ⟨mid, post', -, hE'⟩
    · exact hL.first pre h rs post' hL'
    · exact absurd (hE' ▸ List.mem_append_right _ List.mem_cons_self) (hE h rs)

/-- An iteration of a timer that holds its run's requests. -/
theorem append_iterate (hL : Fires L) {t : Timer α} (h : Holds t L) (horizon : Int) :
    Fires (L ++ [.iterate horizon (t.dueAt horizon)]) := by
  refine ⟨fun h' rs hm => ?_, fun h' rs hm => ?_, fun pre h' rs post he => ?_⟩
  · rcases List.mem_append.1 hm with hm | hm
    · exact hL.due h' rs hm
    · obtain ⟨rfl, rfl⟩ : h' = horizon ∧ rs = t.dueAt horizon := by simpa using hm
      exact fun r hr => time_le_of_mem_dueAt hr
  · rcases List.mem_append.1 hm with hm | hm
    · exact hL.ordered h' rs hm
    · obtain ⟨rfl, rfl⟩ : h' = horizon ∧ rs = t.dueAt horizon := by simpa using hm
      exact h.dueAt_sorted h'
  · rcases split_append he with ⟨post', hL'⟩ | ⟨mid, post', hpre, hE'⟩
    · exact hL.first pre h' rs post' hL'
    · -- the new iteration itself: what came before it is the run so far
      obtain ⟨rfl, ⟨rfl, rfl⟩, -⟩ : mid = [] ∧ (horizon = h' ∧ t.dueAt horizon = rs) ∧ post' = [] := by
        rcases mid with _ | ⟨y, mid⟩
        · simpa using hE'
        · simp at hE'
      rw [List.append_nil] at hpre
      subst hpre
      exact fun r₁ h₁ r₂ h₂ hb => h.dueAt_first h₁ h₂ hb

end Fires

/-- Only iterations fire. -/
theorem fired_eventsOf {t : Timer α} {op : TimerOp α} (hop : ∀ h, op ≠ .loop h) :
    fired (t.eventsOf op) = [] := by
  have hq : ∀ o : Option (Request α), fired ((o.map TimerEvent.accept).toList) = [] := by
    intro o; cases o <;> rfl
  cases op with
  | loop h => exact absurd rfl (hop h)
  | _ => simp only [eventsOf, hq]

theorem iterate_not_mem_eventsOf {t : Timer α} {op : TimerOp α} (hop : ∀ h, op ≠ .loop h)
    (h : Int) (rs : List (Request α)) : .iterate h rs ∉ t.eventsOf op := by
  cases op with
  | loop h' => exact absurd rfl (hop h')
  | _ => simp [eventsOf]

theorem Fires.apply {L : List (TimerEvent α)} (hL : Fires L) {t : Timer α} (h : Holds t L)
    (op : TimerOp α) : Fires (L ++ t.eventsOf op) := by
  cases op with
  | loop horizon => exact hL.append_iterate h horizon
  | _ => exact hL.append_quiet (iterate_not_mem_eventsOf (fun _ he => by cases he))

/-- The invariant along a run. -/
theorem Holds.log {t : Timer α} {L : List (TimerEvent α)} (h : Holds t L) (hf : Fires L)
    (ops : List (TimerOp α)) : Holds (t.exec ops).1 (L ++ t.log ops) ∧ Fires (L ++ t.log ops) := by
  induction ops generalizing t L with
  | nil =>
    simp only [exec_nil, Timer.log, List.append_nil]
    exact ⟨h, hf⟩
  | cons op ops ih =>
    have := ih (h.apply op) (hf.apply h op)
    simp only [exec_cons, Timer.log, ← List.append_assoc]
    exact this

theorem holds_fresh_log (ops : List (TimerOp α)) :
    Holds ((Timer.fresh : Timer α).exec ops).1 ((Timer.fresh : Timer α).log ops) ∧
      Fires ((Timer.fresh : Timer α).log ops) := by
  simpa using Holds.fresh.log Fires.nil ops

theorem log_append (t : Timer α) (ops ops' : List (TimerOp α)) :
    t.log (ops ++ ops') = t.log ops ++ (t.exec ops).1.log ops' := by
  induction ops generalizing t with
  | nil => rfl
  | cons op ops ih => simp [Timer.log, exec_cons, ih]

/-! ## Along every run -/

/-- What a length counts, along every run from a fresh timer: once the loop has ended, nothing;
before that, every request handed in and not fired, and, once a shutdown was accepted, the
shutdown itself. Nothing fires before the start, so a timer shut down without being started
counts every request handed in, and its shutdown, for good. -/
theorem size_accounts (ops : List (TimerOp α)) :
    let t := ((Timer.fresh : Timer α).exec ops).1
    let L := (Timer.fresh : Timer α).log ops
    (t.exited = true → t.size = 0) ∧
      (t.exited = false →
        t.size + (fired L).length = (accepted L).length + if t.stopped then 1 else 0) ∧
      (t.started = false → fired L = []) := by
  dsimp only
  obtain ⟨h, -⟩ := holds_fresh_log (α := α) ops
  generalize (Timer.fresh : Timer α).log ops = L at h ⊢
  generalize ((Timer.fresh : Timer α).exec ops).1 = t at h ⊢
  refine ⟨fun hx => (h.ended hx).2.1, fun hx => ?_, h.idle⟩
  have hl := (h.held hx).length_eq
  have hs := h.stops
  rw [hx] at hs
  rw [size_eq, hs]
  cases t.stopped <;> simp at hl ⊢ <;> omega

end Timer

/-! ## Sessions -/

namespace TimerProbe

open Timer TimerEvent

/-- A session after some steps. -/
def runSteps (p : TimerProbe) : List TimerStep → TimerProbe
  | [] => p
  | s :: ss => runSteps (p.step s).2 ss

/-- A session whose timer is the end of a run from a fresh timer, whose written tags are those
of the run's fired requests, in order, and whose hooks count the fired requests whose target
does not fail. -/
def Records (p : TimerProbe) (ops : List (TimerOp (String × Bool))) : Prop :=
  p.timer = (Timer.fresh.exec ops).1 ∧
    p.fired.toList = (TimerEvent.fired (Timer.fresh.log ops)).map (·.job.1) ∧
    p.hooks = ((TimerEvent.fired (Timer.fresh.log ops)).filter fun r => !r.job.2).length

namespace Records

variable {p : TimerProbe} {ops : List (TimerOp (String × Bool))}

theorem initial : Records TimerProbe.initial [] := ⟨rfl, rfl, rfl⟩

/-- Settling runs the loop up to an hour past the clock, writing down every tag it fires and
counting a hook for each target that does not fail. -/
theorem settle (h : Records p ops) : Records p.settle (ops ++ [.loop (p.clock + horizon)]) := by
  obtain ⟨ht, hf, hh⟩ := h
  have hj := loop_jobs p.timer (p.clock + horizon)
  refine ⟨by rw [exec_append, ← ht]; rfl, ?_, ?_⟩
  · simp only [TimerProbe.settle, advance, log_append, ← ht, fired_append, Array.toList_append, hf]
    simp [Timer.log, eventsOf, hj]
  · simp only [TimerProbe.settle, advance, log_append, ← ht, fired_append, hh]
    simp [Timer.log, eventsOf, hj, List.filter_map, Function.comp_def]

/-- A call, which is no iteration of the loop, changes only the timer. -/
theorem call (h : Records p ops) {op : TimerOp (String × Bool)} (hop : ∀ h, op ≠ .loop h) :
    Records { p with timer := (p.timer.apply op).2.1 } (ops ++ [op]) := by
  obtain ⟨ht, hf, hh⟩ := h
  have hq := fired_eventsOf (t := p.timer) hop
  refine ⟨by rw [exec_append, ← ht]; rfl, ?_, ?_⟩
  · simp [log_append, ← ht, Timer.log, hq, hf]
  · simp [log_append, ← ht, Timer.log, hq, hh]

/-- A call the timer takes, then settling. -/
theorem call_settle (h : Records p ops) (op : TimerOp (String × Bool)) (hop : ∀ h, op ≠ .loop h)
    {t : Timer (String × Bool)} (ht : (p.timer.apply op).2.1 = t) :
    Records { p with timer := t }.settle (ops ++ [op, .loop (p.clock + horizon)]) := by
  have := (ht ▸ h.call hop).settle
  simpa using this

/-- Every step of a session carries its timer's run on. -/
theorem step (h : Records p ops) (s : TimerStep) : ∃ ops', Records (p.step s).2 (ops ++ ops') := by
  cases s with
  | addAt tag ms fails =>
    cases hr : p.timer.addAt (ms * nanosPerMilli) (some (tag, fails)) with
    | ok t =>
      have hc := h.call_settle (.addAt (ms * nanosPerMilli) (some (tag, fails)))
        (fun _ he => by cases he) (t := t) (by simp [Timer.apply, hr])
      exact ⟨_, by simpa [TimerProbe.step, hr] using hc⟩
    | error e => exact ⟨[], by simpa [TimerProbe.step, hr] using h⟩
  | addAfter tag delay fails =>
    cases hr : p.timer.addAfter p.clock delay (some (tag, fails)) with
    | ok t =>
      have hc := h.call_settle (.addAfter p.clock delay (some (tag, fails)))
        (fun _ he => by cases he) (t := t) (by simp [Timer.apply, hr])
      exact ⟨_, by simpa [TimerProbe.step, hr] using hc⟩
    | error e => exact ⟨[], by simpa [TimerProbe.step, hr] using h⟩
  | addMissing => exact ⟨[], by simpa [TimerProbe.step, Timer.addAt] using h⟩
  | start => exact ⟨_, h.call_settle .start (fun _ he => by cases he) rfl⟩
  | shutdown notify =>
    cases hr : p.timer.shutdownWith notify with
    | ok r =>
      have hc := h.call_settle (.shutdown notify) (fun _ he => by cases he) (t := r.1)
        (by simp [Timer.apply, hr])
      exact ⟨_, by simpa [TimerProbe.step, Timer.shutdown, Except.map, hr] using hc⟩
    | error e => exact ⟨[], by simpa [TimerProbe.step, Timer.shutdown, Except.map, hr] using h⟩
  | size => exact ⟨[], by simpa [TimerProbe.step] using h⟩
  | wait ms =>
    have h' : Records { p with clock := p.clock + ms * nanosPerMilli } ops := h
    exact ⟨_, h'.settle⟩

/-- Every session is a run of its timer. -/
theorem runSteps (h : Records p ops) (ss : List TimerStep) :
    ∃ ops', Records (p.runSteps ss) (ops ++ ops') := by
  induction ss generalizing p ops with
  | nil => exact ⟨[], by simpa [TimerProbe.runSteps] using h⟩
  | cons s ss ih =>
    obtain ⟨o, ho⟩ := h.step s
    obtain ⟨o', ho'⟩ := ih ho
    exact ⟨o ++ o', by simpa [TimerProbe.runSteps] using ho'⟩

end Records

/-- A timer shut down before it was ever started has finished, its done channel closed, yet its
length is one: the shutdown it was handed stays counted. -/
theorem unstarted_shutdown_counts_itself :
    (TimerProbe.initial.step (.shutdown false)).2.timer.finished = true ∧
      ((TimerProbe.initial.step (.shutdown false)).2.step .size).1 = .ok (.count 1) :=
  ⟨rfl, rfl⟩

end TimerProbe

namespace Timer

open TimerEvent

variable {α : Type}

/-- A timer shut down without being started has not ended its loop and counts its shutdown. -/
theorem unstarted_shutdown_size :
    ((Timer.fresh : Timer Nat).exec [.shutdown false]).1.exited = false ∧
      ((Timer.fresh : Timer Nat).exec [.shutdown false]).1.size = 1 := by
  have hs : ((Timer.fresh : Timer Nat).exec [.shutdown false]).1.stopped = true := rfl
  exact ⟨rfl, by simpa [Timer.log, eventsOf, handedIn, hs] using
    (size_accounts (α := Nat) [.shutdown false]).2.1 rfl⟩

end Timer

end Courier.Dispatch
