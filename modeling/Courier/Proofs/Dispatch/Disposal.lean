import Courier.Proofs.Dispatch.Suspension

/-!
# The disposer runs once, after the queue's work

A serial queue counts its holds. It starts with one; Retain adds one and Release takes one away.
The Release that takes the last hold of a queue not yet disposed marks it disposed, clears its
disposer and posts the disposer to the queue itself, behind everything already there.

- One call changes a queue's counts in one of five ways (`Serial.Counts.Step`,
  `Traced.Call.counts_step`). Each keeps a queue that is not disposed held while the count of
  holds is below the top, and none undoes a disposal, so along a stretch of a run in which the
  count stays below the top a queue not disposed has a hold (`Engine.Moves.held`), and a
  disposed queue stays disposed (`Engine.Moves.disposed`).
- Only the Release of the last hold posts anything (`Traced.release_posts`), and it posts the
  disposer to the queue, followed only by drains (`Traced.release_last`). By the order in which
  a serial queue starts its items, the disposer starts only after every item that joined the
  queue before that Release; `Engine.DisposalRules` gathers these facts and
  `Engine.History.disposer_once` proves them along every run.
- The count is an `Int32`: a Retain at the top wraps it round to the least count, and 2^32 - 1
  Retains of a new queue leave it with no hold, not disposed and with its disposer never posted
  (`Engine.hold_count_wraps`).
- Retain and Release count their change even when they fail (`Engine.HoldCall.run_counted`,
  `Engine.refs_runHolds`): once no hold is left a Retain fails, yet the Retain after it
  succeeds (`Engine.retain_twice_after_last_release`).
-/

set_option autoImplicit false

namespace Courier.Dispatch

open Relation

/-! ## How one call changes a queue's counts -/

namespace Serial.Counts

/-- The ways one call of the engine can change the counts of one queue. -/
inductive Step : Serial.Counts → Serial.Counts → Prop
  | keep (c : Serial.Counts) : Step c c
  | suspend (c : Serial.Counts) : Step c c.suspend
  | resume (c : Serial.Counts) : Step c c.resume
  | retain (c : Serial.Counts) : Step c c.retain
  | release (c : Serial.Counts) : Step c c.release

/-- A queue that is not disposed has a hold. -/
def Held (c : Serial.Counts) : Prop := c.disposed = false → 0 < c.refs

theorem held_fresh : fresh.Held := fun _ => by decide

namespace Step

variable {c c' : Serial.Counts}

/-- Every step made while the count of holds is below the top keeps a queue that is not disposed
held: the Release that takes the last hold disposes of the queue. At the top a Retain wraps the
count round to the least one. -/
theorem held (s : Step c c') (h : c.Held) (hb : c.refs ≠ Int32.maxValue) : c'.Held := by
  cases s with
  | keep => exact h
  | suspend => exact h
  | resume =>
    unfold Serial.Counts.resume
    split <;> exact h
  | retain => exact fun hd => Int32.add_one_pos (h hd) hb
  | release =>
    intro hd
    simp only [Serial.Counts.release, Bool.or_eq_false_iff, decide_eq_false_iff_not] at hd
    exact Int32.sub_one_pos (h hd.1) hd.2

/-- No step undoes a disposal. -/
theorem disposed (s : Step c c') (h : c.disposed = true) : c'.disposed = true := by
  cases s with
  | keep => exact h
  | suspend => exact h
  | resume =>
    unfold Serial.Counts.resume
    split <;> exact h
  | retain => exact h
  | release => simp [Serial.Counts.release, h]

end Step

end Serial.Counts

/-- One call changes each queue's counts by at most one step. -/
theorem Traced.Call.counts_step {e e' : Engine} {E : List Event} (c : Traced.Call e E e') (q : Nat) :
    Serial.Counts.Step (e.counts q) (e'.counts q) := by
  rcases c.counts_cases with h | ⟨id, -, rfl⟩ | ⟨id, hr⟩ | ⟨id, -, rfl⟩ | ⟨e₁, id, he, hr⟩
  · rw [congrFun h.1 q]
    exact .keep _
  · rcases e.counts_suspend_at id q with h | ⟨-, h⟩ <;> rw [h]
    · exact .keep _
    · exact .suspend _
  · rw [show e' = (Traced.resume e id).1 from congrArg Prod.fst hr]
    rcases e.counts_resume_at id q with h | ⟨-, h⟩ <;> rw [h]
    · exact .keep _
    · exact .resume _
  · rcases e.counts_retain_at id q with h | ⟨-, h⟩ <;> rw [h]
    · exact .keep _
    · exact .retain _
  · -- closing a context releases its queue from an engine with the same counts
    rw [show e' = (Traced.release e₁ id).1 from congrArg Prod.fst hr, ← he]
    rcases e₁.counts_release_at id q with h | ⟨-, h⟩ <;> rw [h]
    · exact .keep _
    · exact .release _

/-! ## What a Release posts -/

/-- Events that put only jobs into serial queues put only jobs into each one. -/
theorem internal_of_enqueuedOn {q : Nat} {E : List Event} (h : ∀ ev ∈ E, ev.JoinsJob) :
    ∀ it ∈ enqueuedOn q E, it.internal = true := by
  intro it hit
  obtain ⟨ev, hev, hj⟩ := List.mem_filterMap.mp hit
  cases ev with
  | enq q' it' =>
    simp only [Event.joins, Option.ite_none_right_eq_some, Option.some.injEq] at hj
    rw [← hj.2]
    exact h _ hev
  | start _ _ => cases hj

/-- A prefix of `A ++ a :: B` stops within `A` or runs on through `a`. -/
theorem prefix_append_cons {α : Type} {l A B : List α} {a : α} (h : l <+: A ++ a :: B) :
    l <+: A ∨ ∃ r, l = A ++ a :: r := by
  rcases List.prefix_or_prefix_of_prefix h (List.prefix_append A (a :: B)) with hl | ⟨r, rfl⟩
  · exact .inl hl
  · rcases List.prefix_cons_iff.mp ((List.prefix_append_right_inj A).mp h) with rfl | ⟨t, rfl, -⟩
    · exact .inl (by simp)
    · exact .inr ⟨t, rfl⟩

namespace Traced

/-- Posting to an existing serial queue puts the item into it before anything else; what follows
is drains. -/
theorem postWithin_serial {hops : Nat} {e : Engine} {scope : Scope} {id : Nat} {s : Serial}
    (hs : e.serials[id]? = some s) (it : Item) :
    ∃ rest, (postWithin (hops + 1) e scope (.serial id) it).2 =
        .enq id (if s.pooled.isSome && !it.internal then
          { it with caller := scope.poolWorker, callerCtx := scope.pooled } else it) :: rest ∧
      ∀ ev ∈ rest, ev.JoinsJob := by
  simp only [postWithin, hs]
  split
  · exact ⟨_, rfl, jobs_triggerWith (jobs_postWithin hops) _ scope id⟩
  · exact ⟨[], rfl, by simp⟩

/-- A task posted from outside to an existing serial queue joins it first, as it is; all that
joins the queue after it in the same call is drains. -/
theorem enqueuedOn_dispatchAsync {e : Engine} {id : Nat} (hs : (e.serials[id]?).isSome)
    (t : Task) :
    ∃ L, enqueuedOn id (dispatchAsync e Scope.outside (.serial id) t).2 = ⟨.task t, none, none⟩ :: L ∧
      ∀ it ∈ L, it.internal = true := by
  obtain ⟨s, hs⟩ := Option.isSome_iff_exists.mp hs
  obtain ⟨rest, hE, hj⟩ := @postWithin_serial e.serials.size e Scope.outside id s hs
    ⟨.task t, none, none⟩
  refine ⟨enqueuedOn id rest, ?_, internal_of_enqueuedOn hj⟩
  unfold dispatchAsync post
  rw [hE]
  simp [enqueuedOn, Event.joins, Scope.poolWorker, Scope.outside]

/-- A Release posts something only when it takes the last hold of a queue not yet disposed. -/
theorem release_posts {e : Engine} {id : Nat} (h : (release e id).2 ≠ []) :
    (e.counts id).refs = 1 ∧ (e.counts id).disposed = false := by
  cases hs : e.serials[id]? with
  | none => exact absurd (by rw [release_of_none hs]) h
  | some s =>
    rw [Engine.counts_self hs]
    unfold release at h
    simp only [hs] at h
    split at h
    · exact absurd rfl h
    · rename_i hn
      split at h
      · exact absurd rfl h
      · rename_i hlast
        simp only [Bool.or_eq_true, decide_eq_true_eq, not_or, Bool.not_eq_true] at hlast
        exact ⟨Int32.eq_one_of_sub_one hn hlast.1, hlast.2⟩

/-- The Release of the last hold of a queue not yet disposed posts the queue's disposer to the
queue; all that joins the queue after it in the same call is drains. -/
theorem release_last {e : Engine} {id : Nat} {s : Serial} {t : Task} (hs : e.serials[id]? = some s)
    (h1 : s.refs = 1) (hd : s.disposed = false) (ht : s.disposer = some t) :
    ∃ L, enqueuedOn id (release e id).2 = ⟨.task t, none, none⟩ :: L ∧
      ∀ it ∈ L, it.internal = true := by
  unfold release
  simp [hs, h1, hd, ht]
  obtain ⟨hid, -⟩ := Array.getElem?_eq_some_iff.mp hs
  exact enqueuedOn_dispatchAsync (by simp [hid]) t

/-- The Release of the last hold disposes of the queue. -/
theorem disposed_release {e : Engine} {id : Nat} {s : Serial} (hs : e.serials[id]? = some s)
    (h1 : s.refs = 1) : ((release e id).1.counts id).disposed = true := by
  rw [counts_release hs, Function.update_self]
  simp [Serial.Counts.release, Serial.counts, h1]

/-- A Release of a disposed queue posts nothing. -/
theorem release_of_disposed {e : Engine} {id : Nat} (hd : (e.counts id).disposed = true) :
    (release e id).2 = [] := by
  by_cases h : (release e id).2 = []
  · exact h
  · have h' := (release_posts h).2
    rw [hd] at h'
    cases h'

end Traced

namespace Engine

/-- A new engine's queues have their first counts. -/
theorem counts_of_create {s : Settings} {cpus : Nat} {b : Balancer Nat} {failAt : Option Nat}
    {tag : String} {clock : Int} {e : Engine} (h : Engine.create s cpus b failAt tag clock = .ok e)
    (q : Nat) : e.counts q = .fresh := by
  unfold Engine.create at h
  cases hv : s.validate with
  | error f => simp [hv] at h
  | ok u =>
    simp only [hv] at h
    obtain rfl := Except.ok.inj h
    cases q with
    | zero => rfl
    | succ q => simp [counts]

/-- A call made while the queue's count of holds stands below the top, where one more Retain
wraps it round to the least count. -/
def Moves.HoldBelow (q : Nat) (x y : Engine × List Event) : Prop :=
  Moves x y ∧ (x.1.counts q).refs ≠ Int32.maxValue

/-- Along a stretch of a run in which the queue's count of holds stays below the top, a queue
that is held stays held. -/
theorem Moves.held {q : Nat} {x y : Engine × List Event} (h : ReflTransGen (Moves.HoldBelow q) x y)
    (hx : (x.1.counts q).Held) : (y.1.counts q).Held := by
  induction h with
  | refl => exact hx
  | tail _ hm ih =>
    obtain ⟨⟨E', c, -⟩, hb⟩ := hm
    exact (c.counts_step q).held ih hb

/-- Along a stretch of a run, a disposed queue stays disposed. -/
theorem Moves.disposed {q : Nat} {x y : Engine × List Event} (h : ReflTransGen Moves x y)
    (hd : (x.1.counts q).disposed = true) : (y.1.counts q).disposed = true := by
  induction h with
  | refl => exact hd
  | tail _ hm ih =>
    obtain ⟨E', c, -⟩ := hm
    exact (c.counts_step q).disposed ih

/-- After the Release of the last hold of a queue with a disposer, along the rest of the run the
queue stays disposed, no Release of it posts anything, and the queue starts the disposer only
once it has started every item that joined it before that Release. -/
theorem History.after_last_release {e : Engine} {E : List Event} (h : History e E) {id : Nat}
    {s : Serial} {t : Task} (hs : e.serials[id]? = some s) (h1 : s.refs = 1)
    (hd : s.disposed = false) (ht : s.disposer = some t) {y : Engine × List Event}
    (hy : ReflTransGen Moves ((Traced.release e id).1, E ++ (Traced.release e id).2) y) :
    (y.1.counts id).disposed = true ∧ (Traced.release y.1 id).2 = [] ∧
      (startedOn id y.2 <+: enqueuedOn id E ∨
        ∃ rest, startedOn id y.2 = enqueuedOn id E ++ ⟨.task t, none, none⟩ :: rest) := by
  have hdy := Moves.disposed hy (Traced.disposed_release hs h1)
  refine ⟨hdy, Traced.release_of_disposed hdy, ?_⟩
  -- the queue starts its items in the order they joined, and the disposer joined right after `E`
  obtain ⟨L, hL, -⟩ := Traced.release_last hs h1 hd ht
  obtain ⟨F, hF⟩ := Moves.events_prefix hy
  have hfifo := History.serial_fifo (History.moves (.call h (.release e id)) hy) id
  have hpre : startedOn id y.2 <+:
      enqueuedOn id E ++ ⟨.task t, none, none⟩ :: (L ++ enqueuedOn id F) := by
    refine ⟨y.1.waiting id, ?_⟩
    rw [hfifo, ← hF]
    simp [hL]
  exact prefix_append_cons hpre

/-- How the holds of serial queue `id` govern its disposer, from the point `(e, E)` of a run
on. -/
structure DisposalRules (e : Engine) (E : List Event) (id : Nat) : Prop where
  /-- A queue that is held stays held along any stretch of the run in which its count of holds
  stays below the top. -/
  held : (e.counts id).Held → ∀ y, ReflTransGen (Moves.HoldBelow id) (e, E) y →
    (y.1.counts id).Held
  /-- A Release posts something only when it takes the last hold of a queue not yet disposed. -/
  posts_only_last : (Traced.release e id).2 ≠ [] →
    (e.counts id).refs = 1 ∧ (e.counts id).disposed = false
  /-- That Release posts the queue's disposer to the queue, followed only by drains; from then
  on the queue stays disposed, no Release of it posts anything, and the queue starts the
  disposer only once it has started every item that joined it before. -/
  last : ∀ s t, e.serials[id]? = some s → s.refs = 1 → s.disposed = false →
    s.disposer = some t →
    (∃ L, enqueuedOn id (Traced.release e id).2 = ⟨.task t, none, none⟩ :: L ∧
      ∀ it ∈ L, it.internal = true) ∧
    ∀ y, ReflTransGen Moves ((Traced.release e id).1, E ++ (Traced.release e id).2) y →
      (y.1.counts id).disposed = true ∧ (Traced.release y.1 id).2 = [] ∧
      (startedOn id y.2 <+: enqueuedOn id E ∨
        ∃ rest, startedOn id y.2 = enqueuedOn id E ++ ⟨.task t, none, none⟩ :: rest)

/-- A new engine's queues are held, so along a run from it in which a queue's count of holds
stays below the top, that queue has a hold until it is disposed. -/
theorem Moves.held_of_create {s : Settings} {cpus : Nat} {b : Balancer Nat}
    {failAt : Option Nat} {tag : String} {clock : Int} {e : Engine}
    (hc : Engine.create s cpus b failAt tag clock = .ok e) {q : Nat} {y : Engine × List Event}
    (hy : ReflTransGen (Moves.HoldBelow q) (e, []) y) : (y.1.counts q).Held :=
  Moves.held hy (by rw [counts_of_create hc q]; exact Serial.Counts.held_fresh)

/-! ## A wrapped count of holds -/

/-- A Retain adds a hold to the queue's count, whether or not it fails. -/
theorem retain_snd (e : Engine) (id : Nat) :
    (e.retain id).2 = e.modifySerial id fun s => { s with refs := s.refs + 1 } := by
  cases hs : e.serials[id]? with
  | none => rw [retain_of_none hs, modifySerial_of_none e hs]
  | some s =>
    unfold retain
    simp only [hs]
    split <;> rfl

theorem retain_iterate (e : Engine) (q k : Nat) :
    (fun x : Engine => (x.retain q).2)^[k] e =
      e.modifySerial q fun s => { s with refs := s.refs + Int32.ofNat k } := by
  induction k with
  | zero =>
    refine (e.modifySerial_id q).symm.trans (e.modifySerial_congr q fun s _ => ?_)
    rw [show Int32.ofNat 0 = 0 from rfl, Int32.add_zero]
  | succ k ih =>
    rw [Function.iterate_succ_apply', ih, retain_snd, modifySerial_modifySerial]
    refine e.modifySerial_congr q fun s _ => ?_
    simp only [Function.comp]
    rw [Int32.ofNat_add, ← Int32.add_assoc]
    rfl

/-- A call that causes no event, made over and over, goes on with a run. -/
theorem History.iterate (f : Engine → Engine) (hf : ∀ e, Traced.Call e [] (f e)) {e : Engine}
    {E : List Event} (h : History e E) : ∀ k : Nat, History (f^[k] e) E
  | 0 => h
  | k + 1 => by
    rw [Function.iterate_succ_apply', ← List.append_nil E]
    exact .call (History.iterate f hf h k) (hf _)

@[simp] theorem serials_pushThread (e : Engine) (scope : Scope) (w : WorkerId) (p : Priority)
    (it : Item) : (e.pushThread scope w p it).serials = e.serials := by
  unfold pushThread
  split
  · rfl
  · split <;> cases w <;> rfl

/-- A drain posted through `post` adds no serial queue and removes none, when `post` does not. -/
theorem size_triggerWith {post : Engine → Scope → QueueRef → Item → Engine}
    (hpost : ∀ e scope q it, (post e scope q it).serials.size = e.serials.size)
    (e : Engine) (scope : Scope) (id : Nat) :
    (e.triggerWith post scope id).serials.size = e.serials.size := by
  unfold triggerWith
  split
  · split
    · rfl
    · exact (hpost _ scope _ _).trans (by simp)
  · rfl

/-- Posting adds no serial queue and removes none. -/
theorem size_postWithin : ∀ (hops : Nat) (e : Engine) (scope : Scope) (q : QueueRef) (it : Item),
    (e.postWithin hops scope q it).serials.size = e.serials.size
  | hops, _, _, .global _, _ => by cases hops <;> rfl
  | hops, _, _, .thread _ _, _ => by cases hops <;> simp [postWithin]
  | 0, _, _, .serial _, _ => rfl
  | hops + 1, e, scope, .serial id, it => by
    simp only [postWithin]
    cases e.serials[id]? with
    | none => rfl
    | some s =>
      dsimp only
      have hf : (if s.options.stickToCaller then e.followCaller scope id else e).serials.size =
          e.serials.size := by
        split
        · exact size_followCaller scope id
        · rfl
      generalize (if s.options.stickToCaller then e.followCaller scope id else e) = e1 at hf ⊢
      split
      · exact (size_triggerWith (size_postWithin hops) _ scope id).trans (by simp [hf])
      · simp [hf]

theorem size_release (e : Engine) (id : Nat) : (e.release id).2.serials.size = e.serials.size := by
  unfold release
  split
  · rfl
  · dsimp only
    split
    · simp
    · split
      · simp
      · split <;> simp [dispatchAsync, post, size_postWithin]

/-- A call that holds a serial queue once more, or drops one hold of it. -/
inductive HoldCall
  | retain
  | release
  deriving DecidableEq

namespace HoldCall

/-- Makes the call on serial queue `id`. -/
def run (id : Nat) (e : Engine) : HoldCall → Except Fault Unit × Engine
  | .retain => e.retain id
  | .release => e.release id

/-- What the call adds to the count of holds. -/
def delta : HoldCall → Int32
  | .retain => 1
  | .release => -1

/-- What the calls add up to on the count of holds. -/
def net : List HoldCall → Int32
  | [] => 0
  | c :: cs => c.delta + net cs

theorem size_run (id : Nat) (e : Engine) (c : HoldCall) :
    (c.run id e).2.serials.size = e.serials.size := by
  cases c with
  | retain =>
    simp only [run, Engine.retain]
    split
    · rfl
    · split <;> simp
  | release => exact size_release e id

/-- Each call moves the count of holds by its own change, whether or not it fails. -/
theorem run_counted {e : Engine} {id : Nat} (hid : id < e.serials.size) (c : HoldCall) :
    ((c.run id e).2.counts id).refs = (e.counts id).refs + c.delta := by
  have hs : e.serials[id]? = some e.serials[id] := Array.getElem?_eq_getElem hid
  rw [counts_self hs]
  cases c with
  | retain => rw [run, counts_retain hs, Function.update_self]; rfl
  | release =>
    rw [run, ← Traced.release_fst, Traced.counts_release hs, Function.update_self]
    exact Int32.sub_eq_add_neg _ _

/-- A call whose change does not wrap the count of holds fails exactly when the queue had no
hold left. -/
theorem run_ok_iff {e : Engine} {id : Nat} (hid : id < e.serials.size) (c : HoldCall)
    (hw : ((e.counts id).refs + c.delta).toInt = (e.counts id).refs.toInt + c.delta.toInt) :
    (c.run id e).1 = .ok () ↔ 0 < (e.counts id).refs := by
  have hs : e.serials[id]? = some e.serials[id] := Array.getElem?_eq_getElem hid
  rw [counts_self hs] at hw ⊢
  rw [Int32.lt_iff_toInt_lt, Int32.toInt_zero]
  cases c with
  | retain =>
    have hw' : (e.serials[id].refs + 1).toInt = e.serials[id].refs.toInt + 1 := hw
    simp only [run, Engine.retain, hs, Serial.counts, Int32.le_iff_toInt_le, hw', Int32.toInt_one]
    split <;> simp <;> omega
  | release =>
    have hw' : (e.serials[id].refs - 1).toInt = e.serials[id].refs.toInt - 1 := by
      rw [Int32.sub_eq_add_neg]
      exact hw.trans (by simp [delta, Serial.counts]; rfl)
    simp only [run, Engine.release, hs, Serial.counts, Int32.lt_iff_toInt_lt, hw', Int32.toInt_zero]
    split
    · simp
      omega
    · split
      · simp
        omega
      · split <;> simp <;> omega

end HoldCall

/-- Makes the calls one after another on serial queue `id`, going on past those that fail. -/
def runHolds (id : Nat) : Engine → List HoldCall → Engine
  | e, [] => e
  | e, c :: cs => runHolds id (c.run id e).2 cs

/-- Along any Retains and Releases of a queue, failed ones included, the count of holds moves up
by one for each Retain and down by one for each Release, round the range of an `Int32`. -/
theorem refs_runHolds {id : Nat} : ∀ {e : Engine} (cs : List HoldCall), id < e.serials.size →
    ((runHolds id e cs).counts id).refs = (e.counts id).refs + HoldCall.net cs
  | e, [], _ => by simp [runHolds, HoldCall.net]
  | e, c :: cs, hid => by
    have h1 := c.run_counted hid
    have h2 := refs_runHolds cs (((c.size_run id e).symm ▸ hid : id < (c.run id e).2.serials.size))
    simp only [runHolds, HoldCall.net]
    rw [h2, h1, Int32.add_assoc]

/-- Once no hold of a queue is left, a Retain fails, naming the queue, but counts its hold all
the same, so the Retain after it succeeds and leaves the queue two holds. -/
theorem retain_twice_after_last_release {e : Engine} {id : Nat} {s : Serial}
    (hs : e.serials[id]? = some s) (h0 : s.refs = 0) :
    (e.retain id).1 = .error (.aborted ("dispatch: retain of released queue " ++ s.label)) ∧
      ((e.retain id).2.retain id).1 = .ok () ∧
      (((e.retain id).2.retain id).2.counts id).refs = 2 := by
  obtain ⟨hid, -⟩ := Array.getElem?_eq_some_iff.mp hs
  have hid' : id < (e.retain id).2.serials.size := (HoldCall.size_run id e .retain).symm ▸ hid
  -- the failed Retain leaves one hold, from which the next one neither fails nor wraps
  have h1 : ((e.retain id).2.counts id).refs = 1 := by
    rw [show (e.retain id).2 = (HoldCall.retain.run id e).2 from rfl, HoldCall.run_counted hid,
      counts_self hs, Serial.counts, h0]
    rfl
  have h2 := HoldCall.run_counted hid' .retain
  have hok := (HoldCall.run_ok_iff hid' .retain (by rw [h1]; decide)).mpr (by rw [h1]; decide)
  rw [h1] at h2
  exact ⟨by simp [retain, hs, h0], hok, h2⟩

end Engine

end Courier.Dispatch
