import Courier.Proofs.Dispatch.Order
import Courier.Proofs.Dispatch.Flow
import Mathlib.Logic.Relation

/-!
# What only a serial queue's own calls change

A serial queue counts its suspensions and its holds, and remembers whether it was let go. Of the
engine's calls only Suspend and Resume change the first count, and only Retain, Release and the
closing of a context the other two; everything else the engine does (posting, draining, workers
taking items and leaving, contexts moving, queues being made) keeps every queue's counts, and the
queues it makes start fresh. A drain takes an item only from a queue that is not suspended, and
nothing inside a call suspends a queue, so a call starts an item of a queue only while that
queue is not suspended.

- `Serial.Counts`, `Engine.counts`: the counts of every serial queue, one not made yet counting
  as fresh; `Engine.counts_*`: the engine's functions that keep them;
- `Honours`: a traced function keeps the counts and starts only items of queues not suspended,
  with one lemma per traced function;
- `Traced.Call.counts_cases`: every call honours this, but for the five calls on a queue's counts;
- `Engine.Moves`: one call after another along a run, with their events; `History.moves`.
-/

set_option autoImplicit false

namespace Courier.Dispatch

/-- What a serial queue's own calls change: how often it is suspended, how many holds it has,
both in 32 bits, and whether it was let go. -/
structure Serial.Counts where
  suspended : Int32
  refs : Int32
  disposed : Bool

/-- The counts of a serial queue. -/
def Serial.counts (s : Serial) : Serial.Counts := ⟨s.suspended, s.refs, s.disposed⟩

namespace Serial.Counts

/-- The counts of a queue just made: not suspended, held once, not let go. -/
def fresh : Serial.Counts := ⟨0, 1, false⟩

/-- One more suspension. -/
def suspend (c : Serial.Counts) : Serial.Counts := { c with suspended := c.suspended + 1 }

/-- One suspension fewer, unless that leaves the count below zero. -/
def resume (c : Serial.Counts) : Serial.Counts :=
  if c.suspended - 1 < 0 then c else { c with suspended := c.suspended - 1 }

/-- One more hold, counted even when the call fails. -/
def retain (c : Serial.Counts) : Serial.Counts := { c with refs := c.refs + 1 }

/-- One hold fewer, counted even when the call fails; dropping the last hold lets the queue go. -/
def release (c : Serial.Counts) : Serial.Counts :=
  { c with refs := c.refs - 1, disposed := c.disposed || decide (c.refs = 1) }

end Serial.Counts

namespace Engine

/-- The counts of serial queue `id`; a queue the engine has not made yet counts as fresh. -/
def counts (e : Engine) (id : Nat) : Serial.Counts :=
  match e.serials[id]? with
  | some s => s.counts
  | none => .fresh

variable {e : Engine}

theorem counts_self {id : Nat} {s : Serial} (hs : e.serials[id]? = some s) :
    e.counts id = s.counts := by
  simp only [counts, hs]

/-- The counts are read off the serial queues alone. -/
theorem counts_of_serials {e' : Engine} (h : e'.serials = e.serials) : e'.counts = e.counts := by
  funext q; simp only [counts, h]

theorem counts_modifySerial (id : Nat) (f : Serial → Serial) (q : Nat) :
    (e.modifySerial id f).counts q =
      if id = q then ((e.serials[q]?).map fun s => (f s).counts).getD .fresh else e.counts q := by
  unfold counts
  rw [serials_modifySerial, Array.getElem?_modify]
  by_cases h : id = q
  · subst h
    simp only [↓reduceIte]
    cases e.serials[id]? <;> rfl
  · simp only [h, ↓reduceIte]

/-- A change to a serial queue that keeps its counts keeps every queue's counts. -/
theorem counts_modifySerial_of (id : Nat) {f : Serial → Serial} (hf : ∀ s, (f s).counts = s.counts) :
    (e.modifySerial id f).counts = e.counts := by
  funext q
  rw [counts_modifySerial]
  split
  · rename_i h
    subst h
    unfold counts
    cases e.serials[id]? <;> simp only [Option.map_some, Option.map_none, Option.getD_some,
      Option.getD_none, hf]
  · rfl

/-- A change to serial queue `id` that gives it the counts `c`. -/
theorem counts_modifySerial_update {id : Nat} {s : Serial} (hs : e.serials[id]? = some s)
    {f : Serial → Serial} {c : Serial.Counts} (hf : (f s).counts = c) :
    (e.modifySerial id f).counts = Function.update e.counts id c := by
  funext q
  rw [counts_modifySerial]
  by_cases h : id = q
  · subst h
    simp [hs, hf]
  · simp [h, Function.update_of_ne (Ne.symm h)]

/-- A new serial queue that starts fresh keeps every queue's counts. -/
theorem counts_of_push {e' : Engine} {s : Serial} (h : e'.serials = e.serials.push s)
    (hs : s.counts = .fresh) : e'.counts = e.counts := by
  funext q
  unfold counts
  rw [h, Array.getElem?_push]
  by_cases hq : q = e.serials.size
  · subst hq
    simp only [↓reduceIte, hs, Array.getElem?_eq_none (Nat.le_refl _)]
  · simp only [hq, ↓reduceIte]

theorem counts_create (label : String) (prio : Priority) (target : QueueRef) (options : QueueOptions)
    (pooled : Option Nat) : (Serial.create label prio target options pooled).counts = .fresh := rfl

/-! ## The engine's functions that keep the counts -/

@[simp] theorem counts_modifyWorker (w : WorkerId) (f : Worker → Worker) :
    (e.modifyWorker w f).counts = e.counts :=
  counts_of_serials (by cases w <;> rfl)

@[simp] theorem counts_pushGlobal (p : Priority) (it : Item) : (e.pushGlobal p it).counts = e.counts :=
  rfl

@[simp] theorem counts_pushThread (scope : Scope) (w : WorkerId) (p : Priority) (it : Item) :
    (e.pushThread scope w p it).counts = e.counts := by
  unfold pushThread
  split
  · rfl
  · split <;> exact counts_modifyWorker _ _

/-- Moving a queue to its caller changes only its target. -/
theorem counts_followCaller (scope : Scope) (id : Nat) : (e.followCaller scope id).counts = e.counts := by
  rw [followCaller_eq]
  refine counts_modifySerial_of id fun s => ?_
  unfold Serial.follow
  split <;> rfl

@[simp] theorem counts_assignTo (c w : Nat) : (e.assignTo c w).counts = e.counts := by
  unfold assignTo
  split
  · split
    · rfl
    · exact counts_modifySerial_of _ fun _ => rfl
  · rfl

theorem counts_observe (c : Nat) (it : Item) : (e.observe c it).counts = e.counts := by
  unfold observe
  split
  · rfl
  · dsimp only
    split
    · exact counts_assignTo _ _
    · rfl

theorem counts_chooseWorker (scope : Scope) : (e.chooseWorker scope).2.counts = e.counts := by
  rcases e.chooseWorker_snd scope with he | he <;> rw [he] <;> rfl

/-- A context's queue starts fresh. -/
theorem counts_register (scope : Scope) (label : String) (fn : Option Task) (options : QueueOptions) :
    (e.register scope label fn options).2.counts = e.counts := by
  have hc := counts_chooseWorker (e := e) scope
  unfold register
  dsimp only
  generalize e.chooseWorker scope = r at hc
  obtain ⟨w, e1⟩ := r
  cases w with
  | error f => exact hc
  | ok w => exact (counts_of_push rfl (counts_create _ _ _ _ _)).trans hc

theorem counts_createSerial (label : String) (prio : Priority) (options : QueueOptions) :
    (e.createSerial label prio options).2.counts = e.counts :=
  counts_of_push rfl (counts_create _ _ _ _ _)

theorem counts_createPartitioned (label : String) (k : Int) (options : QueueOptions) :
    (e.createPartitioned label k options).2.counts = e.counts := by
  unfold createPartitioned
  split
  · rfl
  · dsimp only
    generalize (if label.isEmpty then e.freshLabel "partitioned" else label) = name
    generalize (⟨name, Courier.Hash.Ring.create Courier.Hash.defaultReplicas, []⟩ : Partitioned) = pq
    generalize List.range k.toNat = is
    induction is generalizing pq e with
    | nil => rfl
    | cons i is ih => exact (ih _).trans (counts_createSerial _ _ _)

theorem counts_nextItem {w : WorkerId} {scope : Scope} {it : Item} {e' : Engine}
    (h : e.nextItem w = some (scope, it, e')) : e'.counts = e.counts := by
  obtain ⟨p, hp⟩ := nextItem_eq_some h
  exact counts_of_serials (serials_takeAt hp)

/-- The orphans of a worker move to the heir, which retargets their queues only. -/
theorem counts_adoptOrphans (i : Nat) : (e.adoptOrphans i).counts = e.counts :=
  adoptOrphans_induction (P := fun e' => e'.counts = e.counts) i rfl rfl
    fun _ c w h => (counts_assignTo c w).trans h

theorem counts_exitWorker (i : Nat) : (e.exitWorker i).counts = e.counts := by
  have h1 : ((e.modifyWorker (.pool i) fun wk => { wk with status := .terminated }).handOver
      (.pool i)).counts = e.counts :=
    (counts_of_serials (serials_handOver _)).trans (counts_modifyWorker _ _)
  unfold exitWorker
  dsimp only
  generalize (e.modifyWorker (.pool i) fun wk => { wk with status := .terminated }).handOver
    (.pool i) = e1 at h1 ⊢
  split
  · exact h1
  · exact (counts_adoptOrphans i).trans h1

theorem counts_setTarget (id : Nat) (onto : Option QueueRef) :
    (e.setTarget id onto).2.counts = e.counts := by
  unfold setTarget
  split
  · rfl
  · dsimp only
    split
    · rfl
    · exact counts_modifySerial_of id fun _ => rfl

theorem counts_setDisposer (id : Nat) (t : Option Task) : (e.setDisposer id t).counts = e.counts :=
  counts_modifySerial_of id fun _ => rfl

theorem counts_dispatchAfter (q : QueueRef) (t : Task) (delay : Int) :
    (e.dispatchAfter q t delay).2.counts = e.counts := by
  unfold dispatchAfter
  split <;> rfl

end Engine

/-! ## Traced functions: the counts kept, items started only from queues not suspended -/

/-- An event that puts one of the engine's own jobs into a serial queue. -/
def Event.JoinsJob : Event → Prop
  | .enq _ it => it.internal = true
  | .start _ _ => False

/-- A traced function from `e` with outcome `r` keeps the counts of every serial queue, and
starts an item of a queue only while that queue is not suspended. -/
def Honours (e : Engine) (r : Engine × List Event) : Prop :=
  r.1.counts = e.counts ∧ ∀ q it, Event.start q it ∈ r.2 → (e.counts q).suspended = 0

namespace Honours

variable {e : Engine}

/-- A change that keeps the counts, with no events. -/
theorem of_counts {e' : Engine} (h : e'.counts = e.counts) : Honours e (e', []) :=
  ⟨h, fun _ _ h => by simp at h⟩

/-- A change that keeps the counts and starts nothing. -/
theorem of_joins {r : Engine × List Event} (h : r.1.counts = e.counts)
    (hj : ∀ ev ∈ r.2, ∃ q it, ev = .enq q it) : Honours e r :=
  ⟨h, fun q it hq => by obtain ⟨_, _, h⟩ := hj _ hq; cases h⟩

/-- One traced function after another. -/
theorem append {r r' : Engine × List Event} (h : Honours e r) (h' : Honours r.1 r') :
    Honours e (r'.1, r.2 ++ r'.2) := by
  refine ⟨h'.1.trans h.1, fun q it hq => ?_⟩
  rcases List.mem_append.mp hq with hq | hq
  · exact h.2 q it hq
  · rw [← h.1]; exact h'.2 q it hq

/-- A traced function after a change that keeps the counts. -/
theorem before {e' : Engine} {r : Engine × List Event} (h : Honours e' r) (he : e'.counts = e.counts) :
    Honours e r :=
  ⟨h.1.trans he, fun q it hq => he ▸ h.2 q it hq⟩

/-- A change that keeps the counts, after a traced function. -/
theorem after {r : Engine × List Event} (h : Honours e r) {e' : Engine} (h' : e'.counts = r.1.counts) :
    Honours e (e', r.2) :=
  ⟨h'.trans h.1, h.2⟩

/-- A drain takes the front item of a queue that is not suspended, and starts it. -/
theorem take {id : Nat} {s : Serial} (hs : e.serials[id]? = some s) (hsusp : s.suspended = 0)
    (it : Item) (rest : Courier.Queue.Linked Item) :
    Honours e (e.modifySerial id fun s => { s with tasks := rest }, [.start id it]) := by
  refine ⟨Engine.counts_modifySerial_of id fun _ => rfl, fun q it' hq => ?_⟩
  simp only [List.mem_singleton, Event.start.injEq] at hq
  rw [hq.1, Engine.counts_self hs]
  exact hsusp

end Honours

namespace Traced

variable {e : Engine}

/-- A drain posted through `post` puts nothing but jobs into serial queues, when `post` does so
for every job. -/
theorem jobs_triggerWith {post : Engine → Scope → QueueRef → Item → Engine × List Event}
    (hpost : ∀ e scope q it, it.internal = true → ∀ ev ∈ (post e scope q it).2, ev.JoinsJob)
    (e : Engine) (scope : Scope) (id : Nat) :
    ∀ ev ∈ (triggerWith post e scope id).2, ev.JoinsJob := by
  unfold triggerWith
  split
  · split
    · simp
    · exact hpost _ scope _ _ rfl
  · simp

/-- Posting a drain, or any of the engine's own jobs, puts nothing but jobs into serial queues. -/
theorem jobs_postWithin : ∀ (hops : Nat) (e : Engine) (scope : Scope) (q : QueueRef) (it : Item),
    it.internal = true → ∀ ev ∈ (postWithin hops e scope q it).2, ev.JoinsJob
  | hops, _, _, .global _, _, _ => by cases hops <;> simp [postWithin]
  | hops, _, _, .thread _ _, _, _ => by cases hops <;> simp [postWithin]
  | 0, _, _, .serial _, _, _ => by simp [postWithin]
  | hops + 1, e, scope, .serial id, it, hit => by
    simp only [postWithin]
    cases e.serials[id]? with
    | none => simp
    | some s =>
      -- a job keeps no caller: it joins as it is, then the queue's drain is posted
      have hkeep : (if s.pooled.isSome && !it.internal then
          { it with caller := scope.poolWorker, callerCtx := scope.pooled } else it) = it := by
        simp [hit]
      dsimp only
      rw [hkeep]
      split
      · intro ev hev
        rcases List.mem_cons.mp hev with rfl | hev
        · exact hit
        · exact jobs_triggerWith (jobs_postWithin hops) _ scope id ev hev
      · intro ev hev
        rw [List.mem_singleton.mp hev]
        exact hit

/-- The drain a queue posts puts nothing but jobs into serial queues. -/
theorem jobs_trigger (e : Engine) (scope : Scope) (id : Nat) :
    ∀ ev ∈ (trigger e scope id).2, ev.JoinsJob :=
  jobs_triggerWith (jobs_postWithin e.serials.size) e scope id

/-- A drain posted through `post` keeps every queue's counts, when `post` does. -/
theorem counts_triggerWith {post : Engine → Scope → QueueRef → Item → Engine × List Event}
    (hpost : ∀ e scope q it, (post e scope q it).1.counts = e.counts)
    (e : Engine) (scope : Scope) (id : Nat) :
    (triggerWith post e scope id).1.counts = e.counts := by
  unfold triggerWith
  split
  · split
    · rfl
    · exact (hpost _ scope _ _).trans (Engine.counts_modifySerial_of id fun _ => rfl)
  · rfl

/-- Posting keeps every queue's counts, and its events only put items into serial queues. -/
theorem postWithin_joins : ∀ (hops : Nat) (e : Engine) (scope : Scope) (q : QueueRef) (it : Item),
    (postWithin hops e scope q it).1.counts = e.counts ∧
      ∀ ev ∈ (postWithin hops e scope q it).2, ∃ q' it', ev = .enq q' it'
  | hops, _, _, .global _, _ => by cases hops <;> exact ⟨rfl, by simp [postWithin]⟩
  | hops, _, _, .thread _ _, _ => by
    cases hops <;> exact ⟨Engine.counts_pushThread _ _ _ _, by simp [postWithin]⟩
  | 0, _, _, .serial _, _ => ⟨rfl, by simp [postWithin]⟩
  | hops + 1, e, scope, .serial id, it => by
    simp only [postWithin]
    cases e.serials[id]? with
    | none => exact ⟨rfl, by simp⟩
    | some s =>
      dsimp only
      -- the queue may first move to the calling worker, which keeps its counts
      have hf : (if s.options.stickToCaller then e.followCaller scope id else e).counts = e.counts := by
        split
        · exact Engine.counts_followCaller scope id
        · rfl
      generalize (if s.options.stickToCaller then e.followCaller scope id else e) = e1 at hf ⊢
      generalize (if s.pooled.isSome && !it.internal then
          { it with caller := scope.poolWorker, callerCtx := scope.pooled } else it) = it'
      have hj : (e1.modifySerial id fun s => { s with tasks := s.tasks.push it', size := s.size + 1 }).counts =
          e.counts :=
        (Engine.counts_modifySerial_of (f := fun s => { s with tasks := s.tasks.push it', size := s.size + 1 })
          id fun _ => rfl).trans hf
      split
      · refine ⟨?_, ?_⟩
        · exact (counts_triggerWith (fun e scope q it => (postWithin_joins hops e scope q it).1)
            _ scope id).trans hj
        · intro ev hev
          rcases List.mem_cons.mp hev with rfl | hev
          · exact ⟨_, _, rfl⟩
          · have := jobs_triggerWith (jobs_postWithin hops) _ scope id ev hev
            cases ev with
            | enq q' it'' => exact ⟨_, _, rfl⟩
            | start _ _ => exact this.elim
      · exact ⟨hj, fun ev hev => ⟨_, _, List.mem_singleton.mp hev⟩⟩

end Traced

namespace Honours

variable {e : Engine}

theorem postWithin (hops : Nat) (e : Engine) (scope : Scope) (q : QueueRef) (it : Item) :
    Honours e (Traced.postWithin hops e scope q it) :=
  of_joins (Traced.postWithin_joins hops e scope q it).1 (Traced.postWithin_joins hops e scope q it).2

theorem trigger (e : Engine) (scope : Scope) (id : Nat) : Honours e (Traced.trigger e scope id) := by
  unfold Traced.trigger Traced.triggerWith
  split
  · split
    · exact of_counts rfl
    · exact (postWithin _ _ scope _ _).before (Engine.counts_modifySerial_of id fun _ => rfl)
  · exact of_counts rfl

theorem dispatchAsync (e : Engine) (scope : Scope) (q : QueueRef) (t : Task) :
    Honours e (Traced.dispatchAsync e scope q t) :=
  postWithin _ e scope q _

theorem requestDispatch (e : Engine) (scope : Scope) (c : Nat) :
    Honours e (Traced.requestDispatch e scope c) := by
  unfold Traced.requestDispatch
  split
  · split
    · split
      · exact of_counts rfl
      · exact (dispatchAsync _ _ _ _).before rfl
    · exact of_counts rfl
  · exact of_counts rfl

theorem perform (scope : Scope) : ∀ (t : Task) (e : Engine),
    Honours e ((Traced.perform e scope t).1.1, (Traced.perform e scope t).2)
  | .seq a b, e => by
    have ha := perform scope a e
    simp only [Traced.perform]
    split
    · rename_i e1 m hr
      rw [hr] at ha
      exact ha
    · rename_i e1 hr
      rw [hr] at ha
      exact ha.append (perform scope b e1)
  | .request c, e => requestDispatch e scope c
  | .post q t, e => dispatchAsync e scope q t
  | .register _ label fn opts, e =>
    of_counts (Engine.counts_register scope label fn opts)
  | .noop, _ | .fail _, _ | .log _ _, _ | .add _ _, _ | .probe _, _ | .cancel _, _
  | .closeTracker _, _ | .clearPending _, _ => of_counts rfl

theorem execute (e : Engine) (scope : Scope) (it : Item) : Honours e (Traced.execute e scope it) := by
  unfold Traced.execute
  cases it.job with
  | task t =>
    have h := perform scope t e
    dsimp only
    split
    · rename_i e1 m hr
      rw [hr] at h
      exact h.after rfl
    · rename_i e1 hr
      rw [hr] at h
      exact h
  | member slot t => exact (perform scope t e).after rfl
  | drain _ | pill _ => exact of_counts rfl

/-- A drain's items: each is taken from the front of a queue found not suspended, and run by a
runner that honours the counts. -/
theorem drainItems {run : Scope → Item → Engine → Engine × List Event}
    (hrun : ∀ scope it e, Honours e (run scope it e)) (qscope : Scope) (id : Nat) :
    ∀ (n : Nat) (e : Engine) (done : Nat),
      Honours e ((Traced.drainItems run qscope id n e done).1.1,
        (Traced.drainItems run qscope id n e done).2)
  | 0, _, _ => of_counts rfl
  | n + 1, e, done => by
    unfold Traced.drainItems
    cases hs : e.serials[id]? with
    | none => exact of_counts rfl
    | some s =>
      dsimp only
      split
      · exact of_counts rfl
      · rename_i hsusp
        have hzero : s.suspended = 0 := by simpa using hsusp
        cases s.tasks.pop with
        | mk o rest =>
          cases o with
          | none => exact of_counts rfl
          | some it =>
            dsimp only
            have htake := Dispatch.Honours.take hs hzero it rest
            split
            · exact htake.append ((hrun _ _ _).append (drainItems hrun qscope id n _ _))
            · -- an item of a context's queue is shown to the balancer first
              cases s.pooled with
              | none => exact htake.append ((execute _ _ _).append (drainItems hrun qscope id n _ _))
              | some c =>
                exact htake.append (((execute _ _ _).before (Engine.counts_observe c it)).append
                  (drainItems hrun qscope id n _ _))

theorem drainBound {run : Scope → Item → Engine → Engine × List Event}
    (hrun : ∀ scope it e, Honours e (run scope it e)) (e : Engine) (scope : Scope) (id : Nat)
    (s : Serial) : Honours e (Traced.drainBound run e scope id s) := by
  have h0 := drainItems hrun { scope with queue := some (.serial id), pooled := s.pooled <|> scope.pooled }
    id s.size.toNat e 0
  unfold Traced.drainBound
  dsimp only
  generalize Traced.drainItems run { scope with queue := some (.serial id), pooled := s.pooled <|> scope.pooled }
    id s.size.toNat e 0 = r at h0 ⊢
  obtain ⟨⟨e1, done⟩, E⟩ := r
  -- the drain is over: the queue is idle, its size less what was taken
  have h1 : Honours e (e1.modifySerial id fun s => { s with size := s.size - done, triggered := false }, E) :=
    h0.after (Engine.counts_modifySerial_of id fun _ => rfl)
  dsimp only
  split
  · split
    · exact h1.append (trigger _ _ _)
    · exact h1
  · exact h1

theorem drainWith {run : Scope → Item → Engine → Engine × List Event}
    (hrun : ∀ scope it e, Honours e (run scope it e)) (e : Engine) (scope : Scope) (id : Nat) :
    Honours e (Traced.drainWith run e scope id) := by
  unfold Traced.drainWith
  split
  · exact of_counts rfl
  · -- a queue bound to its first drainer binds to this worker, which keeps its counts
    split
    · split
      · exact (drainBound hrun _ _ _ _).before (Engine.counts_modifySerial_of id fun _ => rfl)
      · exact drainBound hrun _ _ _ _
    · exact drainBound hrun _ _ _ _

theorem runJob : ∀ (fuel : Nat) (scope : Scope) (it : Item) (e : Engine),
    Honours e (Traced.runJob fuel scope it e)
  | 0, _, _, _ => of_counts rfl
  | fuel + 1, scope, it, e => by
    unfold Traced.runJob
    cases it.job with
    | drain id => exact drainWith (runJob fuel) e scope id
    | pill w =>
      refine of_counts ?_
      split
      · exact Engine.counts_modifyWorker _ _
      · rfl
    | task _ | member _ _ => exact execute e scope it

theorem stepWorker {w : WorkerId} {r : Engine × List Event} (h : Traced.stepWorker e w = some r) :
    Honours e r := by
  unfold Traced.stepWorker at h
  split at h
  · simp at h
  · rename_i scope it e1 hn
    have h1 := (runJob e1.nestingDepth scope it e1).before (Engine.counts_nextItem hn)
    cases w with
    | main => obtain rfl := Option.some.inj h; exact h1
    | pool i =>
      dsimp only at h
      split at h
      · obtain rfl := Option.some.inj h
        split
        · exact h1.after (Engine.counts_exitWorker i)
        · exact h1
      · obtain rfl := Option.some.inj h; exact h1

/-- Traced functions made one after another from a list, each adding its events. -/
theorem foldl {α : Type} {F : Engine × List Event → α → Engine × List Event}
    (hF : ∀ r a, Honours e r → Honours e (F r a)) :
    ∀ (l : List α) (r : Engine × List Event), Honours e r → Honours e (l.foldl F r)
  | [], _, h => h
  | a :: l, r, h => foldl hF l (F r a) (hF r a h)

theorem fireTimers (e : Engine) : Honours e (Traced.fireTimers e) := by
  unfold Traced.fireTimers
  generalize e.timer.advance (e.clock + Engine.timerHorizon) = tj
  obtain ⟨t, jobs⟩ := tj
  refine foldl (fun r j h => ?_) jobs _ (of_counts rfl)
  obtain ⟨q, task⟩ := j
  exact (h.append (dispatchAsync r.1 Scope.outside q task)).after rfl

theorem runPoolFor : ∀ (k : Nat) (e : Engine), Honours e (Traced.runPoolFor k e)
  | 0, _ => of_counts rfl
  | k + 1, e => by
    unfold Traced.runPoolFor
    split
    · rename_i r hr
      obtain ⟨i, -, hi⟩ := List.exists_of_findSome?_eq_some hr
      exact (stepWorker hi).append (runPoolFor k r.1)
    · exact of_counts rfl

theorem runPool (e : Engine) : Honours e (Traced.runPool e) :=
  (fireTimers e).append (runPoolFor _ _)

theorem runBothFor : ∀ (k : Nat) (e : Engine), Honours e (Traced.runBothFor k e)
  | 0, _ => of_counts rfl
  | k + 1, e => by
    unfold Traced.runBothFor
    split
    · rename_i r hr
      exact (stepWorker hr).append (runBothFor k r.1)
    · split
      · rename_i r hr
        obtain ⟨i, -, hi⟩ := List.exists_of_findSome?_eq_some hr
        exact (stepWorker hi).append (runBothFor k r.1)
      · exact of_counts rfl

theorem stopAll (e : Engine) : Honours e (Traced.stopAll e) := by
  have hpills : ∀ (l : List Nat) (e1 : Engine), (l.foldl (fun e i =>
      e.pushThread Scope.outside (.pool i) .low ⟨.pill i, none, none⟩) e1).counts = e1.counts := by
    intro l
    induction l with
    | nil => intro _; rfl
    | cons i l ih => intro e1; rw [List.foldl_cons, ih, Engine.counts_pushThread]
  -- every worker gets its stopping job, then the pool runs until all have left
  have h1 := (runPool ((List.range e.workers.size).foldl (fun e i =>
    e.pushThread Scope.outside (.pool i) .low ⟨.pill i, none, none⟩) { e with shutdown := true })).before
    (hpills _ _)
  refine h1.after ?_
  rw [Traced.runPool_fst]
  rfl

theorem startWorkers : ∀ (e : Engine) (i n : Nat), Honours e (Traced.startWorkers e i n)
  | _, _, 0 => of_counts rfl
  | e, i, n + 1 => by
    unfold Traced.startWorkers
    dsimp only
    split
    · exact (stopAll _).before (Engine.counts_modifyWorker _ _)
    · exact (startWorkers _ (i + 1) n).before rfl

theorem start (e : Engine) : Honours e (Traced.start e) := by
  unfold Traced.start
  split
  · exact of_counts rfl
  · split
    · exact of_counts rfl
    · exact (startWorkers _ 0 _).before rfl

theorem stop (e : Engine) : Honours e (Traced.stop e) := by
  unfold Traced.stop
  split
  · exact of_counts rfl
  · exact stopAll e

theorem runGroup (e : Engine) (scope : Scope) (q : QueueRef) (n : Nat) (task : Nat → Nat → Task) :
    Honours e (Traced.runGroup e scope q n task) := by
  unfold Traced.runGroup
  split
  · exact of_counts rfl
  · have hw : (e.openWait n).2.counts = e.counts := rfl
    generalize e.openWait n = se at hw
    obtain ⟨slot, e1⟩ := se
    dsimp only
    -- the members are posted one after the other, then the pool runs
    exact (foldl (fun r i h => h.append (postWithin _ r.1 scope q _)) _ _
      (of_counts hw)).append (runPool _)

theorem schedule (e : Engine) (scope : Scope) (task : Task) (delay : Int) :
    Honours e (Traced.schedule e scope task delay) := by
  have hc := Engine.counts_chooseWorker (e := e) scope
  unfold Traced.schedule
  generalize e.chooseWorker scope = r at hc
  obtain ⟨w, e1⟩ := r
  cases w with
  | error f => exact of_counts hc
  | ok w =>
    dsimp only
    split
    · exact (dispatchAsync _ _ _ _).before hc
    · split
      · exact of_counts hc
      · exact of_counts hc

theorem dispatchMain (e : Engine) : Honours e (Traced.dispatchMain e) := by
  unfold Traced.dispatchMain
  split
  · exact of_counts rfl
  · exact (fireTimers e).append (runBothFor _ _)

end Honours

namespace Traced

variable {e : Engine}

/-- Events that only put jobs into serial queues start nothing. -/
theorem not_start_of_jobs {E : List Event} (h : ∀ ev ∈ E, ev.JoinsJob) (q : Nat) (it : Item) :
    Event.start q it ∉ E :=
  fun hq => h _ hq

/-! ## The calls on a queue's counts -/

theorem counts_resume {id : Nat} {s : Serial} (hs : e.serials[id]? = some s) :
    (resume e id).1.counts = Function.update e.counts id s.counts.resume := by
  unfold resume
  simp only [hs]
  split
  · -- no suspension is left to lift: nothing changes
    rename_i hn
    have hkeep : s.counts.resume = e.counts id := by
      rw [Engine.counts_self hs]
      simp [Serial.Counts.resume, Serial.counts, hn]
    rw [hkeep]
    exact (Function.update_eq_self _ _).symm
  · rename_i hn
    have hm : (e.modifySerial id fun s' => { s' with suspended := s.suspended - 1 }).counts =
        Function.update e.counts id s.counts.resume :=
      Engine.counts_modifySerial_update hs (by simp [Serial.counts, Serial.Counts.resume, hn])
    split
    · rw [(Honours.trigger _ _ _).1, hm]
    · exact hm

theorem resume_of_none {id : Nat} (hs : e.serials[id]? = none) : resume e id = (e, []) := by
  simp [resume, hs]

/-- A Resume posts at most its queue's drain: it starts nothing. -/
theorem not_start_resume (id q : Nat) (it : Item) : Event.start q it ∉ (resume e id).2 := by
  unfold resume
  split
  · simp
  · dsimp only
    split
    · simp
    · split
      · exact not_start_of_jobs (jobs_trigger _ _ _) q it
      · simp

theorem counts_release {id : Nat} {s : Serial} (hs : e.serials[id]? = some s) :
    (release e id).1.counts = Function.update e.counts id s.counts.release := by
  unfold release
  simp only [hs]
  split
  · -- an unbalanced release: the drop is counted all the same
    rename_i hn
    exact Engine.counts_modifySerial_update hs (by
      simp [Serial.counts, Serial.Counts.release, show s.refs ≠ 1 from fun h1 => absurd (h1 ▸ hn) (by decide)])
  · split
    · -- holds are left, or the queue was let go before
      rename_i hn hn'
      have hkept : s.disposed = true ∨ s.refs ≠ 1 := by
        simp only [Bool.or_eq_true, decide_eq_true_eq] at hn'
        rcases hn' with h | h
        · exact .inr fun h1 => absurd (h1 ▸ h) (by decide)
        · exact .inl h
      exact Engine.counts_modifySerial_update hs (by
        rcases hkept with h | h <;> simp [Serial.counts, Serial.Counts.release, h])
    · -- the last hold: the queue is let go, and its disposer posted
      rename_i hn hn'
      have hlast : s.refs = 1 := by
        simp only [Bool.or_eq_true, decide_eq_true_eq, not_or] at hn'
        exact Int32.eq_one_of_sub_one hn hn'.1
      have hgo : ((e.modifySerial id fun s' => { s' with refs := s.refs - 1 }).modifySerial id
          fun s' => { s' with disposed := true, disposer := none }).counts =
          Function.update e.counts id s.counts.release := by
        rw [Engine.modifySerial_modifySerial]
        exact Engine.counts_modifySerial_update hs (by
          simp [Serial.counts, Serial.Counts.release, hlast])
      split
      · rw [(Honours.dispatchAsync _ _ _ _).1, hgo]
      · exact hgo

theorem release_of_none {id : Nat} (hs : e.serials[id]? = none) : release e id = (e, []) := by
  simp [release, hs]

/-- A Release posts at most the disposer and its queue's drain: it starts nothing. -/
theorem not_start_release (id q : Nat) (it : Item) : Event.start q it ∉ (release e id).2 := by
  unfold release
  split
  · simp
  · dsimp only
    split
    · simp
    · split
      · simp
      · split
        · intro hq
          obtain ⟨_, _, h⟩ := (postWithin_joins _ _ _ _ _).2 _ hq
          cases h
        · simp

/-- Closing a context releases its queue, from an engine with the same counts. -/
theorem closeContext_release (e : Engine) (c : Nat) :
    closeContext e c = (e, []) ∨ ∃ e₁ id, e₁.counts = e.counts ∧ closeContext e c = release e₁ id := by
  unfold closeContext
  split
  · exact .inl rfl
  · split
    · exact .inl rfl
    · -- the context is marked closed and its queue given the disposer, which keep the counts
      dsimp only
      refine .inr ⟨_, _, ?_, rfl⟩
      exact (Engine.counts_setDisposer _ _).trans rfl

end Traced

namespace Engine

variable {e : Engine}

theorem counts_suspend {id : Nat} {s : Serial} (hs : e.serials[id]? = some s) :
    (e.suspend id).counts = Function.update e.counts id s.counts.suspend :=
  counts_modifySerial_update hs rfl

theorem counts_retain {id : Nat} {s : Serial} (hs : e.serials[id]? = some s) :
    (e.retain id).2.counts = Function.update e.counts id s.counts.retain := by
  unfold retain
  simp only [hs]
  split <;> exact counts_modifySerial_update hs rfl

theorem retain_of_none {id : Nat} (hs : e.serials[id]? = none) : e.retain id = (.ok (), e) := by
  simp [retain, hs]

/-- A change that applies `t` to the counts of queue `id` when it exists, and otherwise changes
no counts, leaves each queue's counts as they were or, at `id`, moves them by `t`. -/
theorem counts_at_of_update {e' : Engine} {id : Nat} {t : Serial.Counts → Serial.Counts}
    (hnone : e.serials[id]? = none → e'.counts = e.counts)
    (hsome : ∀ s, e.serials[id]? = some s → e'.counts = Function.update e.counts id (t s.counts))
    (q : Nat) : e'.counts q = e.counts q ∨ (q = id ∧ e'.counts q = t (e.counts q)) := by
  cases hs : e.serials[id]? with
  | none => exact .inl (congrFun (hnone hs) q)
  | some s =>
    rw [hsome s hs]
    by_cases hid : q = id
    · subst hid
      exact .inr ⟨rfl, by rw [Function.update_self, counts_self hs]⟩
    · exact .inl (Function.update_of_ne hid _ _)

theorem counts_suspend_at (e : Engine) (id q : Nat) :
    (e.suspend id).counts q = e.counts q ∨
      (q = id ∧ (e.suspend id).counts q = (e.counts q).suspend) :=
  counts_at_of_update (fun hs => by rw [suspend, e.modifySerial_of_none hs])
    (fun _ hs => counts_suspend hs) q

theorem counts_resume_at (e : Engine) (id q : Nat) :
    (Traced.resume e id).1.counts q = e.counts q ∨
      (q = id ∧ (Traced.resume e id).1.counts q = (e.counts q).resume) :=
  counts_at_of_update (fun hs => by rw [Traced.resume_of_none hs])
    (fun _ hs => Traced.counts_resume hs) q

theorem counts_retain_at (e : Engine) (id q : Nat) :
    (e.retain id).2.counts q = e.counts q ∨
      (q = id ∧ (e.retain id).2.counts q = (e.counts q).retain) :=
  counts_at_of_update (fun hs => by rw [retain_of_none hs]) (fun _ hs => counts_retain hs) q

theorem counts_release_at (e : Engine) (id q : Nat) :
    (Traced.release e id).1.counts q = e.counts q ∨
      (q = id ∧ (Traced.release e id).1.counts q = (e.counts q).release) :=
  counts_at_of_update (fun hs => by rw [Traced.release_of_none hs])
    (fun _ hs => Traced.counts_release hs) q

end Engine

/-- Every call honours the counts, but for the calls on one queue's counts: Suspend, Resume,
Retain, and Release, made directly or by closing a context. -/
theorem Traced.Call.counts_cases {e e' : Engine} {E : List Event} (c : Traced.Call e E e') :
    Honours e (e', E) ∨ (∃ id, E = [] ∧ e' = e.suspend id) ∨ (∃ id, (e', E) = Traced.resume e id) ∨
      (∃ id, E = [] ∧ e' = (e.retain id).2) ∨
      (∃ e₁ id, e₁.counts = e.counts ∧ (e', E) = Traced.release e₁ id) := by
  cases c with
  | dispatchAsync scope q t => exact .inl (Honours.dispatchAsync e scope q t)
  | step w h => exact .inl (Honours.stepWorker h)
  | suspend id => exact .inr (.inl ⟨id, rfl, rfl⟩)
  | resume id => exact .inr (.inr (.inl ⟨id, rfl⟩))
  | retain id => exact .inr (.inr (.inr (.inl ⟨id, rfl, rfl⟩)))
  | release id => exact .inr (.inr (.inr (.inr ⟨e, id, rfl, rfl⟩)))
  | setDisposer id t => exact .inl (Honours.of_counts (Engine.counts_setDisposer id t))
  | setTarget id onto _ => exact .inl (Honours.of_counts (Engine.counts_setTarget id onto))
  | assignTo c w => exact .inl (Honours.of_counts (Engine.counts_assignTo c w))
  | createSerial label prio options =>
    exact .inl (Honours.of_counts (Engine.counts_createSerial label prio options))
  | createPartitioned label k options =>
    exact .inl (Honours.of_counts (Engine.counts_createPartitioned label k options))
  | register scope label fn options =>
    exact .inl (Honours.of_counts (Engine.counts_register scope label fn options))
  | requestDispatch scope c => exact .inl (Honours.requestDispatch e scope c)
  | closeContext c =>
    rcases Traced.closeContext_release e c with h | ⟨e₁, id, he, h⟩
    · rw [h]; exact .inl (Honours.of_counts rfl)
    · rw [h]; exact .inr (.inr (.inr (.inr ⟨e₁, id, he, rfl⟩)))
  | start => exact .inl (Honours.start e)
  | stop => exact .inl (Honours.stop e)
  | runGroup scope q k task => exact .inl (Honours.runGroup e scope q k task)
  | dispatchAfter q t delay => exact .inl (Honours.of_counts (Engine.counts_dispatchAfter q t delay))
  | schedule scope t delay => exact .inl (Honours.schedule e scope t delay)
  | runPool => exact .inl (Honours.runPool e)
  | dispatchMain => exact .inl (Honours.dispatchMain e)
  | newCell => exact .inl (Honours.of_counts rfl)
  | openWait k => exact .inl (Honours.of_counts rfl)

/-! ## Stretches of a run -/

namespace Engine

/-- One call along a run: from an engine and the events so far, to the engine after the call and
the events with the call's added. -/
def Moves (x y : Engine × List Event) : Prop := ∃ E, Traced.Call x.1 E y.1 ∧ y.2 = x.2 ++ E

/-- A run goes on through any calls. -/
theorem History.moves {e : Engine} {E : List Event} (h : History e E) {y : Engine × List Event}
    (hy : Relation.ReflTransGen Moves (e, E) y) : History y.1 y.2 := by
  induction hy with
  | refl => exact h
  | tail _ hm ih =>
    obtain ⟨E', c, hE⟩ := hm
    rw [hE]
    exact .call ih c

end Engine

end Courier.Dispatch
