import Courier.Proofs.Dispatch.Order
import Courier.Proofs.Dispatch.Lanes
import Courier.Proofs.Dispatch.Disposal
import Courier.Dispatch.Session

/-!
# A group on a serial queue runs in order, and its caller gets the first failure

A caller that waits for a group of `n` tasks opens a waiting slot and posts the tasks as members
of the group; each member that runs counts itself off the slot and keeps the first failure there.
Posted to a serial queue, the members join that queue one after the other; a drain takes items only
from the front, so they start in the order they were posted, each once. No other item counts off
the slot, and none of the engine's own moves brings a member of the group into the shared or the
workers' queues, so the slot's count and failure are a fold over the members started so far.

- `Task.failure`, `Engine.perform_snd`: whether a task fails does not depend on the engine;
- `Item.memberOf`, `members`, `startedOf`, `joinedOf`: a group's tasks among items and events;
- `Engine.tally`, `countRuns`: what the caller reads of its slot, and the fold the members make;
- `Posts`, `Tallies`: a traced change posts no member of the group, or counts off the members it
  starts, keeping the group out of the shared and the workers' queues; one lemma per traced
  function, from posting to running the pool;
- `Opens`, `Engine.SlotsFresh`, `Engine.Reachable.slotsFresh`: a call opens slots only at the end
  of the slot array, so along every run no member of a slot not yet opened waits anywhere;
- `Engine.group_runs_in_order`: in every reachable engine, a group posted to a serial queue joins
  it in order and starts in order; a caller answered without interruption has seen every member
  run and gets the failure of the first member that failed. Empty groups and groups without a
  task are answered before the engine is asked.
-/

set_option autoImplicit false

namespace Courier.Dispatch

open Courier.Queue

/-! ## Failures and members -/

/-- The failure a task ends with: the first `fail` it comes to. -/
def Task.failure : Task → Option String
  | .fail m => some m
  | .seq a b => a.failure <|> b.failure
  | _ => none

/-- The task of an item that is a member of group `s`. -/
def Item.memberOf (s : Nat) (it : Item) : Option Task :=
  match it.job with
  | .member s' t => if s' = s then some t else none
  | _ => none

theorem Item.memberOf_of_internal {it : Item} (h : it.internal = true) (s : Nat) :
    it.memberOf s = none := by
  cases hj : it.job <;> simp_all [Item.internal, Item.memberOf]

/-- Every item is a member of no group but its own. -/
theorem Item.exists_memberOf_none (it : Item) : ∃ s, it.memberOf s = none := by
  cases hj : it.job with
  | member k t => exact ⟨k + 1, by simp [Item.memberOf, hj]⟩
  | task _ | drain _ | pill _ => exact ⟨0, by simp [Item.memberOf, hj]⟩

/-- The tasks of group `s` among a list of items, in order. -/
def members (s : Nat) (l : List Item) : List Task := l.filterMap (Item.memberOf s)

@[simp] theorem members_nil (s : Nat) : members s [] = [] := rfl

@[simp] theorem members_append (s : Nat) (l l' : List Item) :
    members s (l ++ l') = members s l ++ members s l' :=
  List.filterMap_append

/-- The task of group `s` that an event starts. -/
def Event.startsMember (s : Nat) : Event → Option Task
  | .start _ it => it.memberOf s
  | .enq _ _ => none

/-- The task of group `s` that an event puts into a serial queue. -/
def Event.joinsMember (s : Nat) : Event → Option Task
  | .enq _ it => it.memberOf s
  | .start _ _ => none

/-- The tasks of group `s` started along a list of events, from any serial queue, in order. -/
def startedOf (s : Nat) (E : List Event) : List Task := E.filterMap (Event.startsMember s)

/-- The tasks of group `s` put into serial queues along a list of events. -/
def joinedOf (s : Nat) (E : List Event) : List Task := E.filterMap (Event.joinsMember s)

@[simp] theorem startedOf_nil (s : Nat) : startedOf s [] = [] := rfl

@[simp] theorem joinedOf_nil (s : Nat) : joinedOf s [] = [] := rfl

@[simp] theorem startedOf_append (s : Nat) (E E' : List Event) :
    startedOf s (E ++ E') = startedOf s E ++ startedOf s E' :=
  List.filterMap_append

@[simp] theorem joinedOf_append (s : Nat) (E E' : List Event) :
    joinedOf s (E ++ E') = joinedOf s E ++ joinedOf s E' :=
  List.filterMap_append

@[simp] theorem startedOf_enq (s q : Nat) (it : Item) (E : List Event) :
    startedOf s (.enq q it :: E) = startedOf s E := rfl

@[simp] theorem startedOf_start (s q : Nat) (it : Item) (E : List Event) :
    startedOf s (.start q it :: E) = (it.memberOf s).toList ++ startedOf s E := by
  cases h : it.memberOf s <;> simp [startedOf, Event.startsMember, h]

@[simp] theorem joinedOf_enq (s q : Nat) (it : Item) (E : List Event) :
    joinedOf s (.enq q it :: E) = (it.memberOf s).toList ++ joinedOf s E := by
  cases h : it.memberOf s <;> simp [joinedOf, Event.joinsMember, h]

@[simp] theorem joinedOf_start (s q : Nat) (it : Item) (E : List Event) :
    joinedOf s (.start q it :: E) = joinedOf s E := rfl

@[simp] theorem members_cons (s : Nat) (it : Item) (l : List Item) :
    members s (it :: l) = (it.memberOf s).toList ++ members s l := by
  cases h : it.memberOf s <;> simp [members, h]

@[simp] theorem enqueuedOn_enq (q q' : Nat) (it : Item) (E : List Event) :
    enqueuedOn q (.enq q' it :: E) = (if q' = q then [it] else []) ++ enqueuedOn q E := by
  by_cases h : q' = q <;> simp [enqueuedOn, Event.joins, h]

@[simp] theorem enqueuedOn_start (q q' : Nat) (it : Item) (E : List Event) :
    enqueuedOn q (.start q' it :: E) = enqueuedOn q E := rfl

@[simp] theorem startedOn_start (q q' : Nat) (it : Item) (E : List Event) :
    startedOn q (.start q' it :: E) = (if q' = q then [it] else []) ++ startedOn q E := by
  by_cases h : q' = q <;> simp [startedOn, Event.starts, h]

@[simp] theorem startedOn_enq (q q' : Nat) (it : Item) (E : List Event) :
    startedOn q (.enq q' it :: E) = startedOn q E := rfl

/-- With no member of the group joining anywhere, none joins any one queue. -/
theorem members_enqueuedOn_of_joinedOf {s : Nat} {E : List Event} (h : joinedOf s E = []) (q : Nat) :
    members s (enqueuedOn q E) = [] := by
  induction E with
  | nil => rfl
  | cons ev E ih =>
    cases ev with
    | enq q' it =>
      simp only [joinedOf_enq, List.append_eq_nil_iff, Option.toList_eq_nil_iff] at h
      by_cases hq : q' = q <;> simp [hq, h.1, ih h.2]
    | start q' it => simpa using ih h

/-- With no member of the group started anywhere, none starts from any one queue. -/
theorem members_startedOn_of_startedOf {s : Nat} {E : List Event} (h : startedOf s E = []) (q : Nat) :
    members s (startedOn q E) = [] := by
  induction E with
  | nil => rfl
  | cons ev E ih =>
    cases ev with
    | start q' it =>
      simp only [startedOf_start, List.append_eq_nil_iff, Option.toList_eq_nil_iff] at h
      by_cases hq : q' = q <;> simp [hq, h.1, ih h.2]
    | enq q' it => simpa using ih h

/-- Members started only from queue `id` are the members started at all. -/
theorem startedOf_eq_of_others {s id : Nat} {E : List Event}
    (h : ∀ q, q ≠ id → members s (startedOn q E) = []) :
    startedOf s E = members s (startedOn id E) := by
  induction E with
  | nil => rfl
  | cons ev E ih =>
    cases ev with
    | enq q it => simpa using ih h
    | start q it =>
      -- the first event's item counts on its own queue only; the rest of the list is the same
      have hsplit : ∀ q', q' ≠ id → (if q = q' then (it.memberOf s).toList else []) = [] ∧
          members s (startedOn q' E) = [] := by
        intro q' hq'
        have := h q' hq'
        by_cases hq : q = q' <;> simp_all
      have htail := ih fun q' hq' => (hsplit q' hq').2
      by_cases hq : q = id
      · subst hq
        simp [htail]
      · have hit := (hsplit q hq).1
        simp only [ite_true, Option.toList_eq_nil_iff] at hit
        simp [htail, hq, hit]

/-! ## What the caller reads of its slot -/

/-- What a caller reads of its slot: the members still to run, and the first failure. -/
def Wait.tally (w : Wait) : Nat × Option String := (w.remaining, w.failure)

/-- A member's run, counted off a tally. -/
def countRun (c : Nat × Option String) (t : Task) : Nat × Option String := (c.1 - 1, c.2 <|> t.failure)

/-- Members' runs, one after the other. -/
def countRuns (ts : List Task) (c : Nat × Option String) : Nat × Option String := ts.foldl countRun c

@[simp] theorem countRuns_nil (c : Nat × Option String) : countRuns [] c = c := rfl

theorem countRuns_append (ts ts' : List Task) (c : Nat × Option String) :
    countRuns (ts ++ ts') c = countRuns ts' (countRuns ts c) :=
  List.foldl_append

/-- After `k` runs the count is down by `k`, and the failure is the first one met. -/
theorem countRuns_eq (ts : List Task) (m : Nat) (f : Option String) :
    countRuns ts (m, f) = (m - ts.length, f <|> ts.findSome? Task.failure) := by
  induction ts generalizing m f with
  | nil => cases f <;> rfl
  | cons t ts ih =>
    rw [countRuns, List.foldl_cons, ← countRuns, countRun, ih]
    simp only [List.length_cons, List.findSome?_cons, Prod.mk.injEq]
    refine ⟨by omega, ?_⟩
    cases f <;> cases t.failure <;> rfl

namespace Engine

variable {e : Engine} {s : Nat}

/-- A task's failure is read off the task alone. -/
theorem perform_snd (scope : Scope) : ∀ (t : Task) (e : Engine), (e.perform scope t).2 = t.failure
  | .seq a b, e => by
    have ha := perform_snd scope a e
    simp only [perform, Task.failure]
    rcases hr : e.perform scope a with ⟨e1, _ | m⟩
    · rw [hr] at ha
      simp only at ha ⊢
      rw [← ha, perform_snd scope b e1]
      rfl
    · rw [hr] at ha
      simp only at ha ⊢
      rw [← ha]
      rfl
  | .noop, _ | .log _ _, _ | .fail _, _ | .request _, _ | .post _ _, _ | .add _ _, _
  | .register _ _ _ _, _ | .probe _, _ | .cancel _, _ | .closeTracker _, _ | .clearPending _, _ => rfl

/-- What the caller of group `s` reads of its slot. -/
def tally (e : Engine) (s : Nat) : Option (Nat × Option String) := e.waits[s]?.map Wait.tally

/-- No member of group `s` waits in the shared or the workers' queues. -/
def LanesFree (e : Engine) (s : Nat) : Prop := ∀ it ∈ e.laneItems, it.memberOf s = none

/-- A change that brings no item into the shared or the workers' queues and leaves the waiting
slots alone. -/
def KeepsOut (e e' : Engine) : Prop := (∀ x ∈ e'.laneItems, x ∈ e.laneItems) ∧ e'.waits = e.waits

namespace KeepsOut

theorem refl (e : Engine) : KeepsOut e e := ⟨fun _ hx => hx, rfl⟩

theorem trans {e₁ e₂ e₃ : Engine} (h : KeepsOut e₁ e₂) (h' : KeepsOut e₂ e₃) :
    KeepsOut e₁ e₃ :=
  ⟨fun x hx => h.1 x (h'.1 x hx), h'.2.trans h.2⟩

/-- A change of fields other than the queues of the workers and the slots. -/
theorem of_eq {e' : Engine} (hl : e'.laneItems = e.laneItems) (hw : e'.waits = e.waits) : KeepsOut e e' :=
  ⟨fun _ hx => hl ▸ hx, hw⟩

/-- Stopping the balancer and the timer moves no item and opens no slot. -/
theorem of_halt (r : Engine) (b : Balancer Nat) (t : Timer (QueueRef × Task)) :
    KeepsOut r { r with balancer := b, timer := t } :=
  of_eq rfl rfl

theorem lanesFree {e' : Engine} (h : KeepsOut e e') (hf : e.LanesFree s) : e'.LanesFree s :=
  fun it hit => hf it (h.1 it hit)

theorem tally {e' : Engine} (h : KeepsOut e e') : e'.tally s = e.tally s := by
  simp only [Engine.tally, h.2]

theorem of_gathers {e' : Engine} (h : Gathers e e') : KeepsOut e e' := by
  obtain ⟨⟨g, m, ws, rfl⟩, hl⟩ := h
  exact ⟨hl, rfl⟩

theorem modifySerial (id : Nat) (f : Serial → Serial) : KeepsOut e (e.modifySerial id f) :=
  of_eq rfl rfl

theorem modifyContext (c : Nat) (f : Context → Context) : KeepsOut e (e.modifyContext c f) :=
  of_eq rfl rfl

theorem followCaller (scope : Scope) (id : Nat) : KeepsOut e (e.followCaller scope id) := by
  rw [followCaller_eq]
  exact modifySerial id _

theorem assignTo (c w : Nat) : KeepsOut e (e.assignTo c w) := by
  unfold Engine.assignTo
  split
  · split
    · exact refl e
    · exact of_eq rfl rfl
  · exact refl e

theorem observe (c : Nat) (it : Item) : KeepsOut e (e.observe c it) := by
  unfold Engine.observe
  split
  · exact refl e
  · dsimp only
    split
    · exact (assignTo (e := e.modifyContext c _) c _).trans (of_eq rfl rfl)
    · exact of_eq rfl rfl

theorem chooseWorker (scope : Scope) : KeepsOut e (e.chooseWorker scope).2 := by
  rcases e.chooseWorker_snd scope with he | he <;> rw [he]
  · exact refl e
  · exact of_eq rfl rfl

theorem register (scope : Scope) (label : String) (fn : Option Task) (options : QueueOptions) :
    KeepsOut e (e.register scope label fn options).2 := by
  have hc := chooseWorker (e := e) scope
  unfold Engine.register
  dsimp only
  generalize e.chooseWorker scope = r at hc
  obtain ⟨w, e1⟩ := r
  cases w with
  | error f => exact hc
  | ok w => exact hc.trans (of_eq rfl rfl)

theorem adoptOrphans (i : Nat) : KeepsOut e (e.adoptOrphans i) :=
  Engine.adoptOrphans_induction (P := KeepsOut e) i (refl e) (of_eq rfl rfl)
    fun _ c w h => h.trans (assignTo c w)

theorem modifyWorker_of_lanes (w : WorkerId) {f : Worker → Worker} (hf : ∀ wk, (f wk).lanes = wk.lanes) :
    KeepsOut e (e.modifyWorker w f) := by
  refine of_eq ?_ (by cases w <;> rfl)
  have h := e.queued_modifyWorker_of_lanes w f hf
  have hs : (e.modifyWorker w f).serials = e.serials := by cases w <;> rfl
  rw [queued_eq_laneItems, queued_eq_laneItems, hs] at h
  exact List.append_cancel_right h

/-- A worker that leaves hands its items to the shared queues, and brings none in. -/
theorem exitWorker (i : Nat) : KeepsOut e (e.exitWorker i) := by
  have h1 := (modifyWorker_of_lanes (e := e) (.pool i) (f := fun wk => { wk with status := .terminated })
    fun _ => rfl).trans (of_gathers (handOver_gathers (.pool i)))
  unfold Engine.exitWorker
  dsimp only
  generalize (e.modifyWorker (.pool i) fun wk => { wk with status := .terminated }).handOver
    (.pool i) = e₁ at h1 ⊢
  have h2 : KeepsOut e { e₁ with live := e₁.live.erase i } := h1.trans (of_eq rfl rfl)
  split
  · exact h2.trans (of_eq rfl rfl)
  · exact (h2.trans (adoptOrphans i)).trans (of_eq rfl rfl)

theorem pushWorker (name : String) :
    KeepsOut e { e with workers := e.workers.push (Worker.create name) } := by
  refine ⟨fun x hx => ?_, rfl⟩
  simp only [laneItems, Array.toList_push, List.flatMap_append, List.mem_append] at hx ⊢
  rcases hx with (hx | hx) | hx | hx
  · exact .inl (.inl hx)
  · exact .inl (.inr hx)
  · exact .inr hx
  · -- a new worker holds nothing
    have hnil : (Worker.create name).queued = [] := rfl
    simp [hnil] at hx

theorem retain (id : Nat) : KeepsOut e (e.retain id).2 := by
  unfold Engine.retain
  split
  · exact refl e
  · dsimp only
    split <;> exact modifySerial id _

theorem setTarget (id : Nat) (onto : Option QueueRef) : KeepsOut e (e.setTarget id onto).2 := by
  unfold Engine.setTarget
  split
  · exact refl e
  · dsimp only
    split
    · exact refl e
    · exact modifySerial id _

theorem dispatchAfter (q : QueueRef) (t : Task) (delay : Int) : KeepsOut e (e.dispatchAfter q t delay).2 := by
  unfold Engine.dispatchAfter
  split
  · exact of_eq rfl rfl
  · exact refl e

theorem createPartitioned (label : String) (k : Int) (options : QueueOptions) :
    KeepsOut e (e.createPartitioned label k options).2 := by
  unfold Engine.createPartitioned
  split
  · exact refl e
  · dsimp only
    generalize (if label.isEmpty then e.freshLabel "partitioned" else label) = name
    generalize (⟨name, Courier.Hash.Ring.create Courier.Hash.defaultReplicas, []⟩ : Partitioned) = pq
    generalize List.range k.toNat = is
    -- each partition is a new serial queue, which touches neither the workers nor the slots
    induction is generalizing pq e with
    | nil => exact refl e
    | cons i is ih => exact (of_eq rfl rfl).trans (ih _)

end KeepsOut

/-! ## Changes that post and count off nothing -/

/-- A traced change that only posts: no member of group `s` joins a queue or starts, the slot's
tally stays, no slot is opened, and no member of the group comes into the shared or the workers'
queues. -/
structure Posts (s : Nat) (e : Engine) (r : Engine × List Event) : Prop where
  size : r.1.waits.size = e.waits.size
  lanes : e.LanesFree s → r.1.LanesFree s
  joined : joinedOf s r.2 = []
  started : startedOf s r.2 = []
  tally : r.1.tally s = e.tally s

namespace Posts

theorem of_keeps {e' : Engine} (h : KeepsOut e e') : Posts s e (e', []) :=
  ⟨by rw [h.2], h.lanesFree, rfl, rfl, h.tally⟩

theorem refl (e : Engine) : Posts s e (e, []) := of_keeps (.refl e)

theorem append {r r' : Engine × List Event} (h : Posts s e r) (h' : Posts s r.1 r') :
    Posts s e (r'.1, r.2 ++ r'.2) :=
  ⟨h'.size.trans h.size, fun hf => h'.lanes (h.lanes hf), by simp [h.joined, h'.joined],
    by simp [h.started, h'.started], h'.tally.trans h.tally⟩

theorem before {e' : Engine} {r : Engine × List Event} (h : KeepsOut e e') (h' : Posts s e' r) :
    Posts s e r :=
  (of_keeps h).append h'

theorem after {r : Engine × List Event} (h : Posts s e r) {e' : Engine} (h' : KeepsOut r.1 e') :
    Posts s e (e', r.2) := by
  simpa using h.append (of_keeps h')

/-- An item that is no member of the group joins a shared queue. -/
theorem pushGlobal (p : Priority) {it : Item} (hit : it.memberOf s = none) :
    Posts s e (e.pushGlobal p it, []) := by
  refine ⟨rfl, fun hf x hx => ?_, rfl, rfl, rfl⟩
  rcases mem_laneItems_pushGlobal hx with rfl | hx
  · exact hit
  · exact hf x hx

/-- An item that is no member of the group joins a worker's own queue. -/
theorem pushThread (scope : Scope) (w : WorkerId) (p : Priority) {it : Item} (hit : it.memberOf s = none) :
    Posts s e (e.pushThread scope w p it, []) := by
  obtain ⟨g, m, ws, hle⟩ := pushThread_lanesOnly (e := e) scope w p it
  refine ⟨by rw [hle], fun hf x hx => ?_, rfl, rfl, by simp only [Engine.tally, hle]⟩
  rcases mem_laneItems_pushThread hx with rfl | hx
  · exact hit
  · exact hf x hx

/-- Posting the drain of a queue posts no member when the post of a drain posts none. -/
theorem triggerWith {post : Engine → Scope → QueueRef → Item → Engine × List Event}
    (hpost : ∀ e scope q it, it.memberOf s = none → Posts s e (post e scope q it)) (e : Engine)
    (scope : Scope) (id : Nat) : Posts s e (Traced.triggerWith post e scope id) := by
  unfold Traced.triggerWith
  split
  · split
    · exact refl e
    · exact (hpost _ _ _ _ rfl).before (KeepsOut.modifySerial id _)
  · exact refl e

theorem postWithin : ∀ (hops : Nat) (e : Engine) (scope : Scope) (q : QueueRef) {it : Item},
    it.memberOf s = none → Posts s e (Traced.postWithin hops e scope q it)
  | hops, _, _, .global p, _, hit => by cases hops <;> exact pushGlobal p hit
  | hops, _, scope, .thread w p, _, hit => by cases hops <;> exact pushThread scope w p hit
  | 0, e, _, .serial _, _, _ => refl e
  | hops + 1, e, scope, .serial id, it, hit => by
    simp only [Traced.postWithin]
    cases hs : e.serials[id]? with
    | none => exact refl e
    | some sr =>
      dsimp only
      -- the queue may first move to the calling worker; the item keeps its job either way
      have hf : KeepsOut e (if sr.options.stickToCaller then e.followCaller scope id else e) := by
        split
        · exact KeepsOut.followCaller scope id
        · exact KeepsOut.refl e
      have hit' : (if sr.pooled.isSome && !it.internal then
          { it with caller := scope.poolWorker, callerCtx := scope.pooled } else it).memberOf s = none := by
        split <;> exact hit
      generalize (if sr.options.stickToCaller then e.followCaller scope id else e) = e1 at hf ⊢
      generalize (if sr.pooled.isSome && !it.internal then
          { it with caller := scope.poolWorker, callerCtx := scope.pooled } else it) = it' at hit' ⊢
      have hjoin : Posts s e (e1.modifySerial id fun s => { s with tasks := s.tasks.push it', size := s.size + 1 },
          [.enq id it']) :=
        ⟨by rw [(hf.trans (KeepsOut.modifySerial id _)).2], (hf.trans (KeepsOut.modifySerial id _)).lanesFree,
          by simp [hit'], rfl, (hf.trans (KeepsOut.modifySerial id _)).tally⟩
      split
      · exact hjoin.append (triggerWith (fun e scope q _ h => postWithin hops e scope q h) _ scope id)
      · exact hjoin

theorem post (e : Engine) (scope : Scope) (q : QueueRef) {it : Item} (hit : it.memberOf s = none) :
    Posts s e (Traced.post e scope q it) :=
  postWithin _ e scope q hit

theorem trigger (e : Engine) (scope : Scope) (id : Nat) : Posts s e (Traced.trigger e scope id) :=
  triggerWith (fun e scope q _ h => postWithin _ e scope q h) e scope id

theorem dispatchAsync (e : Engine) (scope : Scope) (q : QueueRef) (t : Task) :
    Posts s e (Traced.dispatchAsync e scope q t) :=
  post e scope q rfl

theorem requestDispatch (e : Engine) (scope : Scope) (c : Nat) :
    Posts s e (Traced.requestDispatch e scope c) := by
  unfold Traced.requestDispatch
  split
  · split
    · split
      · exact refl e
      · exact (dispatchAsync _ _ _ _).before (KeepsOut.modifyContext c _)
    · exact refl e
  · exact refl e

/-- A change to a waiting slot that keeps what group `s`'s caller reads. -/
theorem modifyWait {slot : Nat} {f : Wait → Wait} (hf : slot ≠ s ∨ ∀ w, (f w).tally = w.tally) :
    Posts s e (e.modifyWait slot f, []) := by
  refine ⟨Array.size_modify .., fun hl => hl, rfl, rfl, ?_⟩
  simp only [Engine.tally, Engine.modifyWait, Array.getElem?_modify]
  split
  · rename_i h
    rcases hf with hf | hf
    · exact absurd h hf
    · cases e.waits[s]? <;> simp [hf]
  · rfl

/-- A task only posts: it counts off no member and starts none. -/
theorem perform (scope : Scope) : ∀ (t : Task) (e : Engine),
    Posts s e ((Traced.perform e scope t).1.1, (Traced.perform e scope t).2)
  | .seq a b, e => by
    have ha := perform scope a e
    simp only [Traced.perform]
    split
    · rename_i e1 m hr
      rw [hr] at ha
      exact ha
    · rename_i e1 hr
      rw [hr] at ha
      exact ha.append (perform scope b e1)
  | .request c, e => requestDispatch e scope c
  | .post q t, e => dispatchAsync e scope q t
  | .register slot label fn opts, e => by
    have hr := KeepsOut.register (e := e) scope label fn opts
    show Posts s e ((e.perform scope (.register slot label fn opts)).1, [])
    simp only [Engine.perform]
    generalize e.register scope label fn opts = r at hr ⊢
    obtain ⟨o, e1⟩ := r
    refine before hr (modifyWait ?_)
    exact .inr fun _ => rfl
  | .probe _, _ | .cancel _, _ => modifyWait (.inr fun _ => rfl)
  | .closeTracker c, _ | .clearPending c, _ => of_keeps (KeepsOut.modifyContext c _)
  | .noop, e | .fail _, e | .log _ _, e | .add _ _, e => of_keeps (KeepsOut.of_eq rfl rfl)

/-- Calls made one after another from a list, each posting only, post only. -/
theorem foldl {α : Type} {F : Engine × List Event → α → Engine × List Event}
    (hF : ∀ r a, Posts s e r → Posts s e (F r a)) :
    ∀ (l : List α) (r : Engine × List Event), Posts s e r → Posts s e (l.foldl F r)
  | [], _, h => h
  | a :: l, r, h => foldl hF l (F r a) (hF r a h)

/-- The timer's due requests post their tasks. -/
theorem fireTimers (e : Engine) : Posts s e (Traced.fireTimers e) := by
  unfold Traced.fireTimers
  generalize e.timer.advance (e.clock + Engine.timerHorizon) = tj
  obtain ⟨t, jobs⟩ := tj
  refine foldl (fun r j h => ?_) jobs _ (of_keeps (KeepsOut.of_eq rfl rfl))
  obtain ⟨q, task⟩ := j
  exact (h.append (dispatchAsync r.1 Scope.outside q task)).after (KeepsOut.of_eq rfl rfl)

end Posts

/-! ## Changes that count members off as they start -/

/-- A traced change that opens no slot and counts the members of group `s` off the slot in the
order its drains start them; while no member of the group waits in the shared or the workers'
queues, none comes in there and none joins a serial queue. -/
structure Tallies (s : Nat) (e : Engine) (r : Engine × List Event) : Prop where
  size : r.1.waits.size = e.waits.size
  run : e.LanesFree s → r.1.LanesFree s ∧ joinedOf s r.2 = [] ∧
    r.1.tally s = (e.tally s).map (countRuns (startedOf s r.2))

namespace Tallies

variable {r r' : Engine × List Event}

theorem of_posts (h : Posts s e r) : Tallies s e r :=
  ⟨h.size, fun hf => ⟨h.lanes hf, h.joined, by rw [h.tally, h.started]; cases e.tally s <;> rfl⟩⟩

theorem refl (e : Engine) : Tallies s e (e, []) := of_posts (.refl e)

theorem append (h : Tallies s e r) (h' : Tallies s r.1 r') : Tallies s e (r'.1, r.2 ++ r'.2) := by
  refine ⟨h'.size.trans h.size, fun hf => ?_⟩
  obtain ⟨hf₁, hj₁, ht₁⟩ := h.run hf
  obtain ⟨hf₂, hj₂, ht₂⟩ := h'.run hf₁
  refine ⟨hf₂, by simp [hj₁, hj₂], ?_⟩
  rw [ht₂, ht₁, Option.map_map, startedOf_append]
  congr 1
  funext c
  exact (countRuns_append _ _ c).symm

theorem before {e' : Engine} (h : KeepsOut e e') (h' : Tallies s e' r) : Tallies s e r :=
  (of_posts (Posts.of_keeps h)).append h'

theorem after (h : Tallies s e r) {e' : Engine} (h' : KeepsOut r.1 e') : Tallies s e (e', r.2) := by
  simpa using h.append (of_posts (Posts.of_keeps h'))

/-- An item that is no member of the group starts: nothing more is counted. -/
theorem start_of_none (h : Tallies s e r) {q : Nat} {it : Item} (hit : it.memberOf s = none) :
    Tallies s e (r.1, .start q it :: r.2) := by
  refine ⟨h.size, fun hf => ?_⟩
  obtain ⟨hf', hj, ht⟩ := h.run hf
  exact ⟨hf', by simpa using hj, by simpa [hit] using ht⟩

end Tallies

/-- Running an item counts it off its group's slot when it is a member, after the posts of its
task; it starts nothing. -/
theorem execute_counts (e : Engine) (scope : Scope) (it : Item) (hf : e.LanesFree s) :
    (Traced.execute e scope it).1.LanesFree s ∧ joinedOf s (Traced.execute e scope it).2 = [] ∧
      startedOf s (Traced.execute e scope it).2 = [] ∧
      (Traced.execute e scope it).1.tally s = (e.tally s).map (countRuns (it.memberOf s).toList) := by
  unfold Traced.execute
  cases hj : it.job with
  | task t =>
    have h := Posts.perform (s := s) scope t e
    have hm : it.memberOf s = none := by simp [Item.memberOf, hj]
    rw [hm, Option.toList_none]
    dsimp only
    split
    · rename_i e1 m hr
      rw [hr] at h
      exact ⟨h.lanes hf, h.joined, h.started, h.tally.trans (by cases e.tally s <;> rfl)⟩
    · rename_i e1 hr
      rw [hr] at h
      exact ⟨h.lanes hf, h.joined, h.started, h.tally.trans (by cases e.tally s <;> rfl)⟩
  | member slot t =>
    have h := Posts.perform (s := s) scope t e
    have hfail : (Traced.perform e scope t).1.2 = t.failure := by
      rw [Traced.perform_fst, perform_snd]
    have ht : (Traced.perform e scope t).1.1.tally s = e.tally s := h.tally
    dsimp only
    refine ⟨h.lanes hf, h.joined, h.started, ?_⟩
    rw [← ht]
    -- the member counts off its own slot; another group's slot is not this one
    by_cases hs : slot = s
    · subst hs
      have hm : it.memberOf slot = some t := by simp [Item.memberOf, hj]
      rw [hm]
      simp only [Engine.tally, Engine.modifyWait, Array.getElem?_modify, Option.map_map]
      cases (Traced.perform e scope t).1.1.waits[slot]? with
      | none => rfl
      | some w => simp [Wait.tally, countRuns, countRun, hfail]
    · have hm : it.memberOf s = none := by simp [Item.memberOf, hj, hs]
      rw [hm, Option.toList_none]
      simp only [Engine.tally, Engine.modifyWait, Array.getElem?_modify, if_neg hs]
      cases (Traced.perform e scope t).1.1.waits[s]? <;> rfl
  | drain _ | pill _ =>
    have hm : it.memberOf s = none := by simp [Item.memberOf, hj]
    refine ⟨hf, rfl, rfl, ?_⟩
    rw [hm, Option.toList_none]
    cases e.tally s <;> rfl

/-- Running an item opens no slot. -/
theorem size_execute (e : Engine) (scope : Scope) (it : Item) :
    (Traced.execute e scope it).1.waits.size = e.waits.size := by
  unfold Traced.execute
  cases it.job with
  | task t =>
    have h := (Posts.perform (s := 0) scope t e).size
    dsimp only
    split
    · rename_i e1 m hr
      rw [hr] at h
      exact h
    · rename_i e1 hr
      rw [hr] at h
      exact h
  | member slot t => exact (Array.size_modify ..).trans (Posts.perform (s := 0) scope t e).size
  | drain _ | pill _ => rfl

namespace Tallies

/-- A drain starts an item and runs it: a member of the group is counted as it starts. -/
theorem execute_start (e : Engine) (scope : Scope) (it : Item) (q : Nat) :
    Tallies s e ((Traced.execute e scope it).1, .start q it :: (Traced.execute e scope it).2) := by
  refine ⟨size_execute e scope it, fun hf => ?_⟩
  obtain ⟨hf', hj, hst, ht⟩ := execute_counts e scope it hf
  exact ⟨hf', by simpa using hj, by simp [hst, ht]⟩

/-- Running an item that is no member of the group counts nothing. -/
theorem execute_of_none {it : Item} (hit : it.memberOf s = none) (e : Engine) (scope : Scope) :
    Tallies s e (Traced.execute e scope it) := by
  refine ⟨size_execute e scope it, fun hf => ?_⟩
  obtain ⟨hf', hj, hst, ht⟩ := execute_counts e scope it hf
  exact ⟨hf', hj, by rw [ht, hst, hit]; rfl⟩

/-- A drain's items: each is taken from the front and run, by a runner that counts. -/
theorem drainItems {run : Scope → Item → Engine → Engine × List Event}
    (hrun : ∀ scope it e, it.internal = true → Tallies s e (run scope it e)) (qscope : Scope) (id : Nat) :
    ∀ (n : Nat) (e : Engine) (done : Nat),
      Tallies s e ((Traced.drainItems run qscope id n e done).1.1,
        (Traced.drainItems run qscope id n e done).2)
  | 0, e, _ => refl e
  | n + 1, e, done => by
    unfold Traced.drainItems
    cases hs : e.serials[id]? with
    | none => exact refl e
    | some sr =>
      dsimp only
      split
      · exact refl e
      · cases hpop : sr.tasks.pop with
        | mk o rest =>
          cases o with
          | none => exact refl e
          | some it =>
            dsimp only
            have htake := KeepsOut.modifySerial (e := e) id fun s => { s with tasks := rest }
            split
            · rename_i hint
              exact (((hrun _ _ _ hint).start_of_none (Item.memberOf_of_internal hint s)).append
                (drainItems hrun qscope id n _ _)).before htake
            · -- an item of a context's queue is shown to the balancer first
              cases sr.pooled with
              | none =>
                exact ((execute_start _ _ _ _).append (drainItems hrun qscope id n _ _)).before htake
              | some c =>
                exact ((execute_start _ _ _ _).append (drainItems hrun qscope id n _ _)).before
                  (htake.trans (KeepsOut.observe c it))

theorem drainBound {run : Scope → Item → Engine → Engine × List Event}
    (hrun : ∀ scope it e, it.internal = true → Tallies s e (run scope it e)) (e : Engine) (scope : Scope)
    (id : Nat) (sr : Serial) : Tallies s e (Traced.drainBound run e scope id sr) := by
  have h0 := drainItems hrun { scope with queue := some (.serial id), pooled := sr.pooled <|> scope.pooled }
    id sr.size.toNat e 0
  unfold Traced.drainBound
  dsimp only
  generalize Traced.drainItems run { scope with queue := some (.serial id), pooled := sr.pooled <|> scope.pooled }
    id sr.size.toNat e 0 = r at h0 ⊢
  obtain ⟨⟨e1, done⟩, E⟩ := r
  have h1 : Tallies s e (e1.modifySerial id fun s => { s with size := s.size - done, triggered := false }, E) :=
    h0.after (KeepsOut.modifySerial id _)
  dsimp only
  split
  · split
    · exact h1.append (of_posts (Posts.trigger _ _ _))
    · exact h1
  · exact h1

theorem drainWith {run : Scope → Item → Engine → Engine × List Event}
    (hrun : ∀ scope it e, it.internal = true → Tallies s e (run scope it e)) (e : Engine) (scope : Scope)
    (id : Nat) : Tallies s e (Traced.drainWith run e scope id) := by
  unfold Traced.drainWith
  split
  · exact refl e
  · split
    · split
      · exact (drainBound hrun _ _ _ _).before (KeepsOut.modifySerial id _)
      · exact drainBound hrun _ _ _ _
    · exact drainBound hrun _ _ _ _

/-- An item that is no member of the group runs: the drains it runs count what they start. -/
theorem runJob : ∀ (fuel : Nat) (scope : Scope) {it : Item} (e : Engine), it.memberOf s = none →
    Tallies s e (Traced.runJob fuel scope it e)
  | 0, _, _, e, _ => refl e
  | fuel + 1, scope, it, e, hit => by
    unfold Traced.runJob
    cases it.job with
    | drain id =>
      exact drainWith (fun scope it e hint => runJob fuel scope e (Item.memberOf_of_internal hint s)) e scope id
    | pill w =>
      refine of_posts (.of_keeps ?_)
      split
      · exact KeepsOut.modifyWorker_of_lanes _ fun _ => rfl
      · exact KeepsOut.refl e
    | task _ | member _ _ => exact execute_of_none hit e scope

/-- A worker's step takes an item from the shared or its own queues, which holds no member of the
group, and runs it. -/
theorem stepWorker {w : WorkerId} {r : Engine × List Event} (h : Traced.stepWorker e w = some r) :
    Tallies s e r := by
  unfold Traced.stepWorker at h
  split at h
  · simp at h
  · rename_i scope it e1 hn
    obtain ⟨hg, hmem⟩ := nextItem_gathers hn
    have hk := KeepsOut.of_gathers hg
    -- a pool worker leaves after its stopping job, handing its items to the shared queues
    obtain ⟨e', hk', rfl⟩ : ∃ e', KeepsOut (Traced.runJob e1.nestingDepth scope it e1).1 e' ∧
        r = (e', (Traced.runJob e1.nestingDepth scope it e1).2) := by
      cases w with
      | main => exact ⟨_, KeepsOut.refl _, (Option.some.inj h).symm⟩
      | pool i =>
        dsimp only at h
        split at h
        · obtain rfl := Option.some.inj h
          split
          · exact ⟨_, KeepsOut.exitWorker i, rfl⟩
          · exact ⟨_, KeepsOut.refl _, rfl⟩
        · exact ⟨_, KeepsOut.refl _, (Option.some.inj h).symm⟩
    -- the item came from the shared or the worker's own queues, so it is no member of a group kept
    -- out of them; the slots' count is read at any group the item is no member of
    obtain ⟨s', hs'⟩ := it.exists_memberOf_none
    refine ⟨?_, fun hf => (((runJob _ scope e1 (hf it hmem)).before hk).after hk').run hf⟩
    rw [hk'.2]
    exact ((runJob (s := s') _ scope e1 hs').before hk).size

theorem runPoolFor : ∀ (k : Nat) (e : Engine), Tallies s e (Traced.runPoolFor k e)
  | 0, e => refl e
  | k + 1, e => by
    unfold Traced.runPoolFor
    split
    · rename_i r hr
      obtain ⟨i, -, hi⟩ := List.exists_of_findSome?_eq_some hr
      exact (stepWorker hi).append (runPoolFor k r.1)
    · exact refl e

/-- The pool runs until idle, counting off the members its drains start. -/
theorem runPool (e : Engine) : Tallies s e (Traced.runPool e) :=
  (of_posts (Posts.fireTimers e)).append (runPoolFor _ _)

theorem runBothFor : ∀ (k : Nat) (e : Engine), Tallies s e (Traced.runBothFor k e)
  | 0, e => refl e
  | k + 1, e => by
    unfold Traced.runBothFor
    split
    · rename_i r hr
      exact (stepWorker hr).append (runBothFor k r.1)
    · split
      · rename_i r hr
        obtain ⟨i, -, hi⟩ := List.exists_of_findSome?_eq_some hr
        exact (stepWorker hi).append (runBothFor k r.1)
      · exact refl e

/-- Stopping hands every worker a stopping job, which is no member, and runs the pool. -/
theorem stopAll (e : Engine) : Tallies s e (Traced.stopAll e) := by
  have hpills : ∀ (l : List Nat) (e1 : Engine), Posts s e1 (l.foldl (fun e i =>
      e.pushThread Scope.outside (.pool i) .low ⟨.pill i, none, none⟩) e1, []) := by
    intro l
    induction l with
    | nil => intro e1; exact .refl e1
    | cons i l ih =>
      intro e1
      simpa using (Posts.pushThread Scope.outside (.pool i) .low rfl).append (ih _)
  have hk : KeepsOut e { e with shutdown := true } := .of_eq rfl rfl
  have h1 := ((of_posts (hpills (List.range e.workers.size) _)).append (runPool _)).before hk
  refine h1.after ?_
  rw [Traced.runPool_fst]
  exact KeepsOut.of_halt _ _ _

theorem startWorkers : ∀ (e : Engine) (i n : Nat), Tallies s e (Traced.startWorkers e i n)
  | e, _, 0 => refl e
  | e, i, n + 1 => by
    unfold Traced.startWorkers
    dsimp only
    -- a new worker holds nothing; one that fails to start makes the engine stop
    have hk : KeepsOut e { e with workers := e.workers.push (Worker.create (e.workerName (.pool i))) } :=
      KeepsOut.pushWorker _
    split
    · refine (stopAll _).before (hk.trans (.modifyWorker_of_lanes _ fun _ => ?_))
      rfl
    · refine (startWorkers _ (i + 1) n).before (hk.trans (.of_eq ?_ ?_)) <;> rfl

theorem start (e : Engine) : Tallies s e (Traced.start e) := by
  unfold Traced.start
  split
  · exact refl e
  · split
    · exact refl e
    · refine (startWorkers _ 0 _).before (.of_eq ?_ ?_) <;> rfl

theorem stop (e : Engine) : Tallies s e (Traced.stop e) := by
  unfold Traced.stop
  split
  · exact refl e
  · exact stopAll e

theorem dispatchMain (e : Engine) : Tallies s e (Traced.dispatchMain e) := by
  unfold Traced.dispatchMain
  split
  · exact refl e
  · exact (of_posts (Posts.fireTimers e)).append (runBothFor _ _)

end Tallies

/-! ## The members of a group join their serial queue in order -/

/-- Posting an item to a serial queue the engine has: the item joins that queue, and only drains
join other queues. -/
theorem post_serial {id : Nat} (hid : id < e.serials.size) (scope : Scope) (it : Item) :
    (e.LanesFree s → (Traced.post e scope (.serial id) it).1.LanesFree s) ∧
      startedOf s (Traced.post e scope (.serial id) it).2 = [] ∧
      (Traced.post e scope (.serial id) it).1.tally s = e.tally s ∧
      ∀ q, members s (enqueuedOn q (Traced.post e scope (.serial id) it).2) =
        if id = q then (it.memberOf s).toList else [] := by
  simp only [Traced.post, Traced.postWithin, Array.getElem?_eq_getElem hid]
  -- the queue may first move to the calling worker; the item keeps its job either way
  have hf : KeepsOut e (if e.serials[id].options.stickToCaller then e.followCaller scope id else e) := by
    split
    · exact KeepsOut.followCaller scope id
    · exact KeepsOut.refl e
  have hit : (if e.serials[id].pooled.isSome && !it.internal then
      { it with caller := scope.poolWorker, callerCtx := scope.pooled } else it).memberOf s = it.memberOf s := by
    split <;> rfl
  generalize (if e.serials[id].options.stickToCaller then e.followCaller scope id else e) = e1 at hf ⊢
  generalize (if e.serials[id].pooled.isSome && !it.internal then
      { it with caller := scope.poolWorker, callerCtx := scope.pooled } else it) = it' at hit ⊢
  have hk := hf.trans (KeepsOut.modifySerial (e := e1) id
    fun s => { s with tasks := s.tasks.push it', size := s.size + 1 })
  generalize e1.modifySerial id (fun s => { s with tasks := s.tasks.push it', size := s.size + 1 }) = e2 at hk ⊢
  split
  · -- a drain of the queue follows the item, along the chain of targets
    have ht : Posts s e2 (Traced.triggerWith (Traced.postWithin e.serials.size) e2 scope id) :=
      Posts.triggerWith (fun e' scope q _ h => Posts.postWithin e.serials.size e' scope q h) e2 scope id
    refine ⟨fun hl => ht.lanes (hk.lanesFree hl), by simpa using ht.started, ht.tally.trans hk.tally,
      fun q => ?_⟩
    have hq := members_enqueuedOn_of_joinedOf ht.joined q
    by_cases h : id = q
    · subst h
      simp [hit, hq]
    · simp [h, hq]
  · refine ⟨hk.lanesFree, rfl, hk.tally, fun q => ?_⟩
    by_cases h : id = q <;> simp [h, hit]

/-- Posting items to a serial queue one after the other: they join that queue in order, and the
slot's tally stays. -/
theorem post_serial_foldl {id : Nat} (scope : Scope) (item : Nat → Item) :
    ∀ (l : List Nat) (r : Engine × List Event), id < r.1.serials.size →
      let r' := l.foldl (fun r i => ((Traced.post r.1 scope (.serial id) (item i)).1,
        r.2 ++ (Traced.post r.1 scope (.serial id) (item i)).2)) r
      (r.1.LanesFree s → r'.1.LanesFree s) ∧ startedOf s r'.2 = startedOf s r.2 ∧
        r'.1.tally s = r.1.tally s ∧ ∀ q, members s (enqueuedOn q r'.2) =
          members s (enqueuedOn q r.2) ++ if id = q then l.flatMap fun i => ((item i).memberOf s).toList else []
  | [], r, _ => ⟨fun h => h, rfl, rfl, fun q => by split <;> simp⟩
  | i :: l, r, hid => by
    obtain ⟨hl, hst, ht, hq⟩ := post_serial (s := s) hid scope (item i)
    have hid' : id < (Traced.post r.1 scope (.serial id) (item i)).1.serials.size := by
      rw [Traced.post_fst]
      exact (size_postWithin _ r.1 scope _ _).symm ▸ hid
    obtain ⟨hl', hst', ht', hq'⟩ := post_serial_foldl scope item l
      ((Traced.post r.1 scope (.serial id) (item i)).1, r.2 ++ (Traced.post r.1 scope (.serial id) (item i)).2) hid'
    refine ⟨fun h => hl' (hl h), by rw [List.foldl_cons, hst', startedOf_append, hst, List.append_nil],
      by rw [List.foldl_cons, ht', ht], fun q => ?_⟩
    rw [List.foldl_cons, hq', enqueuedOn_append, members_append, hq q]
    by_cases h : id = q <;> simp [h]

/-! ## A group on a serial queue -/

/-- An engine that holds no member of group `s` holds none outside the serial queues. -/
theorem lanesFree_of_queued (h : ∀ it ∈ e.queued, it.memberOf s = none) : e.LanesFree s :=
  fun it hit => h it (by rw [queued_eq_laneItems]; exact List.mem_append_left _ hit)

/-- An engine that holds no member of group `s` holds none in any serial queue. -/
theorem members_waiting_of_queued (h : ∀ it ∈ e.queued, it.memberOf s = none) (q : Nat) :
    members s (e.waiting q) = [] := by
  rw [members, List.filterMap_eq_nil_iff]
  intro it hit
  apply h
  unfold waiting at hit
  cases hs : e.serials[q]? with
  | none => simp [hs] at hit
  | some sr =>
    rw [hs] at hit
    rw [queued_eq_laneItems]
    exact List.mem_append_right _
      (List.mem_flatMap.mpr ⟨sr, Array.mem_toList_iff.mpr (Array.mem_of_getElem? hs), hit⟩)

/-- Read through a group: the members that waited and joined are those that started and wait. -/
theorem members_of_conserves {r : Engine × List Event} (h : Conserves e r) (q : Nat) :
    members s (e.waiting q) ++ members s (enqueuedOn q r.2) =
      members s (startedOn q r.2) ++ members s (r.1.waiting q) := by
  simpa using congrArg (Dispatch.members s) (h q)

/-- Once the engine takes work, the caller's answer is what the slot says after the pool has run. -/
theorem runGroup_fst_of_accepting (scope : Scope) (q : QueueRef) (n : Nat) (task : Nat → Nat → Task)
    (hacc : e.accepting = .ok ()) :
    (e.runGroup scope q n task).1 =
      (((List.range n).foldl
        (fun (e' : Engine) i => e'.post scope q ⟨.member e.waits.size (task e.waits.size i), none, none⟩)
        { e with waits := e.waits.push (Wait.create n) }).runPool.waitOutcome e.waits.size).map
        fun _ => e.waits.size := by
  unfold Engine.runGroup
  rw [hacc]
  simp only [Engine.openWait]
  cases ((List.range n).foldl
    (fun (e' : Engine) i => e'.post scope q ⟨.member e.waits.size (task e.waits.size i), none, none⟩)
    { e with waits := e.waits.push (Wait.create n) }).runPool.waitOutcome e.waits.size <;> rfl

/-- The caller's answer read off its slot: unless the caller is interrupted, no member is left to
run and the answer is the failure the slot kept. -/
theorem waitOutcome_of_tally {m : Nat} {f : Option String} (h : e.tally s = some (m, f))
    (hne : e.waitOutcome s ≠ .error .interrupted) :
    m = 0 ∧ e.waitOutcome s = f.elim (.ok ()) fun v => .error (.panicked v) := by
  obtain ⟨w, hws, hwt⟩ := Option.map_eq_some_iff.mp h
  simp only [Wait.tally, Prod.mk.injEq] at hwt
  unfold waitOutcome at hne ⊢
  rw [hws] at hne ⊢
  dsimp only at hne ⊢
  by_cases h0 : w.remaining = 0
  · refine ⟨hwt.1 ▸ h0, ?_⟩
    rw [if_pos (by simp [h0]), hwt.2]
    cases f <;> rfl
  · rw [if_neg (by simp [h0])] at hne
    exact absurd rfl hne

/-- A group posted to a serial queue from an engine that takes work and holds no member of the
new slot's group: the members join that queue in order and no other queue, they start in that
order, each once, and a caller answered without interruption has seen all of them run and gets the
failure of the first one that failed. -/
theorem runGroup_serial (scope : Scope) {id : Nat} (n : Nat) (task : Nat → Nat → Task)
    (hacc : e.accepting = .ok ()) (hid : id < e.serials.size)
    (hfresh : ∀ it ∈ e.queued, it.memberOf e.waits.size = none) :
    let s := e.waits.size
    let ts := (List.range n).map (task s)
    let E := (Traced.runGroup e scope (.serial id) n task).2
    (∀ q, members s (enqueuedOn q E) = if q = id then ts else []) ∧ startedOf s E <+: ts ∧
      ((e.runGroup scope (.serial id) n task).1 ≠ .error .interrupted →
        startedOf s E = ts ∧ (e.runGroup scope (.serial id) n task).1 =
          (ts.findSome? Task.failure).elim (.ok s) fun v => .error (.panicked v)) := by
  intro s ts E
  -- the slot opens for `n` members, in an engine that holds none of them
  let e₁ : Engine := { e with waits := e.waits.push (Wait.create n) }
  have ht₁ : e₁.tally s = some (n, none) := by simp [e₁, s, Engine.tally, Wait.tally, Wait.create]
  have hf₁ : e₁.LanesFree s := lanesFree_of_queued hfresh
  have hw₁ : ∀ q, members s (e₁.waiting q) = [] := members_waiting_of_queued hfresh
  -- the members are posted one after the other
  let item : Nat → Item := fun i => ⟨.member s (task s i), none, none⟩
  let rP := (List.range n).foldl (fun r i => ((Traced.post r.1 scope (.serial id) (item i)).1,
    r.2 ++ (Traced.post r.1 scope (.serial id) (item i)).2)) (e₁, [])
  obtain ⟨hfP, hstP, htP, hqP⟩ := post_serial_foldl (s := s) scope item (List.range n) (e₁, []) hid
  have hts : (List.range n).flatMap (fun i => ((item i).memberOf s).toList) = ts := by
    simp only [item, ts, Item.memberOf]
    exact List.map_eq_flatMap.symm
  have hcP : Conserves e₁ rP :=
    Conserves.foldl (fun r _ h => h.append (Conserves.post r.1 scope _ _)) _ _ (Conserves.of_waiting rfl)
  have hwP : ∀ q, members s (rP.1.waiting q) = if id = q then ts else [] := by
    intro q
    have h := members_of_conserves (s := s) hcP q
    rw [hw₁, hqP q, members_startedOn_of_startedOf hstP q, hts] at h
    simpa using h.symm
  -- the pool runs, counting off the members its drains start
  let rR := Traced.runPool rP.1
  obtain ⟨-, hjR, htR⟩ := (Tallies.runPool (s := s) rP.1).run (hfP hf₁)
  have hcR := Conserves.runPool rP.1
  have hsplit : ∀ q, (if id = q then ts else []) =
      members s (startedOn q rR.2) ++ members s (rR.1.waiting q) := by
    intro q
    have h := members_of_conserves (s := s) hcR q
    rw [hwP q, members_enqueuedOn_of_joinedOf hjR q, List.append_nil] at h
    exact h
  have hS : startedOf s rR.2 = members s (startedOn id rR.2) := by
    refine startedOf_eq_of_others fun q hq => ?_
    have h := hsplit q
    rw [if_neg (Ne.symm hq)] at h
    exact (List.append_eq_nil_iff.mp h.symm).1
  have hts' : ts = members s (startedOn id rR.2) ++ members s (rR.1.waiting id) := by
    simpa using hsplit id
  have hE : E = rP.2 ++ rR.2 := by
    simp only [E, Traced.runGroup, hacc]
    rfl
  have hstE : startedOf s E = members s (startedOn id rR.2) := by
    rw [hE, startedOf_append, hstP, hS]
    rfl
  have hpre : startedOf s E <+: ts := by
    rw [hstE, hts']
    exact List.prefix_append _ _
  refine ⟨fun q => ?_, hpre, fun hne => ?_⟩
  · rw [hE, enqueuedOn_append, members_append, hqP q, hts, members_enqueuedOn_of_joinedOf hjR q]
    by_cases h : q = id
    · subst h; simp
    · simp [h, Ne.symm h]
  · -- the caller's answer is read off the slot once the pool is idle
    have hR : rR.1 = ((List.range n).foldl (fun e i => e.post scope (.serial id) (item i)) e₁).runPool := by
      rw [Traced.runPool_fst, Traced.foldl_post_fst]
    have hout := runGroup_fst_of_accepting scope (.serial id) n task hacc
    rw [← hR] at hout
    have hw : rR.1.tally s =
        some (n - (startedOf s rR.2).length, (startedOf s rR.2).findSome? Task.failure) := by
      rw [htR, htP, ht₁, Option.map_some, countRuns_eq]
      rfl
    have hSE : startedOf s E = startedOf s rR.2 := by rw [hstE, hS]
    rw [hout] at hne ⊢
    obtain ⟨h0, hval⟩ := waitOutcome_of_tally hw fun h => hne (by rw [h]; rfl)
    -- no member is left: the started ones are all of them
    have hlen : (startedOf s E).length = ts.length := by
      have := hpre.length_le
      rw [hSE] at this ⊢
      simp only [ts, List.length_map, List.length_range] at this ⊢
      omega
    have hall := hpre.eq_of_length hlen
    refine ⟨hall, ?_⟩
    rw [hval, ← hSE, hall]
    cases ts.findSome? Task.failure <;> rfl

/-! ## No member of a slot waits before the slot is opened -/

namespace Posts

theorem resume (e : Engine) (id : Nat) : Posts s e (Traced.resume e id) := by
  unfold Traced.resume
  split
  · exact refl e
  · dsimp only
    split
    · exact refl e
    · split
      · exact (trigger _ _ _).before (.modifySerial id _)
      · exact of_keeps (.modifySerial id _)

theorem release (e : Engine) (id : Nat) : Posts s e (Traced.release e id) := by
  unfold Traced.release
  split
  · exact refl e
  · dsimp only
    split
    · exact of_keeps (.modifySerial id _)
    · split
      · exact of_keeps (.modifySerial id _)
      · -- the last hold is dropped: the disposer, a plain task, is posted to the queue
        split
        · exact (dispatchAsync _ _ _ _).before ((KeepsOut.modifySerial id _).trans (.modifySerial id _))
        · exact of_keeps ((KeepsOut.modifySerial id _).trans (.modifySerial id _))

theorem closeContext (e : Engine) (c : Nat) : Posts s e (Traced.closeContext e c) := by
  unfold Traced.closeContext
  split
  · exact refl e
  · dsimp only
    split
    · exact refl e
    · exact (release _ _).before ((KeepsOut.modifyContext c _).trans (.modifySerial _ _))

theorem schedule (e : Engine) (scope : Scope) (task : Task) (delay : Int) :
    Posts s e (Traced.schedule e scope task delay) := by
  have hc := KeepsOut.chooseWorker (e := e) scope
  unfold Traced.schedule
  generalize e.chooseWorker scope = r at hc
  obtain ⟨w, e1⟩ := r
  cases w with
  | error f => exact of_keeps hc
  | ok w =>
    dsimp only
    split
    · exact (dispatchAsync _ _ _ _).before hc
    · split
      · refine of_keeps (hc.trans (.of_eq ?_ ?_)) <;> rfl
      · exact of_keeps hc

end Posts

/-- A call opens slots only at the end of the slot array, and a slot it leaves unopened gets no
member of its group in the shared or the workers' queues, nor in a serial queue. -/
structure Opens (e : Engine) (E : List Event) (e' : Engine) : Prop where
  le : e.waits.size ≤ e'.waits.size
  fresh : ∀ s, e'.waits.size ≤ s → e.LanesFree s → e'.LanesFree s ∧ joinedOf s E = []

namespace Opens

theorem of_tallies {e' : Engine} {E : List Event} (h : ∀ s, Tallies s e (e', E)) : Opens e E e' :=
  ⟨Nat.le_of_eq (h 0).size.symm, fun s _ hf => ⟨((h s).run hf).1, ((h s).run hf).2.1⟩⟩

theorem of_posts {e' : Engine} {E : List Event} (h : ∀ s, Posts s e (e', E)) : Opens e E e' :=
  of_tallies fun s => .of_posts (h s)

theorem of_keeps {e' : Engine} (h : KeepsOut e e') : Opens e [] e' :=
  of_posts fun _ => .of_keeps h

/-- A call that opens one slot first and then counts off members: the slots after it are kept out
of every queue when they are kept out of the queues the call starts from. -/
theorem of_open {e' : Engine} {E : List Event} (e₁ : Engine) (hl : e₁.laneItems = e.laneItems)
    (hsize : e₁.waits.size = e.waits.size + 1) (h : ∀ s, s ≠ e.waits.size → Tallies s e₁ (e', E)) :
    Opens e E e' := by
  have hs' : e'.waits.size = e.waits.size + 1 := ((h (e.waits.size + 1) (by omega)).size).trans hsize
  refine ⟨by omega, fun s hs hf => ?_⟩
  have hf₁ : e₁.LanesFree s := fun it hit => hf it (hl ▸ hit)
  exact ⟨((h s (by omega)).run hf₁).1, ((h s (by omega)).run hf₁).2.1⟩

theorem openWait (e : Engine) (k : Nat) : Opens e [] (e.openWait k).2 :=
  of_open (e.openWait k).2 rfl (by simp [Engine.openWait]) fun _ _ => .refl _

/-- A group opens its slot and posts its members there; a later slot only sees the pool run. -/
theorem runGroup (e : Engine) (scope : Scope) (q : QueueRef) (n : Nat) (task : Nat → Nat → Task) :
    Opens e (Traced.runGroup e scope q n task).2 (Traced.runGroup e scope q n task).1 := by
  unfold Traced.runGroup
  split
  · exact of_keeps (.refl e)
  · simp only [Engine.openWait]
    refine of_open { e with waits := e.waits.push (Wait.create n) } rfl (by simp) fun s hs => ?_
    have hit : ∀ i,
        (⟨.member e.waits.size (task e.waits.size i), none, none⟩ : Item).memberOf s = none := by
      intro i
      simp [Item.memberOf, Ne.symm hs]
    exact (Tallies.of_posts (Posts.foldl (fun r i h => h.append (Posts.post r.1 scope q (hit i))) _ _
      (.refl _))).append (Tallies.runPool _)

end Opens

end Engine

/-- Every call opens slots only at the end, and keeps the members of unopened slots out. -/
theorem Traced.Call.opens {e e' : Engine} {E : List Event} (c : Traced.Call e E e') :
    Engine.Opens e E e' := by
  cases c with
  | dispatchAsync scope q t => exact .of_posts fun _ => .dispatchAsync e scope q t
  | step w h => exact .of_tallies fun _ => .stepWorker h
  | suspend id => exact .of_keeps (.modifySerial id _)
  | resume id => exact .of_posts fun _ => .resume e id
  | retain id => exact .of_keeps (.retain id)
  | release id => exact .of_posts fun _ => .release e id
  | setDisposer id t => exact .of_keeps (.modifySerial id _)
  | setTarget id onto _ => exact .of_keeps (.setTarget id onto)
  | assignTo c w => exact .of_keeps (.assignTo c w)
  | createSerial label prio options => exact .of_keeps (.of_eq rfl rfl)
  | createPartitioned label k options => exact .of_keeps (.createPartitioned label k options)
  | register scope label fn options => exact .of_keeps (.register scope label fn options)
  | requestDispatch scope c => exact .of_posts fun _ => .requestDispatch e scope c
  | closeContext c => exact .of_posts fun _ => .closeContext e c
  | start => exact .of_tallies fun _ => .start e
  | stop => exact .of_tallies fun _ => .stop e
  | runGroup scope q k task => exact .runGroup e scope q k task
  | dispatchAfter q t delay => exact .of_keeps (.dispatchAfter q t delay)
  | schedule scope t delay => exact .of_posts fun _ => .schedule e scope t delay
  | runPool => exact .of_tallies fun _ => .runPool e
  | dispatchMain => exact .of_tallies fun _ => .dispatchMain e
  | newCell => exact .of_keeps (.of_eq rfl rfl)
  | openWait k => exact .openWait e k

namespace Engine

variable {e : Engine} {s : Nat}

/-- No item waiting anywhere in the engine is a member of a group whose slot is not open yet. -/
def SlotsFresh (e : Engine) : Prop := ∀ s, e.waits.size ≤ s → ∀ it ∈ e.queued, it.memberOf s = none

/-- What waits in the engine is what waits outside the serial queues and what waits in them. -/
theorem memberOf_of_parts (hl : e.LanesFree s) (hw : ∀ q, members s (e.waiting q) = []) :
    ∀ it ∈ e.queued, it.memberOf s = none := by
  intro it hit
  rw [queued_eq_laneItems, List.mem_append] at hit
  rcases hit with hit | hit
  · exact hl it hit
  · obtain ⟨sr, hsr, hit⟩ := List.mem_flatMap.mp hit
    obtain ⟨q, hq⟩ := Array.mem_iff_getElem?.mp (Array.mem_toList_iff.mp hsr)
    have hnil := hw q
    rw [waiting_self hq, members, List.filterMap_eq_nil_iff] at hnil
    exact hnil it hit

/-- A call keeps every unopened slot's members out: none came in outside the serial queues, and a
member waiting in a serial queue after the call waited there before it or joined during it. -/
theorem SlotsFresh.call {e e' : Engine} {E : List Event} (h : e.SlotsFresh) (c : Traced.Call e E e') :
    e'.SlotsFresh := by
  intro s hs
  have ho := c.opens
  have hs₀ : e.waits.size ≤ s := Nat.le_trans ho.le hs
  have hfresh := ho.fresh s hs (lanesFree_of_queued (h s hs₀))
  refine memberOf_of_parts hfresh.1 fun q => ?_
  have hq : members s (e.waiting q) ++ members s (enqueuedOn q E) =
      members s (startedOn q E) ++ members s (e'.waiting q) := members_of_conserves c.conserves q
  rw [members_waiting_of_queued (h s hs₀), members_enqueuedOn_of_joinedOf hfresh.2, List.append_nil,
    eq_comm, List.append_eq_nil_iff] at hq
  exact hq.2

/-- A new engine holds no item. -/
theorem slotsFresh_of_create {st : Settings} {cpus : Nat} {b : Balancer Nat} {failAt : Option Nat}
    {tag : String} {clock : Int} (h : Engine.create st cpus b failAt tag clock = .ok e) : e.SlotsFresh := by
  unfold Engine.create at h
  cases hv : st.validate with
  | error f => simp [hv] at h
  | ok u =>
    simp only [hv] at h
    obtain rfl := Except.ok.inj h
    intro s _ it hit
    cases (show it ∈ ([] : List Item) from hit)

theorem History.slotsFresh {E : List Event} (h : History e E) : e.SlotsFresh := by
  induction h with
  | create _ _ _ _ _ _ hc => exact slotsFresh_of_create hc
  | call _ c ih => exact ih.call c

/-- In every engine the calls can reach, no member of an unopened slot waits anywhere. -/
theorem Reachable.slotsFresh (h : e.Reachable) : e.SlotsFresh := by
  obtain ⟨E, hE⟩ := h.history
  exact hE.slotsFresh

/-- A group of `n` tasks posted to a serial queue of any engine the calls can reach: the members
join that queue in order and no other, they start in that order, each once, and a caller answered
without interruption has seen every member run and gets the failure of the first member that
failed. A group asked for without a task, or of no members, is answered before the engine is asked,
whatever its state, and changes nothing. -/
theorem group_runs_in_order :
    (∀ (e : Engine) (scope : Scope) (id n : Nat) (task : Nat → Nat → Task),
      e.Reachable → e.accepting = .ok () → id < e.serials.size →
      let s := e.waits.size
      let ts := (List.range n).map (task s)
      let E := (Traced.runGroup e scope (.serial id) n task).2
      (∀ q, members s (enqueuedOn q E) = if q = id then ts else []) ∧ startedOf s E <+: ts ∧
        ((e.runGroup scope (.serial id) n task).1 ≠ .error .interrupted →
          startedOf s E = ts ∧ (e.runGroup scope (.serial id) n task).1 =
            (ts.findSome? Task.failure).elim (.ok s) fun v => .error (.panicked v))) ∧
    ∀ (ss : Session) (q : String) (r : QueueRef) (n : Int) (tag : String) (failAt : List Nat),
      ss.queue q = .ok r →
      ss.apply (.apply q n tag failAt true) = (.error (.fault .nilTask), ss) ∧
        (n ≤ 0 → ss.apply (.apply q n tag failAt false) = (.ok .none, ss)) := by
  refine ⟨fun _ scope _ n task hr hacc hid =>
    runGroup_serial scope n task hacc hid (hr.slotsFresh _ (Nat.le_refl _)), ?_⟩
  intro ss q r n tag failAt hq
  -- both answers come before the engine is consulted
  refine ⟨by simp [Session.apply, Session.given, hq], fun hn => ?_⟩
  simp [Session.apply, Session.given, hq, hn]

/-- Two members, the first of which fails, on a new queue of a started engine with one worker;
and a group asked for on the main queue without a task, or with none of its members. -/
theorem group_of_two_members :
    ∃ e : Engine, e.Reachable ∧ e.accepting = .ok () ∧ 1 < e.serials.size ∧
      (let task : Nat → Nat → Task := fun _ i => if i = 0 then .fail "first" else .noop
      let s := e.waits.size
      let ts := (List.range 2).map (task s)
      let E := (Traced.runGroup e Scope.outside (.serial 1) 2 task).2
      (∀ q, members s (enqueuedOn q E) = if q = 1 then ts else []) ∧ startedOf s E <+: ts ∧
        ((e.runGroup Scope.outside (.serial 1) 2 task).1 ≠ .error .interrupted →
          startedOf s E = ts ∧ (e.runGroup Scope.outside (.serial 1) 2 task).1 =
            (ts.findSome? Task.failure).elim (.ok s) fun v => .error (.panicked v))) ∧
      (Session.create e).queue "main" = .ok (.serial 0) ∧
      (Session.create e).apply (.apply "main" 2 "t" [0] true) = (.error (.fault .nilTask), Session.create e) ∧
      (Session.create e).apply (.apply "main" 0 "t" [0] false) = (.ok .none, Session.create e) := by
  let e0 : Engine := {
    label := "d", threads := 1, failAt := none, uniqueTag := "t"
    global := PerPriority.uniform Linked.empty, main := Worker.create "d-main", mainQueue := 0
    workers := #[], live := [], next := 0
    serials := #[Serial.create "d-main" .normal (.thread .main .normal) {} none], contexts := #[]
    started := false, shutdown := false, counters := ⟨0, 0, 0, 0, 0⟩, balancer := Balancer.inert
    timer := Timer.fresh, clock := 0, waits := #[], journal := #[], cells := #[] }
  have hc : Engine.create ⟨"d", 1, 0, 0⟩ 1 Balancer.inert none "t" 0 = .ok e0 := rfl
  -- start it, then make a queue that drains on the shared queue
  let e := (e0.start.2.createSerial "g" .normal {}).2
  have hr : e.Reachable := .call (.call (.create _ _ _ _ _ _ hc) (.start e0)) (.createSerial _ "g" .normal {})
  have hacc : e.accepting = .ok () := rfl
  have hid : 1 < e.serials.size := by decide
  have hq : (Session.create e).queue "main" = .ok (.serial 0) := rfl
  have hs := group_runs_in_order.2 (Session.create e) "main" (.serial 0) 0 "t" [0] hq
  exact ⟨e, hr, hacc, hid,
    group_runs_in_order.1 e Scope.outside 1 2 (fun _ i => if i = 0 then .fail "first" else .noop) hr hacc hid,
    hq, (group_runs_in_order.2 (Session.create e) "main" (.serial 0) 2 "t" [0] hq).1,
    hs.2 (Int.le_refl 0)⟩

end Engine

end Courier.Dispatch
