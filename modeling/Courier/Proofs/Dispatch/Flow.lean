import Courier.Proofs.Dispatch.Stepping

/-!
# Every item is accounted for

An item enters the engine's queues when it is posted: by a caller, by a task, by the timer, or by
the engine itself (the drain of a serial queue, the stopping job of a worker). It leaves when a
worker takes it to run it: from the worker's own queue, from a shared queue, or, inside a drain,
from a serial queue's task list. In between items only move: a post to a worker that has left
goes to the shared queue of its priority, and a worker that leaves hands what is left in its own
queues to the shared queues.

A `Flow` records the two edges, and `Accounted e F e'` says that a change from `e` to `e'` with
flow `F` loses and repeats nothing: the items waiting before, followed by those posted, are the
items taken, followed by those waiting after, up to order.

- `Accounted.append`, `Accounted.before`, `Accounted.after`: changes one after another;
- `Accounted.pushGlobal`, `Accounted.pushThread`, `Accounted.enqueue`: an item is posted;
- `Accounted.take`, `Accounted.nextItem`: an item is taken to run;
- `Accounted.handOver`, `Accounted.exitWorker`: a worker leaves and its items move;
- `Engine.postWithin_thread_of_terminated`, `Engine.exitWorker_global`,
  `Engine.exitWorker_worker`: where the moved items go.
-/

set_option autoImplicit false

namespace Courier.Dispatch

open Courier.Queue

/-- What happens at the edge of the engine's queues: an item is posted into a queue, or a worker
takes one out of a queue to run it. -/
inductive Flow where
  | post (it : Item)
  | run (it : Item)

namespace Flow

/-- The items posted, in order. -/
def posted (F : List Flow) : List Item :=
  F.filterMap fun
    | .post it => some it
    | .run _ => none

/-- The items taken to run, in order. -/
def ran (F : List Flow) : List Item :=
  F.filterMap fun
    | .run it => some it
    | .post _ => none

@[simp] theorem posted_nil : posted [] = [] := rfl

@[simp] theorem ran_nil : ran [] = [] := rfl

@[simp] theorem posted_cons_post (it : Item) (F : List Flow) :
    posted (.post it :: F) = it :: posted F := rfl

@[simp] theorem posted_cons_run (it : Item) (F : List Flow) : posted (.run it :: F) = posted F := rfl

@[simp] theorem ran_cons_post (it : Item) (F : List Flow) : ran (.post it :: F) = ran F := rfl

@[simp] theorem ran_cons_run (it : Item) (F : List Flow) : ran (.run it :: F) = it :: ran F := rfl

@[simp] theorem posted_append (F G : List Flow) : posted (F ++ G) = posted F ++ posted G :=
  List.filterMap_append

@[simp] theorem ran_append (F G : List Flow) : ran (F ++ G) = ran F ++ ran G :=
  List.filterMap_append

end Flow

/-- A change from `e` to `e'` with flow `F` keeps every item: the items waiting in `e`, followed
by those posted, are the items taken to run, followed by those waiting in `e'`, up to order. It
also keeps the shape of the workers' own queues, on which posting to them relies. -/
def Accounted (e : Engine) (F : List Flow) (e' : Engine) : Prop :=
  e.LanesWF → e'.LanesWF ∧ (e.queued ++ Flow.posted F).Perm (Flow.ran F ++ e'.queued)

/-! ## Changes one after another -/

namespace Accounted

variable {e e₁ e₂ : Engine} {F G : List Flow}

theorem refl (e : Engine) : Accounted e [] e := fun hl => ⟨hl, by simp⟩

open List in
theorem append (h : Accounted e F e₁) (h' : Accounted e₁ G e₂) : Accounted e (F ++ G) e₂ := by
  intro hl
  obtain ⟨hl₁, hp⟩ := h hl
  obtain ⟨hl₂, hp'⟩ := h' hl₁
  refine ⟨hl₂, ?_⟩
  calc e.queued ++ Flow.posted (F ++ G)
      = (e.queued ++ Flow.posted F) ++ Flow.posted G := by simp
    _ ~ (Flow.ran F ++ e₁.queued) ++ Flow.posted G := hp.append_right _
    _ = Flow.ran F ++ (e₁.queued ++ Flow.posted G) := by simp
    _ ~ Flow.ran F ++ (Flow.ran G ++ e₂.queued) := hp'.append_left _
    _ = Flow.ran (F ++ G) ++ e₂.queued := by simp

/-- A change that moves nothing, before a change with a flow. -/
theorem before (h : Accounted e [] e₁) (h' : Accounted e₁ F e₂) : Accounted e F e₂ :=
  h.append h'

/-- A change that moves nothing, after a change with a flow. -/
theorem after (h : Accounted e F e₁) (h' : Accounted e₁ [] e₂) : Accounted e F e₂ := by
  simpa using h.append h'

/-! ## Moves within the queues -/

/-- Items that only move between the queues, the workers' queues keeping their shape. -/
theorem of_perm (hq : e₁.queued.Perm e.queued) (hl : e.LanesWF → e₁.LanesWF) :
    Accounted e [] e₁ :=
  fun h => ⟨hl h, by simpa using hq.symm⟩

/-- A change that leaves every item where it is, and the workers as they are. -/
theorem of_queued (hq : e₁.queued = e.queued) (hm : e₁.main = e.main)
    (hw : e₁.workers = e.workers) : Accounted e [] e₁ :=
  of_perm (.of_eq hq) fun hl w wk hw' => hl w wk (by cases w <;> simp_all [Engine.worker?])

/-- A change to a serial queue that keeps its task list. -/
theorem modifySerial_of_tasks (e : Engine) (id : Nat) {f : Serial → Serial}
    (hf : ∀ s, (f s).tasks = s.tasks) : Accounted e [] (e.modifySerial id f) :=
  of_queued (e.queued_modifySerial_of_tasks id f hf) rfl rfl

/-- A change to a worker that keeps its own queues. -/
theorem modifyWorker_of_lanes (e : Engine) (w : WorkerId) {f : Worker → Worker}
    (hf : ∀ wk, (f wk).lanes = wk.lanes) : Accounted e [] (e.modifyWorker w f) := by
  refine of_perm (.of_eq (e.queued_modifyWorker_of_lanes w f hf)) fun hl w' wk' hw' => ?_
  rw [Engine.worker?_modifyWorker] at hw'
  split at hw'
  · obtain ⟨wk, hw, rfl⟩ := Option.map_eq_some_iff.mp hw'
    intro p
    rw [hf]
    exact hl _ wk hw p
  · exact hl w' wk' hw'

/-- A new serial queue with nothing to do. -/
theorem of_pushSerial {s : Serial} (hg : e₁.global = e.global) (hm : e₁.main = e.main)
    (hw : e₁.workers = e.workers) (hs : e₁.serials = e.serials.push s)
    (ht : s.tasks.toList = []) : Accounted e [] e₁ :=
  of_queued (by simp [Engine.queued, hg, hm, hw, hs, ht]) hm hw

/-! ## Posting and taking -/

/-- An item joins the waiting items. -/
theorem of_post {it : Item} (h : e.LanesWF → e₁.LanesWF ∧ e₁.queued.Perm (it :: e.queued)) :
    Accounted e [.post it] e₁ := fun hl => by
  obtain ⟨hl₁, hq⟩ := h hl
  refine ⟨hl₁, ?_⟩
  simpa using (List.perm_append_singleton it e.queued).trans hq.symm

/-- An item leaves the waiting items to run. -/
theorem of_run {it : Item} (h : e.LanesWF → e₁.LanesWF ∧ (it :: e₁.queued).Perm e.queued) :
    Accounted e [.run it] e₁ := fun hl => by
  obtain ⟨hl₁, hq⟩ := h hl
  exact ⟨hl₁, by simpa using hq.symm⟩

theorem pushGlobal (e : Engine) (p : Priority) (it : Item) :
    Accounted e [.post it] (e.pushGlobal p it) :=
  of_post fun hl => ⟨fun w wk hw => hl w wk (by simpa using hw), e.queued_pushGlobal p it⟩

theorem pushThread (e : Engine) (scope : Scope) (w : WorkerId) (p : Priority) (it : Item) :
    Accounted e [.post it] (e.pushThread scope w p it) :=
  of_post fun hl => ⟨Engine.LanesWF.pushThread e hl, e.queued_pushThread scope w p it hl⟩

/-- An item joins the end of a serial queue's task list. -/
theorem enqueue {id : Nat} {s : Serial} (hs : e.serials[id]? = some s) {it : Item}
    {f : Serial → Serial} (hf : (f s).tasks = s.tasks.push it) :
    Accounted e [.post it] (e.modifySerial id f) := by
  refine of_post fun hl => ⟨fun w wk hw => hl w wk (by simpa using hw), ?_⟩
  have h := e.queued_modifySerial id f hs
  rw [hf, Linked.toList_push, ← List.append_assoc] at h
  -- the old task list stands on both sides; what is left is the new item
  exact (List.perm_append_right_iff s.tasks.toList).mp (h.trans (List.perm_append_singleton it _))

/-- The items of a linked queue, read off a pop that gives one. -/
theorem Linked.toList_of_pop {q q' : Linked Item} {it : Item} (h : q.pop = (some it, q')) :
    q.toList = it :: q'.toList := by
  have h1 := Linked.pop_fst q
  have h2 := Linked.toList_pop q
  rw [h] at h1 h2
  cases hl : q.toList with
  | nil => rw [hl] at h1; simp at h1
  | cons a t => rw [hl] at h1 h2; simp_all

/-- A drain takes the front item of its serial queue to run it. -/
theorem take {id : Nat} {s : Serial} (hs : e.serials[id]? = some s) {it : Item} {rest : Linked Item}
    (hpop : s.tasks.pop = (some it, rest)) :
    Accounted e [.run it] (e.modifySerial id fun s => { s with tasks := rest }) := by
  refine of_run fun hl => ⟨fun w wk hw => hl w wk (by simpa using hw), ?_⟩
  have h := e.queued_modifySerial id (fun s => { s with tasks := rest }) hs
  rw [Linked.toList_of_pop hpop] at h
  -- the rest of the task list stands on both sides; what is left is the item taken
  exact (List.perm_append_right_iff rest.toList).mp (List.perm_middle.symm.trans h)

/-- A worker takes its next item to run it. -/
theorem nextItem {w : WorkerId} {scope : Scope} {it : Item} (h : e.nextItem w = some (scope, it, e₁)) :
    Accounted e [.run it] e₁ := by
  obtain ⟨p, hp⟩ := Engine.nextItem_eq_some h
  exact of_run fun hl =>
    let ⟨hq, _, hl₁⟩ := Engine.takeAt_queued hl hp
    ⟨hl₁, hq⟩

end Accounted

/-! ## A worker leaves -/

namespace Engine

variable {e : Engine}

/-- One priority of a hand-over: what is left in the worker's queue of that priority goes, the
worker's own posts first, to the end of the shared queue of the priority. -/
def handOverAt (e : Engine) (w : WorkerId) (p : Priority) : Engine :=
  match e.worker? w with
  | some wk =>
    let items := (wk.lanes.get p).toList
    let e := e.modifyWorker w fun wk => { wk with lanes := wk.lanes.set p Lane.empty }
    items.foldl (fun e it => e.pushGlobal p it) e
  | none => e

theorem handOver_eq (w : WorkerId) :
    e.handOver w = Priority.all.foldl (fun e p => e.handOverAt w p) e := rfl

theorem global_pushGlobal (p : Priority) (it : Item) (p' : Priority) :
    ((e.pushGlobal p it).global.get p').toList =
      (e.global.get p').toList ++ if p' = p then [it] else [] := by
  unfold pushGlobal PerPriority.modify
  by_cases h : p' = p
  · subst h
    simp
  · simp [PerPriority.get_set_of_ne _ _ h, h]

theorem global_pushAll (p : Priority) (p' : Priority) : ∀ (items : List Item) (e : Engine),
    ((items.foldl (fun e it => e.pushGlobal p it) e).global.get p').toList =
      (e.global.get p').toList ++ if p' = p then items else []
  | [], e => by simp
  | it :: items, e => by
    rw [List.foldl_cons, global_pushAll p p' items, global_pushGlobal]
    split <;> simp

theorem worker?_pushAll (p : Priority) : ∀ (items : List Item) (e : Engine),
    (items.foldl (fun e it => e.pushGlobal p it) e).worker? = e.worker?
  | [], _ => rfl
  | it :: items, e => by
    rw [List.foldl_cons, worker?_pushAll p items]
    funext w
    exact worker?_pushGlobal e p it w

theorem queued_pushAll (p : Priority) : ∀ (items : List Item) (e : Engine),
    (items.foldl (fun e it => e.pushGlobal p it) e).queued.Perm (items ++ e.queued)
  | [], _ => by simp
  | it :: items, e =>
    (queued_pushAll p items (e.pushGlobal p it)).trans
      (((e.queued_pushGlobal p it).append_left items).trans List.perm_middle)

theorem global_handOverAt {w : WorkerId} {wk : Worker} (hw : e.worker? w = some wk) (p p' : Priority) :
    ((e.handOverAt w p).global.get p').toList =
      (e.global.get p').toList ++ if p' = p then (wk.lanes.get p).toList else [] := by
  simp only [handOverAt, hw]
  rw [global_pushAll]
  cases w <;> rfl

theorem worker?_handOverAt {w : WorkerId} {wk : Worker} (hw : e.worker? w = some wk) (p : Priority) :
    (e.handOverAt w p).worker? w = some { wk with lanes := wk.lanes.set p Lane.empty } := by
  simp only [handOverAt, hw]
  rw [worker?_pushAll, worker?_modifyWorker, hw]
  simp

/-- A post to a worker's own queue once the worker has left goes to the shared queue of the
same priority. -/
theorem postWithin_thread_of_terminated (hops : Nat) (scope : Scope) {w : WorkerId} (p : Priority)
    (it : Item) (h : e.terminated w = true) :
    e.postWithin hops scope (.thread w p) it = e.pushGlobal p it := by
  cases hops <;> simp [postWithin, pushThread, h]

/-- Moving a context leaves the shared and the workers' queues alone. -/
theorem assignTo_queues (c w : Nat) :
    (e.assignTo c w).global = e.global ∧ (e.assignTo c w).workers = e.workers := by
  unfold assignTo
  split
  · split <;> exact ⟨rfl, rfl⟩
  · exact ⟨rfl, rfl⟩

theorem adoptOrphans_queues (i : Nat) :
    (e.adoptOrphans i).global = e.global ∧ (e.adoptOrphans i).workers = e.workers := by
  refine adoptOrphans_induction (P := fun e' => e'.global = e.global ∧ e'.workers = e.workers) i
    ⟨rfl, rfl⟩ ⟨rfl, rfl⟩ fun e' c w ⟨hg, hw⟩ => ?_
  obtain ⟨hg', hw'⟩ := e'.assignTo_queues c w
  exact ⟨hg'.trans hg, hw'.trans hw⟩

/-- A worker that leaves is marked as gone, then hands its own queues over; what follows touches
neither the shared nor the workers' queues. -/
theorem exitWorker_queues (i : Nat) :
    (e.exitWorker i).global =
        ((e.modifyWorker (.pool i) fun wk => { wk with status := .terminated }).handOver (.pool i)).global ∧
      (e.exitWorker i).workers =
        ((e.modifyWorker (.pool i) fun wk => { wk with status := .terminated }).handOver (.pool i)).workers := by
  unfold exitWorker
  dsimp only
  generalize (e.modifyWorker (.pool i) fun wk => { wk with status := .terminated }).handOver
    (.pool i) = e₁
  split
  · exact ⟨rfl, rfl⟩
  · exact ({ e₁ with live := e₁.live.erase i } : Engine).adoptOrphans_queues i

theorem worker?_terminate {i : Nat} {wk : Worker} (hw : e.workers[i]? = some wk) :
    (e.modifyWorker (.pool i) fun wk => { wk with status := .terminated }).worker? (.pool i) =
      some { wk with status := .terminated } := by
  rw [worker?_modifyWorker, if_pos rfl]
  simp [worker?, hw]

/-- A pool worker that leaves hands every item left in its own queues to the shared queue of the
same priority, its own posts first, each once and in the order it would have taken them. -/
theorem exitWorker_global {i : Nat} {wk : Worker} (hw : e.workers[i]? = some wk) (p : Priority) :
    ((e.exitWorker i).global.get p).toList =
      (e.global.get p).toList ++ (wk.lanes.get p).mine.toList ++ (wk.lanes.get p).others.toList := by
  rw [(e.exitWorker_queues i).1, handOver_eq]
  -- the three priorities are handed over in turn, each to its own shared queue
  have h0 := worker?_terminate hw
  have h1 := worker?_handOverAt h0 .high
  have h2 := worker?_handOverAt h1 .normal
  simp only [Priority.all, List.foldl_cons, List.foldl_nil]
  rw [global_handOverAt h2, global_handOverAt h1, global_handOverAt h0]
  cases p <;> simp [Lane.toList, modifyWorker]

/-- A pool worker that leaves is marked as gone, with nothing left in its own queues. -/
theorem exitWorker_worker {i : Nat} {wk : Worker} (hw : e.workers[i]? = some wk) :
    (e.exitWorker i).workers[i]? =
      some { wk with status := .terminated, lanes := PerPriority.uniform Lane.empty } := by
  rw [(e.exitWorker_queues i).2, handOver_eq]
  have h0 := worker?_terminate hw
  have h1 := worker?_handOverAt h0 .high
  have h2 := worker?_handOverAt h1 .normal
  have h3 := worker?_handOverAt h2 .low
  simp only [Priority.all, List.foldl_cons, List.foldl_nil]
  exact h3

end Engine

/-! ## Leaving keeps every item -/

namespace Accounted

variable {e : Engine}

/-- Emptying a lane of a worker: its items leave the waiting items. -/
theorem queued_emptyLane {w : WorkerId} {wk : Worker} (hw : e.worker? w = some wk) (p : Priority) :
    ((e.modifyWorker w fun wk => { wk with lanes := wk.lanes.set p Lane.empty }).queued ++
      (wk.lanes.get p).toList).Perm e.queued := by
  classical
  have h1 := e.queued_modifyWorker w (fun wk => { wk with lanes := wk.lanes.set p Lane.empty }) hw
  have h2 := Worker.queued_setLane wk p Lane.empty
  simp only [List.perm_iff_count, List.count_append, Lane.toList_empty, List.count_nil] at h1 h2 ⊢
  intro x
  have := h1 x
  have := h2 x
  omega

theorem handOverAt (e : Engine) (w : WorkerId) (p : Priority) : Accounted e [] (e.handOverAt w p) := by
  unfold Engine.handOverAt
  split
  · rename_i wk hw
    dsimp only
    refine of_perm ((Engine.queued_pushAll p _ _).trans
      (List.perm_append_comm.trans (queued_emptyLane hw p))) fun hl => ?_
    intro w' wk' hw'
    rw [Engine.worker?_pushAll] at hw'
    exact hl.setLane hw Chunked.wf_empty w' wk' hw'
  · exact refl e

theorem handOver (e : Engine) (w : WorkerId) : Accounted e [] (e.handOver w) := by
  rw [Engine.handOver_eq]
  generalize Priority.all = ps
  induction ps generalizing e with
  | nil => exact refl e
  | cons p ps ih => exact (handOverAt e w p).before (ih _)

theorem assignTo (e : Engine) (c w : Nat) : Accounted e [] (e.assignTo c w) := by
  unfold Engine.assignTo
  split
  · rename_i ctx _
    split
    · exact refl e
    · -- the context changes owner, and its queue target
      dsimp only
      have h1 : Accounted e [] (e.modifyContext c fun ctx => { ctx with owner := w }) :=
        of_queued rfl rfl rfl
      have h2 : Accounted e [] ((e.modifyContext c fun ctx => { ctx with owner := w }).modifySerial
          ctx.queue fun s => { s with target := .thread (.pool w) s.prio }) :=
        h1.after (modifySerial_of_tasks _ ctx.queue fun _ => rfl)
      exact h2.after (of_queued rfl rfl rfl)
  · exact refl e

theorem adoptOrphans (e : Engine) (i : Nat) : Accounted e [] (e.adoptOrphans i) :=
  Engine.adoptOrphans_induction (P := Accounted e []) i (refl e) (of_queued rfl rfl rfl)
    fun _ c w h => h.after (assignTo _ c w)

/-- A pool worker that leaves keeps every item: its own queues go to the shared queues. -/
theorem exitWorker (e : Engine) (i : Nat) : Accounted e [] (e.exitWorker i) := by
  have h1 := (modifyWorker_of_lanes e (.pool i) (f := fun wk => { wk with status := .terminated })
    fun _ => rfl).after (handOver _ (.pool i))
  unfold Engine.exitWorker
  dsimp only
  generalize (e.modifyWorker (.pool i) fun wk => { wk with status := .terminated }).handOver
    (.pool i) = e₁ at h1 ⊢
  have h2 : Accounted e [] { e₁ with live := e₁.live.erase i } := h1.after (of_queued rfl rfl rfl)
  split
  · exact h2.after (of_queued rfl rfl rfl)
  · exact (h2.after (adoptOrphans _ i)).after (of_queued rfl rfl rfl)

end Accounted

end Courier.Dispatch
