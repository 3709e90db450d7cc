import Courier.Dispatch.Run
import Courier.Proofs.Queue.Fifo

/-!
# Where the engine's items wait

`Engine.queued` lists every item waiting in a queue of the engine: the shared queues, the own
queues of the main worker and of the pool workers, and the task lists of the serial queues;
`drainCount l id` counts the drains of serial queue `id` in a list of items. Each primitive that moves
items changes the list by exactly the items it moves, up to order:

- `queued_pushGlobal`, `queued_pushThread`: a post to a shared or a worker's queue adds its item;
- `queued_modifySerial`, `queued_modifyWorker`, `queued_setGlobal`: changing one serial queue,
  one worker or one shared queue trades the items it held for the items it holds.
-/

set_option autoImplicit false

namespace Courier.Dispatch

open Courier.Queue

/-- The serial queue an item drains, if it is a drain. -/
def Item.drainOf (it : Item) : Option Nat :=
  match it.job with
  | .drain q => some q
  | _ => none

@[simp] theorem Item.drainOf_mk (j : Job) (c : Option Nat) (x : Option Nat) :
    Item.drainOf ⟨j, c, x⟩ = match j with
      | .drain q => some q
      | _ => none := rfl

/-- The values at every priority, most urgent first, each seen as a list. -/
def PerPriority.flatMap {α β : Type} (t : PerPriority α) (g : α → List β) : List β :=
  Priority.all.flatMap fun p => g (t.get p)

/-- The items waiting in a worker's own queues. -/
def Worker.queued (wk : Worker) : List Item := wk.lanes.flatMap Lane.toList

/-- Every own queue of the worker keeps the shape of its list of the worker's own posts. -/
def Worker.WF (wk : Worker) : Prop := ∀ p, (wk.lanes.get p).mine.WF

namespace Engine

/-- Every item waiting in a queue of the engine. -/
def queued (e : Engine) : List Item :=
  e.global.flatMap Linked.toList ++ e.main.queued ++ e.workers.toList.flatMap Worker.queued ++
    e.serials.toList.flatMap fun s => s.tasks.toList

end Engine

/-- How many items of a list are drains of serial queue `id`. -/
def drainCount (l : List Item) (id : Nat) : Nat := l.countP fun it => it.drainOf == some id

@[simp] theorem drainCount_nil (id : Nat) : drainCount [] id = 0 := rfl

@[simp] theorem drainCount_cons (it : Item) (l : List Item) (id : Nat) :
    drainCount (it :: l) id = drainCount l id + if it.drainOf = some id then 1 else 0 := by
  simp [drainCount, List.countP_cons]

@[simp] theorem drainCount_append (l l' : List Item) (id : Nat) :
    drainCount (l ++ l') id = drainCount l id + drainCount l' id := by
  simp [drainCount, List.countP_append]

theorem drainCount_eq_of_perm {l l' : List Item} (h : l.Perm l') (id : Nat) :
    drainCount l id = drainCount l' id := h.countP_eq _

section Perm

variable {α β : Type}

@[simp] theorem PerPriority.get_set_of_ne (t : PerPriority α) {p p' : Priority} (a : α)
    (h : p' ≠ p) : (t.set p a).get p' = t.get p' := by
  cases p <;> cases p' <;> first | exact absurd rfl h | rfl

theorem PerPriority.flatMap_set_perm (t : PerPriority α) (g : α → List β) (p : Priority) (a : α) :
    ((t.set p a).flatMap g ++ g (t.get p)).Perm (t.flatMap g ++ g a) := by
  classical
  cases p <;>
  · simp only [PerPriority.flatMap, PerPriority.set, PerPriority.get, Priority.all,
      List.flatMap_cons, List.flatMap_nil, List.append_nil, List.perm_iff_count, List.count_append]
    intro x; omega

theorem flatMap_modify_perm (g : α → List β) (f : α → α) {l : List α} {i : Nat} {a : α}
    (h : l[i]? = some a) : ((l.modify i f).flatMap g ++ g a).Perm (l.flatMap g ++ g (f a)) := by
  classical
  obtain ⟨hi, rfl⟩ := List.getElem?_eq_some_iff.mp h
  obtain ⟨l₁, b, l₂, rfl, hlen, hm⟩ := List.exists_of_modify f hi
  have hb : (l₁ ++ b :: l₂)[i] = b := by simp [← hlen]
  rw [hm, hb]
  simp only [List.flatMap_append, List.flatMap_cons, List.perm_iff_count, List.count_append]
  intro x; omega

theorem flatMap_modify_of_eq (g : α → List β) (f : α → α) (hf : ∀ a, g (f a) = g a) (l : List α)
    (i : Nat) : (l.modify i f).flatMap g = l.flatMap g := by
  induction l generalizing i with
  | nil => simp
  | cons a l ih =>
    cases i with
    | zero => simp [List.modify, List.modifyHead, hf]
    | succ i => simp [List.modify_succ_cons, ih]

end Perm

@[simp] theorem Lane.toList_empty : Lane.empty.toList = [] := rfl

theorem Worker.queued_setLane (wk : Worker) (p : Priority) (l : Lane) :
    ({ wk with lanes := wk.lanes.set p l }.queued ++ (wk.lanes.get p).toList).Perm
      (wk.queued ++ l.toList) :=
  PerPriority.flatMap_set_perm wk.lanes Lane.toList p l

/-- Changing a lane of a worker changes the worker's items accordingly. -/
theorem Worker.WF.setLane {wk : Worker} (h : wk.WF) {p : Priority} {l : Lane} (hl : l.mine.WF) :
    ({ wk with lanes := wk.lanes.set p l } : Worker).WF := by
  intro p'
  by_cases hp : p' = p
  · subst hp; simpa using hl
  · simpa [PerPriority.get_set_of_ne _ _ hp] using h p'

namespace Engine

variable (e : Engine)

theorem queued_pushGlobal (p : Priority) (it : Item) :
    (e.pushGlobal p it).queued.Perm (it :: e.queued) := by
  classical
  have h := PerPriority.flatMap_set_perm e.global Linked.toList p ((e.global.get p).push it)
  simp only [List.perm_iff_count, List.count_append, Linked.toList_push] at h
  simp only [queued, pushGlobal, PerPriority.modify, List.perm_iff_count, List.count_append,
    List.count_cons, List.count_nil] at h ⊢
  intro x; have := h x; omega

theorem queued_setGlobal (p : Priority) (g : Linked Item) :
    ({ e with global := e.global.set p g }.queued ++ (e.global.get p).toList).Perm
      (e.queued ++ g.toList) := by
  classical
  have h := PerPriority.flatMap_set_perm e.global Linked.toList p g
  simp only [List.perm_iff_count, List.count_append] at h
  simp only [queued, List.perm_iff_count, List.count_append] at h ⊢
  intro x; have := h x; omega

theorem queued_modifySerial (id : Nat) (f : Serial → Serial) {s : Serial}
    (hs : e.serials[id]? = some s) :
    ((e.modifySerial id f).queued ++ s.tasks.toList).Perm (e.queued ++ (f s).tasks.toList) := by
  classical
  have h := flatMap_modify_perm (fun s : Serial => s.tasks.toList) f
    (by rw [Array.getElem?_toList]; exact hs)
  simp only [List.perm_iff_count, List.count_append] at h
  simp only [queued, modifySerial, Array.toList_modify, List.perm_iff_count,
    List.count_append] at h ⊢
  intro x; have := h x; omega

/-- A change to a serial queue that leaves its task list alone leaves every item where it is. -/
theorem queued_modifySerial_of_tasks (id : Nat) (f : Serial → Serial)
    (hf : ∀ s, (f s).tasks = s.tasks) : (e.modifySerial id f).queued = e.queued := by
  simp only [queued, modifySerial, Array.toList_modify]
  rw [flatMap_modify_of_eq _ f (fun s => by rw [hf])]

theorem queued_modifyWorker (w : WorkerId) (f : Worker → Worker) {wk : Worker}
    (hw : e.worker? w = some wk) :
    ((e.modifyWorker w f).queued ++ wk.queued).Perm (e.queued ++ (f wk).queued) := by
  classical
  cases w with
  | main =>
    obtain rfl : e.main = wk := Option.some.inj hw
    simp only [queued, modifyWorker, List.perm_iff_count, List.count_append]
    intro x; omega
  | pool i =>
    have h := flatMap_modify_perm Worker.queued f (l := e.workers.toList) (i := i)
      (by rw [Array.getElem?_toList]; exact hw)
    simp only [List.perm_iff_count, List.count_append] at h
    simp only [queued, modifyWorker, Array.toList_modify, List.perm_iff_count,
      List.count_append] at h ⊢
    intro x; have := h x; omega

/-- A change to a worker that leaves its own queues alone leaves every item where it is. -/
theorem queued_modifyWorker_of_lanes (w : WorkerId) (f : Worker → Worker)
    (hf : ∀ wk, (f wk).lanes = wk.lanes) : (e.modifyWorker w f).queued = e.queued := by
  cases w with
  | main => simp [queued, modifyWorker, Worker.queued, hf]
  | pool i =>
    simp only [queued, modifyWorker, Array.toList_modify]
    rw [flatMap_modify_of_eq _ f (fun wk => by simp [Worker.queued, hf])]

@[simp] theorem worker?_modifyWorker (w w' : WorkerId) (f : Worker → Worker) :
    (e.modifyWorker w f).worker? w' = if w' = w then (e.worker? w).map f else e.worker? w' := by
  cases w with
  | main => cases w' <;> simp [modifyWorker, worker?]
  | pool i =>
    cases w' with
    | main => simp [modifyWorker, worker?]
    | pool j => by_cases h : i = j <;> simp [modifyWorker, worker?, Array.getElem?_modify, h, eq_comm]

@[simp] theorem worker?_modifySerial (id : Nat) (f : Serial → Serial) (w : WorkerId) :
    (e.modifySerial id f).worker? w = e.worker? w := by
  cases w <;> rfl

@[simp] theorem worker?_pushGlobal (p : Priority) (it : Item) (w : WorkerId) :
    (e.pushGlobal p it).worker? w = e.worker? w := by
  cases w <;> rfl

/-- Every own queue of every worker keeps its shape. -/
def LanesWF : Prop := ∀ w wk, e.worker? w = some wk → wk.WF

/-- Taking a worker in turn changes nothing but the counter: it moves on by one, or the turn fails
and it stays. -/
theorem nextInTurn_snd : e.nextInTurn.2 = e ∨ e.nextInTurn.2 = { e with next := e.next + 1 } := by
  unfold nextInTurn
  dsimp only
  split
  · exact .inl rfl
  · exact .inr rfl

/-- Choosing a worker for new work changes nothing but the turn counter. -/
theorem chooseWorker_snd (scope : Scope) :
    (e.chooseWorker scope).2 = e ∨ (e.chooseWorker scope).2 = { e with next := e.next + 1 } := by
  unfold chooseWorker
  split
  · exact .inl rfl
  · split
    · split
      · exact e.nextInTurn_snd
      · exact .inl rfl
    · exact e.nextInTurn_snd

/-- What holds of an engine, and of it once the next heir is chosen, and what every move of a
context to another worker keeps, holds once the contexts of a leaving worker are adopted. -/
theorem adoptOrphans_induction {e : Engine} {P : Engine → Prop} (i : Nat) (h0 : P e)
    (hnext : P { e with next := e.next + 1 }) (hassign : ∀ e' c w, P e' → P (e'.assignTo c w)) :
    P (e.adoptOrphans i) := by
  unfold adoptOrphans
  dsimp only
  split
  · exact h0
  · split
    · exact h0
    · -- the orphans go one by one to the heir
      generalize { e with next := e.next + 1 } = e₁ at hnext ⊢
      generalize (List.range e.contexts.size).filter _ = cs
      induction cs generalizing e₁ with
      | nil => exact hnext
      | cons c cs ih => exact ih _ (hassign _ _ _ hnext)

theorem not_terminated {w : WorkerId} (h : e.terminated w = false) : ∃ wk, e.worker? w = some wk := by
  unfold terminated at h
  split at h
  · exact ⟨_, ‹_›⟩
  · simp at h

/-- The worker's queue of one priority after a change to it, among the worker's others. -/
theorem queued_modifyLane {w : WorkerId} {wk : Worker} (hw : e.worker? w = some wk) (p : Priority)
    (g : Lane → Lane) {it : Item} (hg : ((g (wk.lanes.get p)).toList).Perm (it :: (wk.lanes.get p).toList)) :
    (e.modifyWorker w fun wk => { wk with lanes := wk.lanes.modify p g }).queued.Perm
      (it :: e.queued) := by
  classical
  have h1 := e.queued_modifyWorker w (fun wk => { wk with lanes := wk.lanes.modify p g }) hw
  have h2 := Worker.queued_setLane wk p (g (wk.lanes.get p))
  simp only [PerPriority.modify, List.perm_iff_count, List.count_append, List.count_cons] at h1 h2 hg ⊢
  intro x; have := h1 x; have := h2 x; have := hg x; omega

theorem queued_pushThread (scope : Scope) (w : WorkerId) (p : Priority) (it : Item)
    (hwf : e.LanesWF) : (e.pushThread scope w p it).queued.Perm (it :: e.queued) := by
  unfold pushThread
  split
  · exact e.queued_pushGlobal p it
  · rename_i ht
    obtain ⟨wk, hw⟩ := e.not_terminated (Bool.eq_false_iff.mpr ht)
    have hm := (hwf w wk hw) p
    split
    · refine e.queued_modifyLane hw p _ ?_
      simp only [Lane.toList, Chunked.toList_push _ _ hm, List.append_assoc, List.singleton_append]
      exact List.perm_middle
    · refine e.queued_modifyLane hw p _ ?_
      simp only [Lane.toList, Linked.toList_push, ← List.append_assoc]
      exact List.perm_append_singleton _ _

theorem LanesWF.pushThread {scope : Scope} {w : WorkerId} {p : Priority} {it : Item}
    (hwf : e.LanesWF) : (e.pushThread scope w p it).LanesWF := by
  intro w' wk' hw'
  unfold Engine.pushThread at hw'
  split at hw'
  · rw [worker?_pushGlobal] at hw'; exact hwf w' wk' hw'
  · rename_i ht
    obtain ⟨wk, hw⟩ := e.not_terminated (Bool.eq_false_iff.mpr ht)
    have hm := hwf w wk hw
    split at hw'
    all_goals
      rw [worker?_modifyWorker, hw] at hw'
      split at hw'
      · obtain rfl := Option.some.inj hw'
        exact Worker.WF.setLane hm (by first | exact (hm p).push it | exact hm p)
      · exact hwf w' wk' hw'

end Engine

/-- Taking from a lane gives its oldest item: the worker's own posts first. -/
theorem Lane.pop_some {l : Lane} (h : l.mine.WF) {it : Item} {l' : Lane}
    (hp : l.pop = some (it, l')) : l.toList = it :: l'.toList ∧ l'.mine.WF := by
  obtain ⟨h1, h2, h3⟩ := h.pop
  unfold Lane.pop at hp
  rcases hm : l.mine.pop with ⟨_ | it', m⟩ <;> rw [hm] at hp h1 h2 h3 <;> simp only at hp h1 h2 h3
  · have hnil : l.mine.toList = [] := List.head?_eq_none_iff.mp h1.symm
    have h4 := Linked.pop_fst l.others
    have h5 := Linked.toList_pop l.others
    rcases ho : l.others.pop with ⟨_ | it'', o⟩ <;> rw [ho] at hp h4 h5 <;> simp only at hp h4 h5
    · simp at hp
    · obtain ⟨rfl, rfl⟩ := Option.some.inj hp
      refine ⟨?_, h⟩
      obtain ⟨t, ht⟩ : ∃ t, l.others.toList = it :: t := by
        cases hl : l.others.toList <;> simp_all
      simp_all [Lane.toList]
  · obtain ⟨rfl, rfl⟩ := Option.some.inj hp
    refine ⟨?_, h3⟩
    obtain ⟨t, ht⟩ : ∃ t, l.mine.toList = it :: t := by
      cases hl : l.mine.toList <;> simp_all
    simp_all [Lane.toList]

/-- A lane gives nothing only when it is empty. -/
theorem Lane.pop_none {l : Lane} (h : l.mine.WF) (hp : l.pop = none) : l.toList = [] := by
  obtain ⟨h1, -, -⟩ := h.pop
  unfold Lane.pop at hp
  rcases hm : l.mine.pop with ⟨_ | it', m⟩ <;> rw [hm] at hp h1 <;> simp only at hp h1
  · have hnil : l.mine.toList = [] := List.head?_eq_none_iff.mp h1.symm
    have h4 := Linked.pop_fst l.others
    rcases ho : l.others.pop with ⟨_ | it'', o⟩ <;> rw [ho] at hp h4 <;> simp only at hp h4
    · simp [Lane.toList, hnil, List.head?_eq_none_iff.mp h4.symm]
    · simp at hp
  · simp at hp

end Courier.Dispatch
