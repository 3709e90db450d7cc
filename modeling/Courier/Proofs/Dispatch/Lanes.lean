import Courier.Proofs.Dispatch.Flow

/-!
# Where items wait outside the serial queues

Besides the serial queues, items wait in the shared queue of each priority and in each worker's own
queues (`Engine.laneItems`), and tasks wait in the timer (`Timer.jobs`). A worker taking an item, or
leaving and handing its own items to the shared queues, moves items among these queues and brings
none in (`Engine.Gathers`); the timer's loop fires and keeps only jobs it held. Membership here
is read off the queues' lists whatever shape their chunks have, so no well-formedness is needed.
-/

set_option autoImplicit false

namespace Courier.Queue

namespace Chunked

variable {α : Type}

/-- Pushing adds the item and nothing else, whatever the shape of the chunks. -/
theorem mem_toList_push {q : Chunked α} {v x : α} (h : x ∈ (q.push v).toList) :
    x = v ∨ x ∈ q.toList := by
  unfold push at h
  split at h
  · rename_i last hlast
    obtain ⟨init, hinit⟩ := List.getLast?_eq_some_iff.mp hlast
    split at h
    · simp only [toList, List.map_append, List.flatten_append, List.mem_append] at h
      rcases h with h | h
      · exact .inr h
      · simp [Chunk.pending] at h
        exact .inl h
    · simp only [toList, hinit, List.dropLast_concat, List.map_append, List.flatten_append,
        List.mem_append] at h ⊢
      simp only [Chunk.pending, List.map_cons, List.map_nil, List.flatten_cons, List.flatten_nil,
        List.append_nil, List.drop_append, List.mem_append] at h ⊢
      rcases h with h | h | h
      · exact .inr (.inl h)
      · exact .inr (.inr h)
      · exact .inl (List.mem_singleton.mp (List.mem_of_mem_drop h))
  · simp [toList, Chunk.pending] at h
    exact .inl h

/-- Letting go of a used-up first chunk keeps the chunks after it. -/
theorem advance_suffix (cs : List (Chunk α)) : advance cs <:+ cs := by
  unfold advance
  split
  · split
    · exact List.suffix_cons _ _
    · exact List.suffix_refl _
  · exact List.suffix_refl _

/-- Popping gives an item that was there, and leaves only items that were there. -/
theorem mem_toList_of_pop {q q' : Chunked α} {v : α} (h : q.pop = (some v, q')) :
    v ∈ q.toList ∧ ∀ x ∈ q'.toList, x ∈ q.toList := by
  unfold pop at h
  split at h
  · simp at h
  · split at h
    · rename_i c rest hadv
      split at h
      · rename_i v' hv
        simp only [Prod.mk.injEq, Option.some.injEq] at h
        obtain ⟨rfl, rfl⟩ := h
        obtain ⟨pre, hpre⟩ := hadv ▸ advance_suffix q.chunks
        -- the first chunk left holds the item; what remains comes from it and the chunks after
        have hsub : ∀ x, x ∈ c.pending ∨ x ∈ (rest.map Chunk.pending).flatten → x ∈ q.toList := by
          intro x hx
          rw [toList, ← hpre]
          simp only [List.map_append, List.map_cons, List.flatten_append, List.flatten_cons,
            List.mem_append]
          exact .inr hx
        refine ⟨hsub _ (.inl (List.mem_of_getElem? (i := 0) ?_)), fun x hx => hsub x ?_⟩
        · simpa [Chunk.pending, List.getElem?_drop] using hv
        · simp only [toList, List.map_cons, List.flatten_cons, List.mem_append] at hx
          refine hx.imp_left fun hx => ?_
          split at hx
          · simp [Chunk.pending] at hx
          · exact List.drop_subset_drop_left _ (Nat.le_succ _) hx
      · simp at h
    · simp at h

end Chunked

end Courier.Queue

namespace Courier.Dispatch

open Courier.Queue

/-- An element of a list after one entry changed: an old element, or the changed entry. -/
theorem mem_of_mem_modify {α : Type} {f : α → α} {l : List α} {i : Nat} {a : α}
    (h : a ∈ l.modify i f) : a ∈ l ∨ ∃ b, l[i]? = some b ∧ a = f b := by
  by_cases hi : i < l.length
  · obtain ⟨l₁, b, l₂, rfl, hlen, hm⟩ := List.exists_of_modify f hi
    rw [hm] at h
    simp only [List.mem_append, List.mem_cons] at h
    rcases h with h | rfl | h
    · exact .inl (by simp [h])
    · exact .inr ⟨b, by simp [← hlen], rfl⟩
    · exact .inl (by simp [h])
  · rw [List.modify_eq_self (by omega)] at h
    exact .inl h

theorem PerPriority.mem_flatMap {α β : Type} {t : PerPriority α} {g : α → List β} {x : β} :
    x ∈ t.flatMap g ↔ ∃ p, x ∈ g (t.get p) := by
  constructor
  · intro h
    obtain ⟨p, -, hp⟩ := List.mem_flatMap.mp h
    exact ⟨p, hp⟩
  · rintro ⟨p, hp⟩
    exact List.mem_flatMap.mpr ⟨p, by cases p <;> simp [Priority.all], hp⟩

theorem PerPriority.get_set {α : Type} (t : PerPriority α) (p p' : Priority) (a : α) :
    (t.set p a).get p' = if p' = p then a else t.get p' := by
  cases p <;> cases p' <;> rfl

/-- Taking from a lane gives an item that was there, and leaves only items that were there. -/
theorem Lane.mem_of_pop {l l' : Lane} {it : Item} (h : l.pop = some (it, l')) :
    it ∈ l.toList ∧ ∀ x ∈ l'.toList, x ∈ l.toList := by
  unfold Lane.pop at h
  rcases hm : l.mine.pop with ⟨_ | it', m⟩ <;> rw [hm] at h <;> simp only at h
  · have h1 := Linked.pop_fst l.others
    have h2 := Linked.toList_pop l.others
    rcases ho : l.others.pop with ⟨_ | it'', o⟩ <;> rw [ho] at h h1 h2 <;> simp only at h h1 h2
    · simp at h
    · simp only [Option.some.injEq, Prod.mk.injEq] at h
      obtain ⟨rfl, rfl⟩ := h
      refine ⟨List.mem_append_right _ (List.mem_of_mem_head? h1.symm), fun x hx => ?_⟩
      simp only [Lane.toList, List.mem_append] at hx ⊢
      refine hx.imp_right fun hx => ?_
      rw [h2] at hx
      exact List.mem_of_mem_tail hx
  · simp only [Option.some.injEq, Prod.mk.injEq] at h
    obtain ⟨rfl, rfl⟩ := h
    obtain ⟨h1, h2⟩ := Chunked.mem_toList_of_pop hm
    refine ⟨List.mem_append_left _ h1, fun x hx => ?_⟩
    simp only [Lane.toList, List.mem_append] at hx ⊢
    exact hx.imp_left (h2 x)

/-- The items of a worker after one of its lanes changed. -/
theorem Worker.mem_queued_set {wk : Worker} {p : Priority} {l : Lane} {x : Item}
    (h : x ∈ { wk with lanes := wk.lanes.set p l }.queued) : x ∈ wk.queued ∨ x ∈ l.toList := by
  obtain ⟨p', hp'⟩ := PerPriority.mem_flatMap.mp h
  simp only [PerPriority.get_set] at hp'
  split at hp'
  · exact .inr hp'
  · exact .inl (PerPriority.mem_flatMap.mpr ⟨p', hp'⟩)

theorem Worker.mem_queued_of_lane {wk : Worker} {p : Priority} {x : Item}
    (h : x ∈ (wk.lanes.get p).toList) : x ∈ wk.queued :=
  PerPriority.mem_flatMap.mpr ⟨p, h⟩

namespace Engine

/-- The items waiting in the shared queues and in the workers' own queues. -/
def laneItems (e : Engine) : List Item :=
  e.global.flatMap Linked.toList ++ e.main.queued ++ e.workers.toList.flatMap Worker.queued

theorem queued_eq_laneItems (e : Engine) :
    e.queued = e.laneItems ++ e.serials.toList.flatMap fun s => s.tasks.toList := rfl

/-- A change that moves items among the shared queues and the workers only. -/
def LanesOnly (e e' : Engine) : Prop :=
  ∃ g m ws, e' = { e with global := g, main := m, workers := ws }

theorem LanesOnly.refl (e : Engine) : LanesOnly e e := ⟨e.global, e.main, e.workers, rfl⟩

theorem LanesOnly.trans {e₁ e₂ e₃ : Engine} (h₁ : LanesOnly e₁ e₂) (h₂ : LanesOnly e₂ e₃) :
    LanesOnly e₁ e₃ := by
  obtain ⟨g, m, ws, rfl⟩ := h₁
  obtain ⟨g', m', ws', rfl⟩ := h₂
  exact ⟨g', m', ws', rfl⟩

variable {e : Engine}

theorem mem_laneItems_of_worker {w : WorkerId} {wk : Worker} (hw : e.worker? w = some wk)
    {x : Item} (hx : x ∈ wk.queued) : x ∈ e.laneItems := by
  cases w with
  | main =>
    obtain rfl := Option.some.inj hw
    simp [laneItems, hx]
  | pool i =>
    have hmem : wk ∈ e.workers.toList := by
      simpa [worker?] using Array.mem_of_getElem? hw
    simp only [laneItems, List.mem_append, List.mem_flatMap]
    exact .inr ⟨wk, hmem, hx⟩

theorem pushGlobal_lanesOnly (p : Priority) (it : Item) : LanesOnly e (e.pushGlobal p it) :=
  ⟨_, e.main, e.workers, rfl⟩

theorem mem_laneItems_pushGlobal {p : Priority} {it x : Item} (h : x ∈ (e.pushGlobal p it).laneItems) :
    x = it ∨ x ∈ e.laneItems := by
  simp only [laneItems, pushGlobal, List.mem_append] at h ⊢
  rcases h with (h | h) | h
  · obtain ⟨p', hp'⟩ := PerPriority.mem_flatMap.mp h
    simp only [PerPriority.modify, PerPriority.get_set] at hp'
    split at hp'
    · rename_i hp
      subst hp
      simp only [Linked.toList_push, List.mem_append, List.mem_singleton] at hp'
      exact hp'.symm.imp id fun h => .inl (.inl (PerPriority.mem_flatMap.mpr ⟨p', h⟩))
    · exact .inr (.inl (.inl (PerPriority.mem_flatMap.mpr ⟨p', hp'⟩)))
  · exact .inr (.inl (.inr h))
  · exact .inr (.inr h)

theorem modifyWorker_lanesOnly (w : WorkerId) (f : Worker → Worker) :
    LanesOnly e (e.modifyWorker w f) := by
  cases w
  · exact ⟨e.global, _, e.workers, rfl⟩
  · exact ⟨e.global, e.main, _, rfl⟩

theorem mem_laneItems_modifyWorker {w : WorkerId} {f : Worker → Worker} {x : Item}
    (h : x ∈ (e.modifyWorker w f).laneItems) :
    x ∈ e.laneItems ∨ ∃ wk, e.worker? w = some wk ∧ x ∈ (f wk).queued := by
  cases w with
  | main =>
    simp only [laneItems, modifyWorker, List.mem_append] at h
    rcases h with (h | h) | h
    · exact .inl (by simp [laneItems, h])
    · exact .inr ⟨e.main, rfl, h⟩
    · exact .inl (by simp [laneItems, h])
  | pool i =>
    simp only [laneItems, modifyWorker, Array.toList_modify, List.mem_append, List.mem_flatMap] at h
    rcases h with h | ⟨wk', hwk', hx⟩
    · exact .inl (by simp only [laneItems, List.mem_append]; exact .inl h)
    · rcases mem_of_mem_modify hwk' with hwk' | ⟨wk, hwk, rfl⟩
      · exact .inl (by simp only [laneItems, List.mem_append, List.mem_flatMap]; exact .inr ⟨wk', hwk', hx⟩)
      · exact .inr ⟨wk, by simpa [worker?] using hwk, hx⟩

theorem pushThread_lanesOnly (scope : Scope) (w : WorkerId) (p : Priority) (it : Item) :
    LanesOnly e (e.pushThread scope w p it) := by
  unfold pushThread
  split
  · exact pushGlobal_lanesOnly p it
  · split <;> exact modifyWorker_lanesOnly w _

theorem mem_laneItems_pushThread {scope : Scope} {w : WorkerId} {p : Priority} {it x : Item}
    (h : x ∈ (e.pushThread scope w p it).laneItems) : x = it ∨ x ∈ e.laneItems := by
  unfold pushThread at h
  split at h
  · exact mem_laneItems_pushGlobal h
  · -- the item joins one lane of the worker, among the worker's own posts or the others'
    have hlane : ∀ g : Lane → Lane, (∀ l, ∀ y ∈ (g l).toList, y = it ∨ y ∈ l.toList) →
        x ∈ (e.modifyWorker w fun wk => { wk with lanes := wk.lanes.modify p g }).laneItems →
        x = it ∨ x ∈ e.laneItems := by
      intro g hg hx
      rcases mem_laneItems_modifyWorker hx with hx | ⟨wk, hwk, hx⟩
      · exact .inr hx
      · rcases Worker.mem_queued_set hx with hx | hx
        · exact .inr (mem_laneItems_of_worker hwk hx)
        · exact (hg _ x hx).imp_right fun hx =>
            mem_laneItems_of_worker hwk (Worker.mem_queued_of_lane hx)
    split at h
    · refine hlane _ (fun l y hy => ?_) h
      simp only [Lane.toList, List.mem_append] at hy ⊢
      rcases hy with hy | hy
      · exact (Chunked.mem_toList_push hy).imp_right .inl
      · exact .inr (.inr hy)
    · refine hlane _ (fun l y hy => ?_) h
      simp only [Lane.toList, Linked.toList_push, List.mem_append, List.mem_singleton] at hy ⊢
      rcases hy with hy | hy | hy
      · exact .inr (.inl hy)
      · exact .inr (.inr hy)
      · exact .inl hy

theorem mem_laneItems_of_global {p : Priority} {x : Item} (h : x ∈ (e.global.get p).toList) :
    x ∈ e.laneItems := by
  simp only [laneItems, List.mem_append]
  exact .inl (.inl (PerPriority.mem_flatMap.mpr ⟨p, h⟩))

theorem mem_laneItems_setGlobal {p : Priority} {g : Linked Item} {x : Item}
    (h : x ∈ { e with global := e.global.set p g }.laneItems) : x ∈ e.laneItems ∨ x ∈ g.toList := by
  simp only [laneItems, List.mem_append] at h
  rcases h with (h | h) | h
  · obtain ⟨p', hp'⟩ := PerPriority.mem_flatMap.mp h
    simp only [PerPriority.get_set] at hp'
    split at hp'
    · exact .inr hp'
    · exact .inl (mem_laneItems_of_global hp')
  · exact .inl (by simp [laneItems, h])
  · exact .inl (by simp [laneItems, h])

/-- A change that moves items among the shared queues and the workers, and brings none in. -/
def Gathers (e e' : Engine) : Prop := LanesOnly e e' ∧ ∀ x ∈ e'.laneItems, x ∈ e.laneItems

theorem Gathers.refl (e : Engine) : Gathers e e := ⟨LanesOnly.refl e, fun _ hx => hx⟩

theorem Gathers.trans {e₁ e₂ e₃ : Engine} (h₁ : Gathers e₁ e₂) (h₂ : Gathers e₂ e₃) :
    Gathers e₁ e₃ :=
  ⟨h₁.1.trans h₂.1, fun x hx => h₁.2 x (h₂.2 x hx)⟩

theorem Gathers.foldl {α : Type} {g : Engine → α → Engine} (hg : ∀ e a, Gathers e (g e a)) :
    ∀ (l : List α) (e : Engine), Gathers e (l.foldl g e)
  | [], e => Gathers.refl e
  | a :: l, e => (hg e a).trans (Gathers.foldl hg l (g e a))

/-- Taking an item to run takes one that waited in the shared or the worker's queues, and moves
nothing else in. -/
theorem takeAt_gathers {w : WorkerId} {p : Priority} {scope : Scope} {it : Item} {e' : Engine}
    (h : e.takeAt w p = some (scope, it, e')) : Gathers e e' ∧ it ∈ e.laneItems := by
  unfold takeAt at h
  split at h
  · cases h
  · rename_i wk hw
    split at h
    · rename_i it' l hl
      simp only [Option.some.injEq, Prod.mk.injEq] at h
      obtain ⟨-, rfl, rfl⟩ := h
      obtain ⟨h1, h2⟩ := Lane.mem_of_pop hl
      refine ⟨⟨modifyWorker_lanesOnly w _, fun x hx => ?_⟩,
        mem_laneItems_of_worker hw (Worker.mem_queued_of_lane h1)⟩
      rcases mem_laneItems_modifyWorker hx with hx | ⟨wk', hwk', hx⟩
      · exact hx
      · rw [hw] at hwk'
        obtain rfl := Option.some.inj hwk'
        rcases Worker.mem_queued_set hx with hx | hx
        · exact mem_laneItems_of_worker hw hx
        · exact mem_laneItems_of_worker hw (Worker.mem_queued_of_lane (h2 x hx))
    · split at h
      · cases h
      · split at h
        · rename_i it' g hg
          simp only [Option.some.injEq, Prod.mk.injEq] at h
          obtain ⟨-, rfl, rfl⟩ := h
          have h1 := Linked.pop_fst (e.global.get p)
          have h2 := Linked.toList_pop (e.global.get p)
          rw [hg] at h1 h2
          refine ⟨⟨⟨_, e.main, e.workers, rfl⟩, fun x hx => ?_⟩,
            mem_laneItems_of_global (List.mem_of_mem_head? h1.symm)⟩
          rcases mem_laneItems_setGlobal hx with hx | hx
          · exact hx
          · rw [h2] at hx
            exact mem_laneItems_of_global (List.mem_of_mem_tail hx)
        · cases h

theorem nextItem_gathers {w : WorkerId} {scope : Scope} {it : Item} {e' : Engine}
    (h : e.nextItem w = some (scope, it, e')) : Gathers e e' ∧ it ∈ e.laneItems := by
  obtain ⟨p, hp⟩ := nextItem_eq_some h
  exact takeAt_gathers hp

/-- Items put into the shared queue of one priority, one after the other. -/
theorem pushAll_lanes (p : Priority) {L : List Item} :
    ∀ (items : List Item) (e : Engine), (∀ x ∈ items, x ∈ L) → (∀ x ∈ e.laneItems, x ∈ L) →
      LanesOnly e (items.foldl (fun e it => e.pushGlobal p it) e) ∧
        ∀ x ∈ (items.foldl (fun e it => e.pushGlobal p it) e).laneItems, x ∈ L
  | [], e, _, he => ⟨LanesOnly.refl e, he⟩
  | it :: items, e, hi, he => by
    have hnext : ∀ x ∈ (e.pushGlobal p it).laneItems, x ∈ L := fun x hx =>
      (mem_laneItems_pushGlobal hx).elim (fun h => h ▸ hi it List.mem_cons_self) (he x)
    obtain ⟨h1, h2⟩ := pushAll_lanes p items (e.pushGlobal p it)
      (fun x hx => hi x (List.mem_cons_of_mem _ hx)) hnext
    exact ⟨(pushGlobal_lanesOnly p it).trans h1, h2⟩

theorem handOverAt_gathers (w : WorkerId) (p : Priority) : Gathers e (e.handOverAt w p) := by
  unfold handOverAt
  split
  · rename_i wk hw
    -- the lane's items were the worker's, and the worker's are the engine's
    have hitems : ∀ x ∈ (wk.lanes.get p).toList, x ∈ e.laneItems := fun x hx =>
      mem_laneItems_of_worker hw (Worker.mem_queued_of_lane hx)
    have hrest : ∀ x ∈ (e.modifyWorker w fun wk => { wk with lanes := wk.lanes.set p Lane.empty }).laneItems,
        x ∈ e.laneItems := by
      intro x hx
      rcases mem_laneItems_modifyWorker hx with hx | ⟨wk', hwk', hx⟩
      · exact hx
      · rw [hw] at hwk'
        obtain rfl := Option.some.inj hwk'
        rcases Worker.mem_queued_set hx with hx | hx
        · exact mem_laneItems_of_worker hw hx
        · simp [Lane.toList, Lane.empty] at hx
    obtain ⟨h1, h2⟩ := pushAll_lanes p _ _ hitems hrest
    exact ⟨(modifyWorker_lanesOnly w _).trans h1, h2⟩
  · exact Gathers.refl e

/-- A worker that leaves hands its items to the shared queues: no item comes in. -/
theorem handOver_gathers (w : WorkerId) : Gathers e (e.handOver w) := by
  rw [handOver_eq]
  exact Gathers.foldl (fun e p => handOverAt_gathers w p) _ e

end Engine

/-- The job of an entry handed to a timer, if it is a request. -/
def Entry.job? {α : Type} : Entry α → Option α
  | .request r => some r.job
  | .stop _ => none

namespace Timer

variable {α : Type}

/-- The jobs a timer holds: those handed in and those waiting to fire. -/
def jobs (t : Timer α) : List α := t.pending.filterMap Entry.job? ++ t.waiting.map Request.job

theorem mem_place {r r' : Request α} : ∀ {l : List (Request α)}, r' ∈ place r l → r' = r ∨ r' ∈ l
  | [], h => by simpa [place] using h
  | x :: rest, h => by
    unfold place at h
    split at h
    · simpa using h
    · simp only [List.mem_cons] at h
      rcases h with rfl | h
      · exact .inr List.mem_cons_self
      · exact (mem_place h).imp_right (List.mem_cons_of_mem _)

/-- The loop takes over only requests it was handed or already had. -/
theorem mem_takeOver : ∀ {es : List (Entry α)} {w w' : List (Request α)}, takeOver w es = .inl w' →
    ∀ r ∈ w', r ∈ w ∨ .request r ∈ es
  | [], w, w', h => by
    simp only [takeOver, Sum.inl.injEq] at h
    subst h
    exact fun r hr => .inl hr
  | .request r₀ :: rest, w, w', h => by
    simp only [takeOver] at h
    intro r hr
    rcases mem_takeOver h r hr with hr | hr
    · rcases mem_place hr with rfl | hr
      · exact .inr List.mem_cons_self
      · exact .inl hr
    · exact .inr (List.mem_cons_of_mem _ hr)
  | .stop _ :: _, _, _, h => by simp [takeOver] at h

/-- An iteration of the loop fires and keeps only jobs the timer held. -/
theorem jobs_advance (t : Timer α) (horizon : Int) :
    (∀ j ∈ (t.advance horizon).1.jobs, j ∈ t.jobs) ∧ ∀ j ∈ (t.advance horizon).2, j ∈ t.jobs := by
  have hw : ∀ {w : List (Request α)}, takeOver t.waiting t.pending = .inl w → ∀ j ∈ w.map Request.job, j ∈ t.jobs := by
    intro w hw j hj
    obtain ⟨r, hr, rfl⟩ := List.mem_map.mp hj
    simp only [jobs, List.mem_append, List.mem_filterMap, List.mem_map]
    rcases mem_takeOver hw r hr with hr | hr
    · exact .inr ⟨r, hr, rfl⟩
    · exact .inl ⟨_, hr, rfl⟩
  have hadv : t.advance horizon =
      ((t.loop horizon).1, (t.loop horizon).2.filterMap TimerEffect.job?) := rfl
  rw [hadv]
  unfold loop
  split
  · exact ⟨fun _ h => h, fun _ h => by simp at h⟩
  · split
    · rename_i w hto
      refine ⟨fun j hj => hw hto j ?_, fun j hj => hw hto j ?_⟩
      · simp only [jobs, List.filterMap_nil, List.nil_append] at hj
        exact List.map_subset _ (List.drop_subset _ _) hj
      · simp only [List.filterMap_map] at hj
        obtain ⟨r, hr, hj⟩ := List.mem_filterMap.mp hj
        simp only [Function.comp_apply, TimerEffect.job?, Option.some.injEq] at hj
        exact hj ▸ List.mem_map_of_mem ((List.takeWhile_sublist _).subset hr)
    · refine ⟨fun j hj => by simp [jobs] at hj, fun j hj => ?_⟩
      simp at hj

theorem jobs_addAfter {t t' : Timer α} {now delay : Int} {j : α} (h : t.addAfter now delay (some j) = .ok t') :
    ∀ x ∈ t'.jobs, x ∈ t.jobs ∨ x = j := by
  simp only [addAfter, addAt] at h
  split at h
  · cases h
  · obtain rfl := Except.ok.inj h
    intro x hx
    simp only [jobs, List.filterMap_append, List.mem_append, List.filterMap_cons, List.filterMap_nil,
      Entry.job?, List.mem_singleton] at hx ⊢
    rcases hx with (hx | rfl) | hx
    · exact .inl (.inl hx)
    · exact .inr rfl
    · exact .inl (.inr hx)

theorem jobs_shutdown {t t' : Timer α} {n : Bool} (h : t.shutdown n = .ok t') : t'.jobs = t.jobs := by
  simp only [shutdown, shutdownWith] at h
  split at h
  · cases h
  · simp only [Except.map] at h
    obtain rfl := Except.ok.inj h
    split <;> simp [jobs, Entry.job?]

end Timer

end Courier.Dispatch
