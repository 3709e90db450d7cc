import Courier.Proofs.Dispatch.Ledger

/-!
# Posting keeps the drain ledger

A post to a serial queue adds the item to its task list and, unless the queue is suspended or
already triggered, triggers it and posts its drain to its target, and so on along the chain of
targets. Each queue triggered on the way was idle before, so the chain stops within as many hops
as there are idle queues (`Engine.untriggered`), which is what the hop bound of `postWithin` allows.

- `Ledger.postWithin`: posting an item being posted puts it in a queue and keeps the ledger;
- `Ledger.postDrain`: the drain of a queue that was just triggered may be posted to its target;
- `Ledger.post`, `Ledger.dispatchAsync`, `Ledger.trigger`: the engine's own entry points.
-/

set_option autoImplicit false

namespace Courier.Dispatch

open Courier.Queue

theorem retargets_id : Retargets fun s => s := fun _ => ⟨rfl, rfl, rfl, rfl, .inl rfl⟩

@[simp] theorem Item.drainOf_withCaller (it : Item) (c : Option Nat) (x : Option Nat) :
    ({ it with caller := c, callerCtx := x } : Item).drainOf = it.drainOf := rfl

namespace Ledger

variable {n : Nat} {W : List Nat} {R : Running} {extra : List Item} {e : Engine} {q : QueueRef} {it : Item}

/-- Where a serial queue posts an item from `scope`, it first follows its caller if it is asked to:
either way the queue is at most pointed at a worker's own queue. -/
theorem exists_follow (e : Engine) (scope : Scope) (id : Nat) (s : Serial) :
    ∃ r, Retargets r ∧
      (if s.options.stickToCaller then e.followCaller scope id else e) = e.modifySerial id r := by
  split
  · exact ⟨_, retargets_follow scope, e.followCaller_eq scope id⟩
  · exact ⟨_, retargets_id, (e.modifySerial_id id).symm⟩

/-- Posting an item puts it in a queue and keeps the ledger, given enough hops. -/
theorem postWithin : ∀ (hops : Nat) {e : Engine} {extra : List Item} {scope : Scope}
    {q : QueueRef} {it : Item}, Ledger W n R (it :: extra) e → Deliverable n e q it →
    e.untriggered < hops → Ledger W n R extra (e.postWithin hops scope q it)
  | _, _, _, _, .global p, _, h, _, _ => by simp only [Engine.postWithin]; exact h.pushGlobal p
  | _, _, _, scope, .thread w p, _, h, _, _ => by
    simp only [Engine.postWithin]; exact h.pushThread scope w p
  | 0, _, _, _, .serial _, _, _, _, hU => absurd hU (Nat.not_lt_zero _)
  | hops + 1, e, extra, scope, .serial id, it, h, hd, hU => by
    simp only [Engine.postWithin]
    cases hs : e.serials[id]? with
    | none =>
      -- only a drain needs its queue to exist, so the item dropped here is none
      refine h.drop ?_
      cases hx : it.drainOf with
      | none => rfl
      | some x =>
        have := (hd x hx).1
        simp [Engine.validRef] at this hs
        omega
    | some s =>
      simp only
      obtain ⟨r, hr, he1⟩ := exists_follow e scope id s
      rw [he1]
      have hit : (if s.pooled.isSome && !it.internal then
          { it with caller := scope.poolWorker, callerCtx := scope.pooled } else it).drainOf =
          it.drainOf := by split <;> rfl
      generalize (if s.pooled.isSome && !it.internal then
          { it with caller := scope.poolWorker, callerCtx := scope.pooled } else it) = it' at hit ⊢
      obtain ⟨ht, hsz, htr, hsu, htg⟩ := hr s
      have h1 := h.retarget hr id
      have hs1 : (e.modifySerial id r).serials[id]? = some (r s) := by simp [Array.getElem?_modify, hs]
      have hd1 : Deliverable n (e.modifySerial id r) (.serial id) it := by
        simpa [Deliverable] using hd
      split
      · rename_i hsus
        unfold Engine.triggerWith
        simp only [Engine.serials_modifySerial, Array.getElem?_modify, if_true, hs, Option.map_some]
        split
        · rename_i htrig
          exact h1.enqueue hs1 hd1 hit (fun _ _ => htrig)
        · rename_i htrig
          have h2 := h1.enqueue_flag hs1 hd1 hit (Bool.eq_false_iff.mpr htrig)
          refine postWithin hops h2 (fun x hx => ?_) ?_
          · simpa [Deliverable] using h1.deliverable_drain hs1 x hx
          · have hu1 := e.untriggered_of_triggered id (fun s => (hr s).2.2.1)
            have hu2 := (e.modifySerial id r).untriggered_of_triggered id
              (f := fun s => { s with tasks := s.tasks.push it', size := s.size + 1 }) (fun _ => rfl)
            have hs2 : ((e.modifySerial id r).modifySerial id
                fun s => { s with tasks := s.tasks.push it', size := s.size + 1 }).serials[id]? =
                some { r s with tasks := (r s).tasks.push it', size := (r s).size + 1 } := by
              simp [Array.getElem?_modify, hs]
            have hu3 := Engine.untriggered_flag _ hs2 (Bool.eq_false_iff.mpr htrig)
            omega
      · rename_i hsus
        exact h1.enqueue hs1 hd1 hit (fun _ hz => absurd (hsu ▸ hz) (by simpa using hsus))

theorem post (h : Ledger W n R (it :: extra) e) (hd : Deliverable n e q it) (scope : Scope) :
    Ledger W n R extra (e.post scope q it) :=
  postWithin _ h hd (Nat.lt_succ_of_le e.untriggered_le)

/-- Posting a task keeps the ledger. -/
theorem dispatchAsync (h : Ledger W n R extra e) (scope : Scope) (q : QueueRef) (t : Task) :
    Ledger W n R extra (e.dispatchAsync scope q t) :=
  (h.cons rfl : Ledger W n R (⟨.task t, none, none⟩ :: extra) e).post (fun _ hx => by simp at hx) scope

/-- Changing a serial queue as `Change` allows and then triggering it keeps the ledger, whether
or not the queue has work: the trigger leaves it triggered. -/
theorem modifyRunning_trigger (h : Ledger W n R extra e) {id : Nat} {s : Serial} {f : Serial → Serial}
    {R' : Running} {extra' : List Item} (hs : e.serials[id]? = some s)
    (hc : Change W n R extra e id s f R' extra') (scope : Scope) :
    Ledger W n R' extra' ((e.modifySerial id f).trigger scope id) := by
  have hs1 : (e.modifySerial id f).serials[id]? = some (f s) := by simp [Array.getElem?_modify, hs]
  unfold Engine.trigger Engine.triggerWith
  rw [hs1]
  simp only
  split
  · rename_i ht
    exact h.modifyRunning hs hc fun _ _ _ _ => ht
  · rename_i ht
    -- the flag is raised together with the change, and the drain is then being posted
    have hc2 : Change W n R extra e id s ((fun s => { s with triggered := true }) ∘ f) R'
        (⟨.drain id, none, none⟩ :: extra') := by
      refine ⟨fun x => ?_, hc.taken, hc.sub, hc.running, hc.size, hc.suspension, hc.target, hc.young,
        hc.inner⟩
      have hx' := hc.count x
      by_cases hx : x = id
      · subst hx
        simp only [if_true, Serial.pending, ht, Function.comp, drainCount_cons, Item.drainOf_mk] at hx' ⊢
        simp only [Bool.false_eq_true, if_false] at hx' ⊢
        omega
      · simp only [hx, if_false, Function.comp, drainCount_cons, Item.drainOf_mk] at hx' ⊢
        simp only [Option.some.injEq, Ne.symm hx, if_false] at hx' ⊢
        omega
    have h2 := h.modifyRunning hs hc2 fun _ _ _ _ => rfl
    rw [← Engine.modifySerial_modifySerial] at h2
    have hu := Engine.untriggered_flag (e.modifySerial id f) hs1 (Bool.eq_false_iff.mpr ht)
    have hle := (e.modifySerial id f).untriggered_le
    refine postWithin _ h2 (fun x hx => ?_) (by omega)
    simpa [Deliverable] using h2.deliverable_drain (s := { f s with triggered := true })
      (by simp [Array.getElem?_modify, hs]) x hx

end Ledger

namespace Engine

/-- The serial queue `id`, where it exists, is triggered. -/
def TriggeredAt (e : Engine) (id : Nat) : Prop := ∀ s, e.serials[id]? = some s → s.triggered = true

theorem TriggeredAt.modifySerial {e : Engine} {id : Nat} (h : e.TriggeredAt id) (t : Nat)
    {f : Serial → Serial} (hf : ∀ s, s.triggered = true → (f s).triggered = true) :
    (e.modifySerial t f).TriggeredAt id := by
  intro s hs
  rw [serials_modifySerial, Array.getElem?_modify] at hs
  split at hs
  · obtain ⟨s₀, h₀, rfl⟩ := Option.map_eq_some_iff.mp hs
    exact hf s₀ (h s₀ h₀)
  · exact h s hs

/-- Posting never lowers a serial queue's trigger flag: along the chain of targets it only adds
items and raises flags. -/
theorem TriggeredAt.postWithin {id : Nat} :
    ∀ (hops : Nat) {e : Engine} (scope : Scope) (q : QueueRef) (it : Item), e.TriggeredAt id →
      (e.postWithin hops scope q it).TriggeredAt id
  | hops, _, _, .global p, it, h => by cases hops <;> exact h
  | hops, e, scope, .thread w p, it, h => by
    have hs : (e.postWithin hops scope (.thread w p) it).serials = e.serials := by
      cases hops <;> (unfold Engine.postWithin Engine.pushThread; split; rfl; split <;> (cases w <;> rfl))
    intro s hs'
    rw [hs] at hs'
    exact h s hs'
  | 0, _, _, .serial _, _, h => h
  | hops + 1, e, scope, .serial t, it, h => by
    simp only [Engine.postWithin]
    cases ht : e.serials[t]? with
    | none => exact h
    | some s =>
      dsimp only
      obtain ⟨r, hr, hfollow⟩ := Ledger.exists_follow e scope t s
      rw [hfollow]
      generalize (if s.pooled.isSome && !it.internal then
          { it with caller := scope.poolWorker, callerCtx := scope.pooled } else it) = it'
      have h₁ := (h.modifySerial t fun s' hs' => ((hr s').2.2.1).trans hs').modifySerial t
        (f := fun s => { s with tasks := s.tasks.push it', size := s.size + 1 }) fun _ hs' => hs'
      split
      · -- the queue's own drain goes on along the chain, which raises flags only
        unfold Engine.triggerWith
        split
        · split
          · exact h₁
          · exact TriggeredAt.postWithin hops scope _ _ (h₁.modifySerial t fun _ _ => rfl)
        · exact h₁
      · exact h₁

/-- A trigger leaves its queue triggered. -/
theorem triggeredAt_trigger (e : Engine) (scope : Scope) (id : Nat) : (e.trigger scope id).TriggeredAt id := by
  unfold trigger triggerWith
  cases hs : e.serials[id]? with
  | none => intro s hs'; simp [hs] at hs'
  | some s =>
    dsimp only
    split
    · intro s' hs'
      rw [hs] at hs'
      obtain rfl := Option.some.inj hs'
      assumption
    · refine TriggeredAt.postWithin _ scope _ _ fun s' hs' => ?_
      rw [serials_modifySerial, Array.getElem?_modify, if_pos rfl, hs] at hs'
      obtain rfl := Option.some.inj hs'
      rfl

end Engine

end Courier.Dispatch
