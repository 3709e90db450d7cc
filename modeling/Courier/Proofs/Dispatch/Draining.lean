import Courier.Proofs.Dispatch.Posting

/-!
# Draining keeps the drain ledger

A worker runs a drain of a serial queue by taking, one at a time, the items the queue held when
the drain began, and running each in the queue's scope: a task through its effects, and a drain
of another queue (the queue is then that queue's lane) by draining that queue inside this one.
Afterwards the queue is marked idle and, if work came in and it is not suspended, triggered again.

- `Ledger.perform`, `Ledger.execute`, `Ledger.observe`: a task's effects keep the ledger; a task
  may post work, ask a context to run, move a context, or make a new context with its queue;
- `Ledger.take`: a drain takes the next item of its queue, and a drain among them starts running;
- `Ledger.drainItems`, `Ledger.drainWith`: a drain that runs its items with a runner keeping the
  ledger ends with its own drain no longer outstanding;
- `Ledger.runJob`: running an item keeps the ledger, as long as the nesting fuel and the drains
  already running together exceed the number of serial queues the step began with.
-/

set_option autoImplicit false

namespace Courier.Dispatch

open Courier.Queue

theorem Item.drainOf_of_internal {it : Item} (h : it.internal = false) : it.drainOf = none := by
  unfold Item.internal at h
  unfold Item.drainOf
  split at h <;> simp_all

namespace Ledger

variable {n : Nat} {W : List Nat} {R : Running} {extra : List Item} {e : Engine}

/-! ## The effects of tasks -/

theorem modifyContext (h : Ledger W n R extra e) (c : Nat) (f : Context → Context) :
    Ledger W n R extra (e.modifyContext c f) :=
  h.of_eq rfl rfl rfl rfl

theorem chooseWorker (h : Ledger W n R extra e) (scope : Scope) :
    Ledger W n R extra (e.chooseWorker scope).2 := by
  rcases e.chooseWorker_snd scope with he | he <;> rw [he]
  · exact h
  · exact h.of_eq rfl rfl rfl rfl

/-- Moving a context points its queue at the new owner's own queue. -/
theorem assignTo (h : Ledger W n R extra e) (c w : Nat) : Ledger W n R extra (e.assignTo c w) := by
  unfold Engine.assignTo
  split
  · rename_i ctx _
    split
    · exact h
    · have hr : Retargets fun s : Serial => { s with target := .thread (.pool w) s.prio } :=
        fun _ => ⟨rfl, rfl, rfl, rfl, .inr ⟨_, _, rfl⟩⟩
      exact ((h.modifyContext c _).retarget hr ctx.queue).of_eq rfl rfl rfl rfl
  · exact h

theorem observe (h : Ledger W n R extra e) (c : Nat) (it : Item) : Ledger W n R extra (e.observe c it) := by
  unfold Engine.observe
  split
  · exact h
  · simp only
    split
    · exact ((h.modifyContext c _).assignTo c _).of_eq rfl rfl rfl rfl
    · exact h.modifyContext c _

theorem requestDispatch (h : Ledger W n R extra e) (scope : Scope) (c : Nat) :
    Ledger W n R extra (e.requestDispatch scope c) := by
  unfold Engine.requestDispatch
  split
  · split
    · split
      · exact h
      · exact (h.modifyContext c _).dispatchAsync scope _ _
    · exact h
  · exact h

/-- A new context brings a fresh serial queue on its owner's own queue. -/
theorem register (h : Ledger W n R extra e) (scope : Scope) (label : String) (fn : Option Task)
    (options : QueueOptions) : Ledger W n R extra (e.register scope label fn options).2 := by
  unfold Engine.register
  have hc := h.chooseWorker scope
  generalize e.chooseWorker scope = p at hc ⊢
  obtain ⟨r, e1⟩ := p
  cases r with
  | error f => exact hc
  | ok w =>
    exact hc.pushSerial rfl rfl rfl rfl rfl rfl rfl (Int32.le_refl 0)
      fun _ => QueueRef.noConfusion

/-- Running a task's effects keeps the ledger, whether the task fails or not. -/
theorem perform (scope : Scope) :
    ∀ (t : Task) {e : Engine}, Ledger W n R extra e → Ledger W n R extra (e.perform scope t).1
  | .seq a b, e, h => by
    have ha := perform scope a h
    simp only [Engine.perform]
    split
    · rename_i heq; rw [heq] at ha; exact ha
    · rename_i heq; rw [heq] at ha; exact perform scope b ha
  | .request c, _, h => h.requestDispatch scope c
  | .post q t, _, h => h.dispatchAsync scope q t
  | .register _ label fn opts, _, h => (h.register scope label fn opts).of_eq rfl rfl rfl rfl
  | .noop, _, h | .fail _, _, h => h
  | .log _ _, _, h | .add _ _, _, h | .probe _, _, h | .cancel _, _, h | .closeTracker _, _, h
  | .clearPending _, _, h => h.of_eq rfl rfl rfl rfl

theorem execute (h : Ledger W n R extra e) (scope : Scope) (it : Item) :
    Ledger W n R extra (e.execute scope it) := by
  unfold Engine.execute
  split
  · rename_i t _
    have ht := h.perform scope t
    split
    · rename_i heq; rw [heq] at ht; exact ht.of_eq rfl rfl rfl rfl
    · rename_i heq; rw [heq] at ht; exact ht
  · rename_i t _
    exact (h.perform scope t).of_eq rfl rfl rfl rfl
  · exact h

/-! ## One drain -/

/-- A queue with a running drain exists and is triggered. -/
theorem running_serial (h : Ledger W n R extra e) {id : Nat} (hid : id ∈ R.ids) :
    ∃ s, e.serials[id]? = some s ∧ s.triggered = true := by
  have hpos : 0 < R.ids.count id := List.count_pos_iff.mpr hid
  cases hs : e.serials[id]? with
  | none => have := h.absent id hs; simp only [Engine.outstanding] at this; omega
  | some s =>
    refine ⟨s, rfl, ?_⟩
    have := h.drains id s hs
    simp only [Engine.outstanding, Serial.pending] at this
    split at this
    · assumption
    · omega

/-- A running drain of `id` takes the next item of its queue; the item, if a drain, starts
running inside it. -/
theorem take {id done : Nat} (h : Ledger W n ((id, done) :: R) extra e) {s : Serial}
    (hs : e.serials[id]? = some s) {it : Item} {rest : Linked Item}
    (hp : s.tasks.pop = (some it, rest)) :
    Ledger W n (Running.start it ((id, done + 1) :: R)) extra
      (e.modifySerial id fun s => { s with tasks := rest }) := by
  have htl : s.tasks.toList = it :: rest.toList := by
    have h1 := Linked.pop_fst s.tasks
    have h2 := Linked.toList_pop s.tasks
    rw [hp] at h1 h2
    cases hl : s.tasks.toList with
    | nil => rw [hl] at h1; simp at h1
    | cons a l => rw [hl] at h1 h2; simp only [List.head?_cons, Option.some.injEq] at h1; simp_all
  have hsz := h.size id s hs
  have hmem : id ∈ (Running.start it ((id, done + 1) :: R)).ids :=
    Running.mem_start.mpr (.inr (by simp))
  refine h.modifyRunning hs ⟨fun x => ?_, fun x hx => ?_, fun x hx hne => ?_, fun x hx => ?_, ?_,
    h.suspension id s hs, h.target id s hs, h.young id s hs,
    fun it' hm => h.inner id s hs it' (by simp [htl, hm])⟩ fun _ hR => absurd hmem hR
  · simp only [htl, Running.count_start, drainCount_cons, Running.ids_cons, List.count_cons,
      Serial.pending]
    omega
  · simp [Ne.symm hx]
  · exact Running.mem_start.mpr (.inr (by simp_all))
  · rcases Running.mem_start.mp hx with hx | hx
    · exact h.inner id s hs it (by simp [htl]) x hx
    · exact h.running x (by simpa using hx)
  · simp only [htl, List.length_cons, Running.taken_start, Running.taken_cons, if_true] at hsz ⊢
    omega

end Ledger

/-- Running an item with `run`, in any scope, ends what it starts when `k` drains already run:
a drain it starts no longer runs afterwards, and the ledger holds. -/
def RunOk (W : List Nat) (run : Scope → Item → Engine → Engine) (n k : Nat) : Prop :=
  ∀ (R : Running) (scope : Scope) (it : Item) (e : Engine), R.length = k →
    Ledger W n (R.start it) [] e → Ledger W n R [] (run scope it e)

namespace Ledger

variable {n : Nat} {W : List Nat} {R : Running} {e : Engine}

/-- A drain that runs the items it takes with a runner that ends what it starts keeps the
ledger; the count of items it took is the one its drain carries. -/
theorem drainItems {run : Scope → Item → Engine → Engine} (hrun : RunOk W run n (R.length + 1))
    (qscope : Scope) (id : Nat) :
    ∀ (k : Nat) {e : Engine} {done : Nat}, Ledger W n ((id, done) :: R) [] e →
      Ledger W n ((id, (Engine.drainItems run qscope id k e done).2) :: R) []
        (Engine.drainItems run qscope id k e done).1
  | 0, _, _, h => h
  | k + 1, e, done, h => by
    unfold Engine.drainItems
    split
    · exact h
    · rename_i s hs
      split
      · exact h
      · split
        · exact h
        · rename_i it rest hp
          have h1 := h.take hs hp
          refine drainItems hrun qscope id k ?_
          split
          · exact hrun _ qscope it _ (by simp) h1
          · rename_i hi
            rw [Running.start_of_none (Item.drainOf_of_internal (Bool.eq_false_iff.mpr hi))] at h1
            refine Ledger.execute ?_ qscope it
            split
            · exact h1.observe _ it
            · exact h1

/-- A drain binds its queue to the worker that runs it, when the queue asks for that: only a
retargeting. -/
theorem pin (h : Ledger W n R [] e) (id : Nat) (s : Serial) (scope : Scope) :
    Ledger W n R [] (match scope.worker with
      | some w =>
        if s.options.stickToDrainer && !s.pinned then
          e.modifySerial id fun s => { s with pinned := true, target := .thread w s.prio }
        else e
      | none => e) := by
  split
  · rename_i w _
    split
    · have hr : Retargets fun s : Serial => { s with pinned := true, target := .thread w s.prio } :=
        fun _ => ⟨rfl, rfl, rfl, rfl, .inr ⟨_, _, rfl⟩⟩
      exact h.retarget hr id
    · exact h
  · exact h

/-- A drain ends: it no longer runs, its queue is idle with the items it took off the size, and
the queue is triggered again if it has work and no suspension. -/
theorem finish {id done : Nat} (h : Ledger W n ((id, done) :: R) [] e) (scope : Scope) :
    Ledger W n R [] (
      let e := e.modifySerial id fun s => { s with size := s.size - done, triggered := false }
      match e.serials[id]? with
      | some s => if 0 < s.size && s.suspended == 0 then e.trigger scope id else e
      | none => e) := by
  obtain ⟨s, hs, htr⟩ := h.running_serial (show id ∈ Running.ids ((id, done) :: R) by simp)
  have hsz := h.size id s hs
  -- no other drain of the queue runs further out
  have hR : R.ids.count id = 0 := by have := h.count_le_one id; simp at this; omega
  have hc : Change W n ((id, done) :: R) [] e id s
      (fun s => { s with size := s.size - done, triggered := false }) R [] := by
    refine ⟨fun x => ?_, fun x hx => ?_, fun x hx hne => ?_, fun x hx => h.running x (by simp [hx]),
      ?_, h.suspension id s hs, h.target id s hs, h.young id s hs, h.inner id s hs⟩
    · by_cases hx : x = id
      · subst hx; simp [Serial.pending, htr, hR]
      · simp [hx, Ne.symm hx]
    · simp [Ne.symm hx]
    · simpa [hne] using hx
    · simp only [Running.taken_cons, if_true] at hsz ⊢
      omega
  have hs1 : (e.modifySerial id fun s => { s with size := s.size - done, triggered := false }).serials[id]? =
      some { s with size := s.size - done, triggered := false } := by
    simp [Array.getElem?_modify, hs]
  simp only
  rw [hs1]
  simp only
  split
  · exact h.modifyRunning_trigger hs hc scope
  · rename_i hcond
    refine h.modifyRunning hs hc fun _ _ hpos hsus => absurd ?_ hcond
    simp only at hpos hsus
    simp only [hsus, beq_self_eq_true, Bool.and_true, decide_eq_true_eq]
    exact hpos

/-- A drain whose runner ends what it starts keeps the ledger and is over when it returns. -/
theorem drainWith {run : Scope → Item → Engine → Engine} (hrun : RunOk W run n (R.length + 1))
    {id : Nat} (h : Ledger W n ((id, 0) :: R) [] e) (scope : Scope) :
    Ledger W n R [] (e.drainWith run scope id) := by
  obtain ⟨s, hs, -⟩ := h.running_serial (show id ∈ Running.ids ((id, 0) :: R) by simp)
  have h2 := drainItems hrun { scope with queue := some (.serial id), pooled := s.pooled <|> scope.pooled }
    id s.size.toNat (h.pin id s scope)
  unfold Engine.drainWith
  rw [hs]
  simp only
  exact h2.finish scope

/-- Running an item keeps the ledger when the nesting fuel and the drains already running
together exceed the number of serial queues the step began with: the drains running inside one
another are of distinct queues, so the fuel never runs out under a drain. -/
theorem runJob : ∀ (fuel k : Nat), n < fuel + k → RunOk W (Engine.runJob fuel) n k
  | 0, k, hk => by
    intro R scope it e hR h
    cases hx : it.drainOf with
    | none => rw [Running.start_of_none hx] at h; exact h
    | some x =>
      -- no drain can start here: it would be one more running drain than there are queues
      have hl := h.length_le
      rw [Running.start_of_some hx] at hl
      simp only [List.length_cons] at hl
      omega
  | fuel + 1, k, hk => by
    intro R scope it e hR h
    obtain ⟨job, c, x⟩ := it
    cases job with
    | drain id =>
      rw [Running.start_of_some rfl] at h
      have hrun : RunOk W (Engine.runJob fuel) n (R.length + 1) := by
        rw [hR]; exact runJob fuel (k + 1) (by omega)
      exact drainWith hrun h scope
    | pill w =>
      rw [Running.start_of_none rfl] at h
      simp only [Engine.runJob]
      split
      · exact h.modifyWorker _ fun _ => rfl
      · exact h
    | task t =>
      rw [Running.start_of_none rfl] at h
      simp only [Engine.runJob]
      exact h.execute scope _
    | member slot t =>
      rw [Running.start_of_none rfl] at h
      simp only [Engine.runJob]
      exact h.execute scope _

end Ledger

end Courier.Dispatch
