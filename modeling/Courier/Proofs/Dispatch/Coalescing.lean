import Courier.Proofs.Dispatch.Lanes
import Courier.Proofs.Dispatch.Disposal
import Courier.Proofs.Dispatch.Shutdown

/-!
# Requests to run a context coalesce

A context runs its dispatchable on request. A request marks the context pending and posts one
run to the context's serial queue, unless a run is pending already, the context is closed, or it
has nothing to run. The run clears the pending mark as it starts, before the dispatchable runs, so
a request made while it runs queues the next one.

- `Task.clearsPending`, `Item.runOf?`, `runsOf`: the tasks that clear a pending mark, and the runs
  of a context among a list of items. Only the engine builds a run; every task a caller hands it
  clears nothing (`Traced.PlainCall`).
- `Engine.Coalesced e d`: every item outside the serial queues, every disposer and every timer job
  clears nothing; a serial queue holds, besides such items, only runs of its own contexts; and a
  context has one run queued exactly while it is pending. The debt `d` is the context whose run
  was just taken from its queue and has not yet cleared the mark.
- One lemma per function of the engine, from posting and draining to the calls, shows what it
  keeps; `Traced.PlainCall.coalesced` gathers them, and `Engine.PlainHistory.requests_coalesce`
  draws the consequences along every run: at most one run queued, the runs started matching the
  runs queued through the order of the serial queue, a request never lost, and none after closing.
-/

set_option autoImplicit false

namespace Courier.Dispatch

open Courier.Queue

/-! ## Tasks that clear a pending request -/

/-- Whether running a task may clear a context's pending request. Only the engine writes such a
task: the run of a context's dispatchable. -/
def Task.clearsPending : Task → Bool
  | .seq a b => a.clearsPending || b.clearsPending
  | .post _ t => t.clearsPending
  | .register _ _ (some fn) _ => fn.clearsPending
  | .clearPending _ => true
  | _ => false

namespace Item

/-- Whether running an item may clear a context's pending request. -/
def clearsPending (it : Item) : Bool :=
  match it.job with
  | .task t | .member _ t => t.clearsPending
  | .drain _ | .pill _ => false

/-- The context whose dispatchable an item runs: the engine's task that clears the context's
pending request and then runs a dispatchable that clears none. -/
def runOf? (it : Item) : Option Nat :=
  match it.job with
  | .task (.seq (.clearPending c) fn) => if fn.clearsPending then none else some c
  | _ => none

theorem runOf?_eq_some {it : Item} {c : Nat} :
    it.runOf? = some c ↔ ∃ fn, it.job = .task (.seq (.clearPending c) fn) ∧ fn.clearsPending = false := by
  unfold runOf?
  split
  · rename_i c' fn hj
    rw [hj]
    constructor
    · intro h
      cases hf : fn.clearsPending <;> simp only [hf, Bool.false_eq_true, ↓reduceIte, reduceCtorEq,
        Option.some.injEq] at h
      exact ⟨fn, by rw [h], hf⟩
    · rintro ⟨fn', hj', hf'⟩
      simp only [Job.task.injEq, Task.seq.injEq, Task.clearPending.injEq] at hj'
      obtain ⟨rfl, rfl⟩ := hj'
      simp [hf']
  · rename_i hn
    simp only [reduceCtorEq, false_iff, not_exists, not_and]
    exact fun fn hj _ => hn c fn hj

theorem runOf?_of_clearsPending {it : Item} (h : it.clearsPending = false) : it.runOf? = none := by
  cases hr : it.runOf? with
  | none => rfl
  | some c =>
    obtain ⟨fn, hj, -⟩ := runOf?_eq_some.mp hr
    simp [clearsPending, hj, Task.clearsPending] at h

theorem internal_of_runOf? {it : Item} {c : Nat} (h : it.runOf? = some c) : it.internal = false := by
  obtain ⟨fn, hj, _⟩ := runOf?_eq_some.mp h
  simp [internal, hj]

end Item

/-- How many runs of context `c`'s dispatchable a list of items holds. -/
def runsOf (c : Nat) (l : List Item) : Nat := l.countP fun it => it.runOf? == some c

@[simp] theorem runsOf_nil (c : Nat) : runsOf c [] = 0 := rfl

theorem runsOf_cons (c : Nat) (it : Item) (l : List Item) :
    runsOf c (it :: l) = runsOf c l + if it.runOf? = some c then 1 else 0 := by
  simp [runsOf, List.countP_cons]

theorem runsOf_append (c : Nat) (l l' : List Item) : runsOf c (l ++ l') = runsOf c l + runsOf c l' := by
  simp [runsOf, List.countP_append]

theorem runsOf_cons_of_clearsPending (c : Nat) {it : Item} (h : it.clearsPending = false)
    (l : List Item) : runsOf c (it :: l) = runsOf c l := by
  simp [runsOf_cons, Item.runOf?_of_clearsPending h]

/-! ## The invariant -/

/-- What coalescing reads of a serial queue: its items and its disposer. -/
def Serial.held (s : Serial) : List Item × Option Task := (s.tasks.toList, s.disposer)

/-- What coalescing reads of a context: its dispatchable, its queue and whether a request is
pending. -/
def Context.request (ctx : Context) : Option Task × Nat × Bool := (ctx.dispatchable, ctx.queue, ctx.pending)

namespace Engine

/-- Requests to run a context are coalesced. No item in the shared or the workers' queues and no
task kept for later (a disposer, a dispatchable, a task handed to the timer) clears a pending
request; an item of a serial queue that does is the run of a context whose queue that is; and a
context's queue holds one run while the context's request is pending, none otherwise. A drain
that has just taken the run of context `d` from its queue, before the run clears the request,
counts it as waiting still. -/
structure Coalesced (e : Engine) (d : Option Nat) : Prop where
  lanes : ∀ it ∈ e.laneItems, it.clearsPending = false
  items : ∀ (q : Nat), ∀ it ∈ e.waiting q, it.clearsPending = false ∨
    ∃ c ctx, it.runOf? = some c ∧ e.contexts[c]? = some ctx ∧ ctx.queue = q
  disposers : ∀ (q : Nat) (s : Serial) (t : Task), e.serials[q]? = some s → s.disposer = some t →
    t.clearsPending = false
  timer : ∀ j ∈ e.timer.jobs, j.2.clearsPending = false
  queue : ∀ (c : Nat) (ctx : Context), e.contexts[c]? = some ctx → ctx.queue < e.serials.size
  dispatchable : ∀ (c : Nat) (ctx : Context) (fn : Task), e.contexts[c]? = some ctx →
    ctx.dispatchable = some fn → fn.clearsPending = false
  runs : ∀ (c : Nat) (ctx : Context), e.contexts[c]? = some ctx →
    runsOf c (e.waiting ctx.queue) + (if d = some c then 1 else 0) = if ctx.pending then 1 else 0

variable {e e' : Engine} {d : Option Nat}

theorem held_getElem? (h : e'.serials.map Serial.held = e.serials.map Serial.held) (q : Nat) :
    e'.serials[q]?.map Serial.held = e.serials[q]?.map Serial.held := by
  simpa using congrArg (·[q]?) h

theorem request_getElem? (h : e'.contexts.map Context.request = e.contexts.map Context.request) (c : Nat) :
    e'.contexts[c]?.map Context.request = e.contexts[c]?.map Context.request := by
  simpa using congrArg (·[c]?) h

theorem exists_request (h : e'.contexts.map Context.request = e.contexts.map Context.request)
    {c : Nat} {ctx' : Context} (h' : e'.contexts[c]? = some ctx') :
    ∃ ctx, e.contexts[c]? = some ctx ∧ ctx.request = ctx'.request := by
  have := request_getElem? h c
  rw [h'] at this
  cases hc : e.contexts[c]? with
  | none => simp [hc] at this
  | some ctx => exact ⟨ctx, rfl, by simpa [hc] using this.symm⟩

theorem waiting_of_held (h : e'.serials.map Serial.held = e.serials.map Serial.held) :
    e'.waiting = e.waiting := by
  funext q
  have := held_getElem? h q
  unfold waiting
  cases h1 : e'.serials[q]? <;> cases h2 : e.serials[q]? <;> simp_all [Serial.held]

/-- A change that brings into the shared and workers' queues only items that clear nothing, and
leaves the serial queues' items and disposers, the contexts' requests and the timer's jobs as
they were, keeps requests coalesced. -/
theorem Coalesced.frame (h : e.Coalesced d) (hl : ∀ it ∈ e'.laneItems, it.clearsPending = false)
    (hs : e'.serials.map Serial.held = e.serials.map Serial.held)
    (hc : e'.contexts.map Context.request = e.contexts.map Context.request)
    (ht : e'.timer.jobs = e.timer.jobs) : e'.Coalesced d := by
  have hw := waiting_of_held hs
  have hsize : e'.serials.size = e.serials.size := by simpa using congrArg Array.size hs
  refine ⟨hl, fun q it hit => ?_, fun q s' t hs' ht' => ?_, ht ▸ h.timer, fun c ctx' hc' => ?_,
    fun c ctx' fn hc' hf => ?_, fun c ctx' hc' => ?_⟩
  · rw [hw] at hit
    refine (h.items q it hit).imp_right fun ⟨c, ctx, hr, hctx, hq⟩ => ?_
    obtain ⟨ctx', hc', hreq⟩ := exists_request hc.symm hctx
    exact ⟨c, ctx', hr, hc', by simpa [Context.request, hq] using congrArg (·.2.1) hreq⟩
  · have := held_getElem? hs q
    rw [hs'] at this
    cases h2 : e.serials[q]? with
    | none => simp [h2] at this
    | some s =>
      simp only [h2, Option.map_some, Option.some.injEq, Serial.held, Prod.mk.injEq] at this
      exact h.disposers q s t h2 (this.2 ▸ ht')
  · obtain ⟨ctx, hctx, hreq⟩ := exists_request hc hc'
    have hq : ctx.queue = ctx'.queue := congrArg (·.2.1) hreq
    exact hsize ▸ hq ▸ h.queue c ctx hctx
  · obtain ⟨ctx, hctx, hreq⟩ := exists_request hc hc'
    have hfn : ctx.dispatchable = ctx'.dispatchable := congrArg (·.1) hreq
    exact h.dispatchable c ctx fn hctx (hfn.trans hf)
  · obtain ⟨ctx, hctx, hreq⟩ := exists_request hc hc'
    have hq : ctx.queue = ctx'.queue := congrArg (·.2.1) hreq
    have hp : ctx.pending = ctx'.pending := congrArg (·.2.2) hreq
    rw [hw, ← hq, ← hp]
    exact h.runs c ctx hctx

theorem map_modify_of {α β : Type} (a : Array α) (i : Nat) {f : α → α} {g : α → β}
    (hf : ∀ x, g (f x) = g x) : (a.modify i f).map g = a.map g := by
  apply Array.ext_getElem?
  intro j
  simp only [Array.getElem?_map, Array.getElem?_modify]
  split <;> cases a[j]? <;> simp [hf]

/-- A serial queue's items after one more is put at its end. -/
theorem waiting_push {id : Nat} {f : Serial → Serial} {it : Item}
    (hf : ∀ s, (f s).tasks.toList = s.tasks.toList ++ [it]) (q : Nat) :
    (e.modifySerial id f).waiting q =
      e.waiting q ++ if id = q ∧ (e.serials[q]?).isSome then [it] else [] := by
  rw [waiting_modifySerial]
  split
  · rename_i hq
    subst hq
    unfold waiting
    cases e.serials[id]? <;> simp [hf]
  · rename_i hq
    simp [hq]

theorem held_follow (scope : Scope) (s : Serial) : (Serial.follow scope s).held = s.held := by
  unfold Serial.follow
  split <;> rfl

theorem contexts_followCaller (scope : Scope) (id : Nat) :
    (e.followCaller scope id).contexts = e.contexts := by
  rw [followCaller_eq]
  rfl

namespace Coalesced

variable {e : Engine} {d : Option Nat}

/-- Items that move among the shared and workers' queues, where only items that clear nothing
come in, keep requests coalesced. -/
theorem lanesOnly {e' : Engine} (h : e.Coalesced d) (hle : LanesOnly e e')
    (hl : ∀ x ∈ e'.laneItems, x ∈ e.laneItems ∨ x.clearsPending = false) : e'.Coalesced d := by
  obtain ⟨g, m, ws, rfl⟩ := hle
  exact h.frame (fun x hx => (hl x hx).elim (h.lanes x) id) rfl rfl rfl

theorem gathers {e' : Engine} (h : e.Coalesced d) (hg : Gathers e e') : e'.Coalesced d :=
  h.lanesOnly hg.1 fun x hx => .inl (hg.2 x hx)

theorem pushGlobal (h : e.Coalesced d) (p : Priority) {it : Item} (hit : it.clearsPending = false) :
    (e.pushGlobal p it).Coalesced d :=
  h.lanesOnly (pushGlobal_lanesOnly p it) fun _ hx =>
    (mem_laneItems_pushGlobal hx).elim (fun h => .inr (h ▸ hit)) .inl

theorem pushThread (h : e.Coalesced d) (scope : Scope) (w : WorkerId) (p : Priority) {it : Item}
    (hit : it.clearsPending = false) : (e.pushThread scope w p it).Coalesced d :=
  h.lanesOnly (pushThread_lanesOnly scope w p it) fun _ hx =>
    (mem_laneItems_pushThread hx).elim (fun h => .inr (h ▸ hit)) .inl

theorem modifyWorker (h : e.Coalesced d) (w : WorkerId) {f : Worker → Worker}
    (hf : ∀ wk, (f wk).lanes = wk.lanes) : (e.modifyWorker w f).Coalesced d := by
  refine h.lanesOnly (modifyWorker_lanesOnly w f) fun x hx => .inl ?_
  rcases mem_laneItems_modifyWorker hx with hx | ⟨wk, hwk, hx⟩
  · exact hx
  · exact mem_laneItems_of_worker hwk (by simpa [Worker.queued, hf] using hx)

/-- A change of a serial queue that keeps its items and its disposer. -/
theorem modifySerial (h : e.Coalesced d) (id : Nat) {f : Serial → Serial}
    (hf : ∀ s, (f s).held = s.held) : (e.modifySerial id f).Coalesced d :=
  h.frame h.lanes (map_modify_of _ _ hf) rfl rfl

/-- A change of a context that keeps its dispatchable, its queue and its pending request. -/
theorem modifyContext (h : e.Coalesced d) (c : Nat) {f : Context → Context}
    (hf : ∀ ctx, (f ctx).request = ctx.request) : (e.modifyContext c f).Coalesced d :=
  h.frame h.lanes rfl (map_modify_of _ _ hf) rfl

/-- A serial queue takes one more item that clears nothing. -/
theorem pushSerial (h : e.Coalesced d) (id : Nat) {f : Serial → Serial} {it : Item}
    (hf : ∀ s, (f s).tasks.toList = s.tasks.toList ++ [it]) (hd : ∀ s, (f s).disposer = s.disposer)
    (hit : it.clearsPending = false) : (e.modifySerial id f).Coalesced d := by
  have hs : ∀ q, (e.modifySerial id f).serials[q]? = (e.serials[q]?).map fun s => if id = q then f s else s := by
    intro q
    simp only [serials_modifySerial, Array.getElem?_modify]
    split <;> cases e.serials[q]? <;> simp_all
  refine ⟨h.lanes, fun q x hx => ?_, fun q s' t hs' ht => ?_, h.timer, fun c ctx hc => ?_,
    h.dispatchable, fun c ctx hc => ?_⟩
  · rw [waiting_push hf, List.mem_append] at hx
    rcases hx with hx | hx
    · exact h.items q x hx
    · split at hx
      · exact .inl ((List.mem_singleton.mp hx) ▸ hit)
      · simp at hx
  · rw [hs] at hs'
    obtain ⟨s, hs0, rfl⟩ := Option.map_eq_some_iff.mp hs'
    refine h.disposers q s t hs0 ?_
    split at ht
    · rwa [hd] at ht
    · exact ht
  · simpa using h.queue c ctx hc
  · rw [waiting_push hf, runsOf_append]
    have : runsOf c (if id = ctx.queue ∧ (e.serials[ctx.queue]?).isSome then [it] else []) = 0 := by
      split
      · simp [runsOf_cons, Item.runOf?_of_clearsPending hit]
      · rfl
    rw [this, Nat.add_zero]
    exact h.runs c ctx hc

/-- The run of context `c` joins the context's queue: the request that was marked pending now
has its run waiting. -/
theorem pushRun {c : Nat} (h : e.Coalesced (some c)) {ctx : Context} (hc : e.contexts[c]? = some ctx)
    {f : Serial → Serial} {it : Item} (hf : ∀ s, (f s).tasks.toList = s.tasks.toList ++ [it])
    (hd : ∀ s, (f s).disposer = s.disposer) (hit : it.runOf? = some c) :
    (e.modifySerial ctx.queue f).Coalesced none := by
  have hs : ∀ q, (e.modifySerial ctx.queue f).serials[q]? =
      (e.serials[q]?).map fun s => if ctx.queue = q then f s else s := by
    intro q
    simp only [serials_modifySerial, Array.getElem?_modify]
    split <;> cases e.serials[q]? <;> simp_all
  have hex : (e.serials[ctx.queue]?).isSome := by
    simpa using h.queue c ctx hc
  refine ⟨h.lanes, fun q x hx => ?_, fun q s' t hs' ht => ?_, h.timer, fun c' ctx' hc' => ?_,
    h.dispatchable, fun c' ctx' hc' => ?_⟩
  · rw [waiting_push hf, List.mem_append] at hx
    rcases hx with hx | hx
    · exact h.items q x hx
    · split at hx
      · rename_i hq
        obtain rfl := List.mem_singleton.mp hx
        exact .inr ⟨c, ctx, hit, hc, hq.1⟩
      · simp at hx
  · rw [hs] at hs'
    obtain ⟨s, hs0, rfl⟩ := Option.map_eq_some_iff.mp hs'
    refine h.disposers q s t hs0 ?_
    split at ht
    · rwa [hd] at ht
    · exact ht
  · simpa using h.queue c' ctx' hc'
  · have hc'' : e.contexts[c']? = some ctx' := hc'
    have hold := h.runs c' ctx' hc''
    rw [waiting_push hf, runsOf_append]
    by_cases hcc : c' = c
    · -- the context itself: its run now waits
      subst hcc
      rw [hc] at hc''
      obtain rfl := Option.some.inj hc''
      simp only [hex, and_self, ↓reduceIte, runsOf_cons, hit, runsOf_nil] at hold ⊢
      simpa using hold
    · have hnot : runsOf c' (if ctx.queue = ctx'.queue ∧ (e.serials[ctx'.queue]?).isSome then [it] else []) = 0 := by
        split
        · simp [runsOf_cons, hit, Ne.symm hcc]
        · rfl
      have hne : ¬ (some c = some c') := fun h => hcc (Option.some.inj h).symm
      rw [hnot, if_neg hne] at *
      rw [if_neg (by simp)]
      exact hold

/-- A context's pending mark set or cleared, with the run waiting in its queue and the run being
started accounted for anew. -/
theorem setPending (h : e.Coalesced d) {c : Nat} {ctx : Context} (hc : e.contexts[c]? = some ctx)
    (b : Bool) {d' : Option Nat}
    (hrun : runsOf c (e.waiting ctx.queue) + (if d' = some c then 1 else 0) = if b then 1 else 0)
    (hother : ∀ c', c' ≠ c → (d' = some c' ↔ d = some c')) :
    (e.modifyContext c fun ctx => { ctx with pending := b }).Coalesced d' := by
  have hctx : ∀ c', (e.modifyContext c fun ctx => { ctx with pending := b }).contexts[c']? =
      (e.contexts[c']?).map fun ctx => if c = c' then { ctx with pending := b } else ctx := by
    intro c'
    rw [show (e.modifyContext c fun ctx => { ctx with pending := b }).contexts =
      e.contexts.modify c (fun ctx => { ctx with pending := b }) from rfl, Array.getElem?_modify]
    by_cases hcc : c = c'
    · subst hcc
      simp
    · simp only [hcc, ↓reduceIte, Option.map_id']
  refine ⟨h.lanes, fun q x hx => ?_, h.disposers, h.timer, fun c' ctx' hc' => ?_,
    fun c' ctx' fn hc' hf => ?_, fun c' ctx' hc' => ?_⟩
  · refine (h.items q x hx).imp_right fun ⟨c', ctx', hr, hc', hq⟩ => ?_
    refine ⟨c', _, hr, (hctx c').trans (by rw [hc']; rfl), ?_⟩
    split <;> exact hq
  all_goals
    rw [hctx] at hc'
    obtain ⟨ctx₀, hc₀, rfl⟩ := Option.map_eq_some_iff.mp hc'
  · split <;> exact h.queue c' ctx₀ hc₀
  · exact h.dispatchable c' ctx₀ fn hc₀ (by split at hf <;> exact hf)
  · have hw : (e.modifyContext c fun ctx => { ctx with pending := b }).waiting = e.waiting := rfl
    rw [hw]
    by_cases hcc : c = c'
    · subst hcc
      rw [hc] at hc₀
      obtain rfl := Option.some.inj hc₀
      simpa using hrun
    · have hold := h.runs c' ctx₀ hc₀
      have hd := hother c' (Ne.symm hcc)
      rw [if_neg hcc]
      by_cases hdc : d = some c'
      · rw [if_pos (hd.mpr hdc)]
        rw [if_pos hdc] at hold
        exact hold
      · rw [if_neg fun h => hdc (hd.mp h)]
        rw [if_neg hdc] at hold
        exact hold

/-- The front item taken off a serial queue, with the runs counted anew. -/
theorem dropFront (h : e.Coalesced d) {id : Nat} {s : Serial} (hs : e.serials[id]? = some s)
    {it : Item} {rest : Linked Item} (htasks : s.tasks.toList = it :: rest.toList) {d' : Option Nat}
    (hruns : ∀ c ctx, e.contexts[c]? = some ctx →
      runsOf c ((e.modifySerial id fun s => { s with tasks := rest }).waiting ctx.queue) +
        (if d' = some c then 1 else 0) = if ctx.pending then 1 else 0) :
    (e.modifySerial id fun s => { s with tasks := rest }).Coalesced d' := by
  have hw : ∀ q, (e.modifySerial id fun s => { s with tasks := rest }).waiting q =
      if id = q then rest.toList else e.waiting q := by
    intro q
    rw [waiting_modifySerial]
    split
    · rename_i hq
      subst hq
      simp [hs]
    · rfl
  refine ⟨h.lanes, fun q x hx => ?_, fun q s' t hs' ht => ?_, h.timer, fun c ctx hc => ?_,
    h.dispatchable, hruns⟩
  · rw [hw] at hx
    split at hx
    · rename_i hq
      subst hq
      exact h.items id x (by rw [waiting_self hs, htasks]; exact List.mem_cons_of_mem _ hx)
    · exact h.items q x hx
  · simp only [serials_modifySerial, Array.getElem?_modify] at hs'
    split at hs'
    · rename_i hq
      subst hq
      rw [hs] at hs'
      obtain rfl := Option.some.inj hs'
      exact h.disposers id s t hs ht
    · exact h.disposers q s' t hs' ht
  · simpa using h.queue c ctx hc

/-- A drain takes the front item of a serial queue: an item that clears nothing, or the run of
a context whose queue it is, which now starts. -/
theorem pop (h : e.Coalesced none) {id : Nat} {s : Serial} (hs : e.serials[id]? = some s)
    {it : Item} {rest : Linked Item} (hp : s.tasks.pop = (some it, rest)) :
    (it.clearsPending = false ∧ (e.modifySerial id fun s => { s with tasks := rest }).Coalesced none) ∨
      ∃ c, it.runOf? = some c ∧
        (e.modifySerial id fun s => { s with tasks := rest }).Coalesced (some c) := by
  have htasks : s.tasks.toList = it :: rest.toList := by
    have h1 := Linked.pop_fst s.tasks
    have h2 := Linked.toList_pop s.tasks
    rw [hp] at h1 h2
    cases hl : s.tasks.toList with
    | nil => simp [hl] at h1
    | cons x xs =>
      rw [hl] at h1 h2
      obtain rfl := Option.some.inj h1
      rw [h2]
      rfl
  have hw : ∀ q, (e.modifySerial id fun s => { s with tasks := rest }).waiting q =
      if id = q then rest.toList else e.waiting q := by
    intro q
    rw [waiting_modifySerial]
    split
    · rename_i hq
      subst hq
      simp [hs]
    · rfl
  have hfront : e.waiting id = it :: rest.toList := by rw [waiting_self hs, htasks]
  rcases h.items id it (by rw [hfront]; exact List.mem_cons_self) with hit | ⟨c, ctx, hr, hc, hq⟩
  · -- an item that clears nothing leaves every count as it was
    refine .inl ⟨hit, h.dropFront hs htasks fun c' ctx' hc' => ?_⟩
    rw [hw]
    have hold := h.runs c' ctx' hc'
    split
    · rename_i hq
      rw [← hq, hfront, runsOf_cons_of_clearsPending c' hit] at hold
      exact hold
    · exact hold
  · -- the run of `c` leaves the queue and is being started
    refine .inr ⟨c, hr, h.dropFront hs htasks fun c' ctx' hc' => ?_⟩
    rw [hw]
    have hold := h.runs c' ctx' hc'
    simp only [reduceCtorEq, ↓reduceIte, Nat.add_zero] at hold
    by_cases hcc : c' = c
    · subst hcc
      rw [hc] at hc'
      obtain rfl := Option.some.inj hc'
      rw [if_pos hq.symm, if_pos rfl, ← hold, hq, hfront, runsOf_cons, if_pos hr]
    · have hne : ¬ (some c = some c') := fun h => hcc (Option.some.inj h).symm
      rw [if_neg hne, Nat.add_zero]
      split
      · rename_i hq'
        rw [← hq', hfront, runsOf_cons, if_neg (by rw [hr]; exact hne)] at hold
        exact hold
      · exact hold

/-- A new serial queue with no items and no disposer. -/
theorem addSerial (h : e.Coalesced d) {s : Serial} (hs : s.tasks.toList = []) (hd : s.disposer = none) :
    { e with serials := e.serials.push s }.Coalesced d := by
  have hw : { e with serials := e.serials.push s }.waiting = e.waiting := waiting_of_push rfl hs
  refine ⟨h.lanes, fun q x hx => h.items q x (hw ▸ hx), fun q s' t hs' ht => ?_, h.timer,
    fun c ctx hc => Nat.lt_of_lt_of_le (h.queue c ctx hc) (by simp), h.dispatchable,
    fun c ctx hc => hw ▸ h.runs c ctx hc⟩
  simp only [Array.getElem?_push] at hs'
  split at hs'
  · obtain rfl := Option.some.inj hs'
    simp [hd] at ht
  · exact h.disposers q s' t hs' ht

/-- A new context, on a new serial queue, with no request pending and a dispatchable that clears
nothing. -/
theorem addContext (h : e.Coalesced none) {s : Serial} (hs : s.tasks.toList = [])
    (hsd : s.disposer = none) {ctx : Context} (hq : ctx.queue = e.serials.size)
    (hp : ctx.pending = false) (hfn : ∀ fn, ctx.dispatchable = some fn → fn.clearsPending = false) :
    { e with serials := e.serials.push s, contexts := e.contexts.push ctx }.Coalesced none := by
  have h1 := h.addSerial hs hsd
  have hw : { e with serials := e.serials.push s, contexts := e.contexts.push ctx }.waiting =
      e.waiting := waiting_of_push rfl hs
  have hctx : ∀ c ctx', { e with serials := e.serials.push s, contexts := e.contexts.push ctx }.contexts[c]? =
      some ctx' → e.contexts[c]? = some ctx' ∨ (c = e.contexts.size ∧ ctx' = ctx) := by
    intro c ctx' hc
    simp only [Array.getElem?_push] at hc
    split at hc
    · exact .inr ⟨‹_›, (Option.some.inj hc).symm⟩
    · exact .inl hc
  refine ⟨h.lanes, fun q x hx => ?_, h1.disposers, h.timer, fun c ctx' hc => ?_,
    fun c ctx' fn hc hf => ?_, fun c ctx' hc => ?_⟩
  · refine (h.items q x (hw ▸ hx)).imp_right fun ⟨c, ctx', hr, hc, hq'⟩ => ⟨c, ctx', hr, ?_, hq'⟩
    simp [Array.getElem?_push, hc, Nat.ne_of_lt (Array.getElem?_eq_some_iff.mp hc).1]
  all_goals rcases hctx c ctx' hc with hc | ⟨rfl, rfl⟩
  · exact h1.queue c ctx' hc
  · simp [hq]
  · exact h.dispatchable c ctx' fn hc hf
  · exact hfn fn hf
  · rw [hw]
    exact h.runs c ctx' hc
  · rw [hw, hp, hq]
    simp [waiting]

/-- A change of a serial queue's disposer to none or to a task that clears nothing. -/
theorem modifyDisposer (h : e.Coalesced d) (id : Nat) {f : Serial → Serial}
    (ht : ∀ s, (f s).tasks = s.tasks)
    (hd : ∀ s t, (f s).disposer = some t → t.clearsPending = false ∨ s.disposer = some t) :
    (e.modifySerial id f).Coalesced d := by
  have hw : (e.modifySerial id f).waiting = e.waiting := waiting_modifySerial_of_tasks id ht
  refine ⟨h.lanes, fun q x hx => h.items q x (hw ▸ hx), fun q s' t hs' ht' => ?_, h.timer,
    fun c ctx hc => by simpa using h.queue c ctx hc, h.dispatchable, fun c ctx hc => hw ▸ h.runs c ctx hc⟩
  simp only [serials_modifySerial, Array.getElem?_modify] at hs'
  split at hs'
  · obtain ⟨s, hs, rfl⟩ := Option.map_eq_some_iff.mp hs'
    exact (hd s t ht').elim (fun h => h) (h.disposers q s t hs)
  · exact h.disposers q s' t hs' ht'

/-- A new timer whose jobs are the old timer's or clear nothing. -/
theorem setTimer (h : e.Coalesced d) {t : Timer (QueueRef × Task)}
    (ht : ∀ j ∈ t.jobs, j ∈ e.timer.jobs ∨ j.2.clearsPending = false) :
    { e with timer := t }.Coalesced d :=
  ⟨h.lanes, h.items, h.disposers, fun j hj => (ht j hj).elim (h.timer j) id, h.queue,
    h.dispatchable, h.runs⟩

/-- A task handed to the timer that clears nothing. -/
theorem addAfter (h : e.Coalesced d) {now delay : Int} {q : QueueRef} {t : Task}
    {t' : Timer (QueueRef × Task)} (ha : e.timer.addAfter now delay (some (q, t)) = .ok t')
    (ht : t.clearsPending = false) : { e with timer := t' }.Coalesced d :=
  h.setTimer fun j hj => (Timer.jobs_addAfter ha j hj).elim .inl fun hj => .inr (by rw [hj]; exact ht)

/-- The request of a context that is not there clears nothing. -/
theorem of_missing {c : Nat} (h : e.Coalesced (some c)) (hc : e.contexts[c]? = none) :
    e.Coalesced none := by
  refine ⟨h.lanes, h.items, h.disposers, h.timer, h.queue, h.dispatchable, fun c' ctx hc' => ?_⟩
  have hne : ¬ (some c = some c') := by
    rintro ⟨⟩
    rw [hc] at hc'
    cases hc'
  simpa [hne] using h.runs c' ctx hc'

/-- The run of context `c`, taken from its queue, clears the pending request as it starts. -/
theorem clearPending {c : Nat} (h : e.Coalesced (some c)) :
    (e.modifyContext c fun ctx => { ctx with pending := false }).Coalesced none := by
  cases hc : e.contexts[c]? with
  | none =>
    have hsame : e.modifyContext c (fun ctx => { ctx with pending := false }) = e := by
      have : e.contexts.modify c (fun ctx => { ctx with pending := false }) = e.contexts := by
        apply Array.ext_getElem?
        intro j
        rw [Array.getElem?_modify]
        split
        · subst_vars
          simp [hc]
        · rfl
      simp only [Engine.modifyContext, this]
    rw [hsame]
    exact h.of_missing hc
  | some ctx =>
    have hold : runsOf c (e.waiting ctx.queue) + 1 = if ctx.pending then 1 else 0 := by
      simpa using h.runs c ctx hc
    have hnone : runsOf c (e.waiting ctx.queue) = 0 := by
      split at hold <;> omega
    refine h.setPending hc false (by simp [hnone]) fun c' hne => ?_
    exact ⟨fun h => (Option.some_ne_none c' h.symm).elim, fun h => absurd (Option.some.inj h).symm hne⟩

/-! ## Posting -/

theorem followCaller (h : e.Coalesced d) (scope : Scope) (id : Nat) :
    (e.followCaller scope id).Coalesced d := by
  rw [followCaller_eq]
  exact h.modifySerial id (held_follow scope)

theorem triggerWith {post : Engine → Scope → QueueRef → Item → Engine}
    (hpost : ∀ e scope q it, e.Coalesced d → it.clearsPending = false → (post e scope q it).Coalesced d)
    (h : e.Coalesced d) (scope : Scope) (id : Nat) : (e.triggerWith post scope id).Coalesced d := by
  unfold Engine.triggerWith
  split
  · split
    · exact h
    · exact hpost _ _ _ _ (h.modifySerial id fun _ => rfl) rfl
  · exact h

/-- Posting to a serial queue the engine has: the queue may first follow its caller, then takes
the item, marked with its caller when the queue is a context's, and a drain of it may follow. -/
theorem postSerial (h : e.Coalesced d) {d' : Option Nat} (hops : Nat) {id : Nat} {s : Serial}
    (hs : e.serials[id]? = some s) (scope : Scope) (it : Item)
    (hpush : ∀ e₁ : Engine, e₁.Coalesced d → e₁.contexts = e.contexts →
      (e₁.modifySerial id fun s' => { s' with
        tasks := s'.tasks.push (if s.pooled.isSome && !it.internal then
          { it with caller := scope.poolWorker, callerCtx := scope.pooled } else it)
        size := s'.size + 1 }).Coalesced d')
    (hpost : ∀ (e : Engine) (scope : Scope) (q : QueueRef) (it : Item), e.Coalesced d' →
      it.clearsPending = false → (e.postWithin hops scope q it).Coalesced d') :
    (e.postWithin (hops + 1) scope (.serial id) it).Coalesced d' := by
  simp only [Engine.postWithin, hs]
  have hpushed := hpush (if s.options.stickToCaller then e.followCaller scope id else e)
    (by split; exact h.followCaller scope id; exact h)
    (by split; exact contexts_followCaller scope id; rfl)
  split
  · exact triggerWith hpost hpushed scope id
  · exact hpushed

theorem postWithin : ∀ (hops : Nat) (e : Engine) (scope : Scope) (q : QueueRef) (it : Item),
    e.Coalesced d → it.clearsPending = false → (e.postWithin hops scope q it).Coalesced d
  | hops, e, _, .global p, it, h, hit => by cases hops <;> exact h.pushGlobal p hit
  | hops, e, scope, .thread w p, it, h, hit => by cases hops <;> exact h.pushThread scope w p hit
  | 0, e, _, .serial _, _, h, _ => h
  | hops + 1, e, scope, .serial id, it, h, hit => by
    cases hs : e.serials[id]? with
    | none => simp only [Engine.postWithin, hs]; exact h
    | some s =>
      refine h.postSerial hops hs scope it (fun e₁ h₁ _ => ?_)
        fun e scope q it h hit => postWithin hops e scope q it h hit
      exact h₁.pushSerial id (fun _ => Linked.toList_push _ _) (fun _ => rfl) (by split <;> exact hit)

theorem post (h : e.Coalesced d) (scope : Scope) (q : QueueRef) {it : Item}
    (hit : it.clearsPending = false) : (e.post scope q it).Coalesced d :=
  postWithin _ e scope q it h hit

theorem dispatchAsync (h : e.Coalesced d) (scope : Scope) (q : QueueRef) {t : Task}
    (ht : t.clearsPending = false) : (e.dispatchAsync scope q t).Coalesced d :=
  postWithin _ e scope q _ h ht

theorem trigger (h : e.Coalesced d) (scope : Scope) (id : Nat) : (e.trigger scope id).Coalesced d :=
  triggerWith (postWithin _) h scope id

/-- The run of context `c` is posted to the context's queue, settling the request just marked
pending. -/
theorem postRun {c : Nat} (h : e.Coalesced (some c)) {ctx : Context} (hc : e.contexts[c]? = some ctx)
    (hops : Nat) (scope : Scope) {it : Item} (hit : it.runOf? = some c) :
    (e.postWithin (hops + 1) scope (.serial ctx.queue) it).Coalesced none := by
  have hex : (e.serials[ctx.queue]?).isSome := by simpa using h.queue c ctx hc
  obtain ⟨s, hs⟩ := Option.isSome_iff_exists.mp hex
  refine h.postSerial hops hs scope it (fun e₁ h₁ hc₁ => ?_) (postWithin hops)
  exact h₁.pushRun (hc₁ ▸ hc) (fun _ => Linked.toList_push _ _) (fun _ => rfl) (by split <;> exact hit)

theorem requestDispatch (h : e.Coalesced none) (scope : Scope) (c : Nat) :
    (e.requestDispatch scope c).Coalesced none := by
  unfold Engine.requestDispatch
  split
  · rename_i ctx hc
    split
    · rename_i fn hfn
      split
      · exact h
      · rename_i hcp
        have hp : ctx.pending = false := by
          cases hpe : ctx.pending
          · rfl
          · simp [hpe] at hcp
        -- no run waits while no request is pending; marking it pending owes one
        have hold : runsOf c (e.waiting ctx.queue) = 0 := by simpa [hp] using h.runs c ctx hc
        have h1 : (e.modifyContext c fun ctx => { ctx with pending := true }).Coalesced (some c) :=
          h.setPending hc true (by simp [hold])
            fun c' hne => ⟨fun h => absurd (Option.some.inj h).symm hne,
              fun h => (Option.some_ne_none c' h.symm).elim⟩
        have hc1 : (e.modifyContext c fun ctx => { ctx with pending := true }).contexts[c]? =
            some { ctx with pending := true } := by
          simp [Engine.modifyContext, Array.getElem?_modify, hc]
        exact h1.postRun hc1 _ scope (Item.runOf?_eq_some.mpr ⟨fn, rfl, h.dispatchable c ctx fn hc hfn⟩)
    · exact h
  · exact h

theorem chooseWorker (h : e.Coalesced d) (scope : Scope) : (e.chooseWorker scope).2.Coalesced d := by
  rcases e.chooseWorker_snd scope with he | he <;> rw [he]
  · exact h
  · exact h.frame h.lanes rfl rfl rfl

/-- Registering a context whose dispatchable clears nothing. -/
theorem register (h : e.Coalesced none) (scope : Scope) (label : String) {fn : Option Task}
    (hfn : ∀ t, fn = some t → t.clearsPending = false) (options : QueueOptions) :
    (e.register scope label fn options).2.Coalesced none := by
  have hc := h.chooseWorker scope
  unfold Engine.register
  dsimp only
  generalize e.chooseWorker scope = r at hc
  obtain ⟨w, e₁⟩ := r
  cases w with
  | error f => exact hc
  | ok w => exact hc.addContext Linked.toList_empty rfl rfl rfl hfn

theorem assignTo (h : e.Coalesced d) (c w : Nat) : (e.assignTo c w).Coalesced d := by
  unfold Engine.assignTo
  split
  · split
    · exact h
    · rename_i ctx _ _
      have h1 : ((e.modifyContext c fun ctx => { ctx with owner := w }).modifySerial ctx.queue
          fun s => { s with target := .thread (.pool w) s.prio }).Coalesced d :=
        (h.modifyContext c (f := fun ctx => { ctx with owner := w }) fun _ => rfl).modifySerial
          ctx.queue (f := fun s => { s with target := .thread (.pool w) s.prio }) fun _ => rfl
      exact h1.frame h1.lanes rfl rfl rfl
  · exact h

/-! ## Running items -/

/-- Running a task that clears nothing. -/
theorem perform (scope : Scope) : ∀ (t : Task) (e : Engine), e.Coalesced none →
    t.clearsPending = false → (e.perform scope t).1.Coalesced none
  | .seq a b, e, h, ht => by
    simp only [Task.clearsPending, Bool.or_eq_false_iff] at ht
    have ha := perform scope a e h ht.1
    simp only [Engine.perform]
    cases hr : e.perform scope a with
    | mk e₁ o =>
      rw [hr] at ha
      cases o with
      | some m => exact ha
      | none => exact perform scope b e₁ ha ht.2
  | .request c, e, h, _ => h.requestDispatch scope c
  | .post q t, e, h, ht => h.dispatchAsync scope q ht
  | .register slot label fn opts, e, h, ht => by
    have hr : (e.register scope label fn opts).2.Coalesced none :=
      h.register scope label (fun t hft => by subst hft; simpa [Task.clearsPending] using ht) opts
    simp only [Engine.perform]
    generalize e.register scope label fn opts = r at hr
    obtain ⟨_, e₁⟩ := r
    exact hr.frame hr.lanes rfl rfl rfl
  | .closeTracker c, e, h, _ => h.modifyContext c fun _ => rfl
  | .clearPending _, _, _, ht => by simp [Task.clearsPending] at ht
  | .noop, _, h, _ | .fail _, _, h, _ => h
  | .log _ _, _, h, _ | .add _ _, _, h, _ | .probe _, _, h, _ | .cancel _, _, h, _ =>
    h.frame h.lanes rfl rfl rfl

/-- The run of context `c`: it clears the pending request, then runs the dispatchable. -/
theorem performRun {c : Nat} (h : e.Coalesced (some c)) (scope : Scope) {fn : Task}
    (hfn : fn.clearsPending = false) : (e.perform scope (.seq (.clearPending c) fn)).1.Coalesced none := by
  simp only [Engine.perform]
  exact perform scope fn _ h.clearPending hfn

theorem execute (h : e.Coalesced none) (scope : Scope) {it : Item} (hit : it.clearsPending = false) :
    (e.execute scope it).Coalesced none := by
  unfold Engine.execute
  unfold Item.clearsPending at hit
  split
  · rename_i t hj
    rw [hj] at hit
    have hp := perform scope t e h hit
    cases hr : e.perform scope t with
    | mk e₁ o =>
      rw [hr] at hp
      cases o <;> exact hp.frame hp.lanes rfl rfl rfl
  · rename_i slot t hj
    rw [hj] at hit
    have hp := perform scope t e h hit
    generalize e.perform scope t = r at hp ⊢
    obtain ⟨e₁, o⟩ := r
    exact hp.frame hp.lanes rfl rfl rfl
  · exact h

theorem executeRun {c : Nat} (h : e.Coalesced (some c)) (scope : Scope) {it : Item}
    (hit : it.runOf? = some c) : (e.execute scope it).Coalesced none := by
  obtain ⟨fn, hj, hfn⟩ := Item.runOf?_eq_some.mp hit
  have hp := h.performRun scope hfn
  unfold Engine.execute
  simp only [hj]
  cases hr : e.perform scope (.seq (.clearPending c) fn) with
  | mk e₁ o =>
    rw [hr] at hp
    cases o <;> exact hp.frame hp.lanes rfl rfl rfl

/-- Showing an item to the balancer moves at most the context, which keeps every request. -/
theorem observe (h : e.Coalesced d) (c : Nat) (it : Item) : (e.observe c it).Coalesced d := by
  unfold Engine.observe
  split
  · exact h
  · rename_i ctx _
    generalize ctx.tracker.observe e.balancer.running (some ctx.owner) it.caller it.callerCtx = r
    obtain ⟨t, target⟩ := r
    have h1 : (e.modifyContext c fun ctx => { ctx with tracker := t }).Coalesced d :=
      h.modifyContext c fun _ => rfl
    cases target with
    | some w =>
      have h2 := h1.assignTo c w
      exact h2.frame h2.lanes rfl rfl rfl
    | none => exact h1

/-! ## Draining a serial queue -/

section Drain

variable {run : Scope → Item → Engine → Engine}
  (hrun : ∀ scope it e, e.Coalesced none → it.clearsPending = false → (run scope it e).Coalesced none)
include hrun

/-- A drain keeps requests coalesced: the run of a context it takes is the one that clears the
context's request, and every other item clears nothing. -/
theorem drainItems (qscope : Scope) (id : Nat) :
    ∀ (n : Nat) (e : Engine) (done : Nat), e.Coalesced none →
      (Engine.drainItems run qscope id n e done).1.Coalesced none
  | 0, _, _, h => h
  | n + 1, e, done, h => by
    unfold Engine.drainItems
    cases hs : e.serials[id]? with
    | none => exact h
    | some s =>
      dsimp only
      split
      · exact h
      · cases hp : s.tasks.pop with
        | mk o rest =>
          cases o with
          | none => exact h
          | some it =>
            apply drainItems qscope id n
            rcases h.pop hs hp with ⟨hit, h1⟩ | ⟨c, hr, h1⟩
            · split
              · exact hrun _ _ _ h1 hit
              · refine Coalesced.execute ?_ qscope hit
                split
                · exact h1.observe _ it
                · exact h1
            · -- the run of `c`: its request is cleared when it runs
              rw [if_neg (by simp [Item.internal_of_runOf? hr])]
              refine Coalesced.executeRun ?_ qscope hr
              split
              · exact h1.observe _ it
              · exact h1

theorem drainBound (h : e.Coalesced none) (scope : Scope) (id : Nat) (s : Serial) :
    (e.drainBound run scope id s).Coalesced none := by
  have h0 := drainItems hrun { scope with queue := some (.serial id), pooled := s.pooled <|> scope.pooled }
    id s.size.toNat e 0 h
  unfold Engine.drainBound
  dsimp only
  generalize Engine.drainItems run { scope with queue := some (.serial id), pooled := s.pooled <|> scope.pooled }
    id s.size.toNat e 0 = r at h0 ⊢
  obtain ⟨e₁, done⟩ := r
  have h1 : (e₁.modifySerial id fun s => { s with size := s.size - done, triggered := false }).Coalesced none :=
    h0.modifySerial id fun _ => rfl
  generalize e₁.modifySerial id (fun s => { s with size := s.size - done, triggered := false }) = e₂ at h1 ⊢
  cases e₂.serials[id]? with
  | none => exact h1
  | some s' =>
    dsimp only
    split
    · exact h1.trigger _ _
    · exact h1

theorem drainWith (h : e.Coalesced none) (scope : Scope) (id : Nat) :
    (e.drainWith run scope id).Coalesced none := by
  rw [Engine.drainWith_eq]
  cases e.serials[id]? with
  | none => exact h
  | some s =>
    have hpin : (e.pinTo scope id s).Coalesced none := by
      unfold Engine.pinTo
      split
      · split
        · exact h.modifySerial id fun _ => rfl
        · exact h
      · exact h
    exact hpin.drainBound hrun scope id s

end Drain

theorem runJob : ∀ (fuel : Nat) (scope : Scope) (it : Item) (e : Engine), e.Coalesced none →
    it.clearsPending = false → (Engine.runJob fuel scope it e).Coalesced none
  | 0, _, _, _, h, _ => h
  | fuel + 1, scope, it, e, h, hit => by
    unfold Engine.runJob
    cases hj : it.job with
    | drain id => exact h.drainWith (runJob fuel) scope id
    | pill w =>
      dsimp only
      split
      · exact h.modifyWorker _ fun _ => rfl
      · exact h
    | task _ | member _ _ => exact h.execute scope hit

/-! ## Workers -/

theorem foldl {α : Type} {g : Engine → α → Engine} :
    ∀ {l : List α} {e : Engine}, (∀ e a, a ∈ l → e.Coalesced d → (g e a).Coalesced d) →
      e.Coalesced d → (l.foldl g e).Coalesced d
  | [], _, _, h => h
  | a :: l, e, hg, h =>
    foldl (l := l) (fun e' b hb => hg e' b (List.mem_cons_of_mem a hb)) (hg e a List.mem_cons_self h)

/-- The item a worker takes waited in the shared or its own queues, so it clears nothing. -/
theorem nextItem (h : e.Coalesced d) {w : WorkerId} {scope : Scope} {it : Item} {e' : Engine}
    (hn : e.nextItem w = some (scope, it, e')) : it.clearsPending = false ∧ e'.Coalesced d := by
  obtain ⟨hg, hit⟩ := nextItem_gathers hn
  exact ⟨h.lanes it hit, h.gathers hg⟩

theorem handOver (h : e.Coalesced d) (w : WorkerId) : (e.handOver w).Coalesced d :=
  h.gathers (handOver_gathers w)

theorem adoptOrphans (h : e.Coalesced d) (i : Nat) : (e.adoptOrphans i).Coalesced d :=
  adoptOrphans_induction (P := fun e' => e'.Coalesced d) i h (h.frame h.lanes rfl rfl rfl)
    fun _ c w h' => h'.assignTo c w

theorem exitWorker (h : e.Coalesced d) (i : Nat) : (e.exitWorker i).Coalesced d := by
  unfold Engine.exitWorker
  dsimp only
  have h1 := (h.modifyWorker (.pool i) (f := fun wk => { wk with status := .terminated })
    fun _ => rfl).handOver (.pool i)
  generalize (e.modifyWorker (.pool i) fun wk => { wk with status := .terminated }).handOver
    (.pool i) = e₁ at h1 ⊢
  have h3 : ∀ e₂ : Engine, e₂.Coalesced d →
      (if e₂.shutdown then e₂ else e₂.adoptOrphans i).Coalesced d := by
    intro e₂ h2
    split
    · exact h2
    · exact h2.adoptOrphans i
  have h4 := h3 { e₁ with live := e₁.live.erase i } (h1.frame h1.lanes rfl rfl rfl)
  exact h4.frame h4.lanes rfl rfl rfl

theorem stepWorker (h : e.Coalesced none) {w : WorkerId} {e' : Engine}
    (hs : e.stepWorker w = some e') : e'.Coalesced none := by
  unfold Engine.stepWorker at hs
  cases hn : e.nextItem w with
  | none => simp [hn] at hs
  | some r =>
    obtain ⟨scope, it, e₁⟩ := r
    simp only [hn] at hs
    obtain ⟨hit, h0⟩ := h.nextItem hn
    have h1 := runJob e₁.nestingDepth scope it e₁ h0 hit
    cases w with
    | main => obtain rfl := Option.some.inj hs; exact h1
    | pool i =>
      dsimp only at hs
      split at hs
      · obtain rfl := Option.some.inj hs
        split
        · exact h1.exitWorker i
        · exact h1
      · obtain rfl := Option.some.inj hs; exact h1

theorem findStep (h : e.Coalesced none) {e' : Engine}
    (hf : (e.live.findSome? fun i => e.stepWorker (.pool i)) = some e') : e'.Coalesced none := by
  obtain ⟨i, -, hi⟩ := List.exists_of_findSome?_eq_some hf
  exact h.stepWorker hi

/-! ## The pool and the timer -/

theorem runPoolFor : ∀ (k : Nat) (e : Engine), e.Coalesced none → (Engine.runPoolFor k e).Coalesced none
  | 0, _, h => h
  | k + 1, e, h => by
    unfold Engine.runPoolFor
    cases hr : e.live.findSome? fun i => e.stepWorker (.pool i) with
    | none => exact h
    | some e' => exact runPoolFor k e' (h.findStep hr)

/-- Firing the due requests posts jobs the timer held, which clear nothing. -/
theorem fireTimers (h : e.Coalesced d) : e.fireTimers.Coalesced d := by
  unfold Engine.fireTimers
  obtain ⟨hkeep, hfired⟩ := Timer.jobs_advance e.timer (e.clock + Engine.timerHorizon)
  generalize e.timer.advance (e.clock + Engine.timerHorizon) = tj at hkeep hfired
  obtain ⟨t, jobs⟩ := tj
  refine foldl (fun e' j hj h' => ?_) (h.setTimer fun j hj => .inl (hkeep j hj))
  obtain ⟨q, task⟩ := j
  have h1 := h'.dispatchAsync Scope.outside q (h.timer _ (hfired _ hj))
  exact h1.frame h1.lanes rfl rfl rfl

theorem runPool (h : e.Coalesced none) : e.runPool.Coalesced none :=
  runPoolFor _ _ h.fireTimers

theorem runBothFor : ∀ (k : Nat) (e : Engine), e.Coalesced none → (Engine.runBothFor k e).Coalesced none
  | 0, _, h => h
  | k + 1, e, h => by
    unfold Engine.runBothFor
    cases hm : e.stepWorker .main with
    | some e' => exact runBothFor k e' (h.stepWorker hm)
    | none =>
      dsimp only
      cases hr : e.live.findSome? fun i => e.stepWorker (.pool i) with
      | none => exact h
      | some e' => exact runBothFor k e' (h.findStep hr)

/-- The balancer stopped and the timer shut down and advanced, which then holds only jobs it
held. -/
theorem stopTimer (h : e.Coalesced d) :
    { e with balancer := e.balancer.stop, timer := ((match e.timer.shutdown false with
      | .ok t => t
      | .error _ => e.timer).advance e.clock).1 }.Coalesced d := by
  have h1 : { e with balancer := e.balancer.stop }.Coalesced d := h.frame h.lanes rfl rfl rfl
  refine h1.setTimer fun j hj => .inl ?_
  have hj' := (Timer.jobs_advance _ _).1 j hj
  split at hj'
  · rename_i t ht
    rwa [Timer.jobs_shutdown ht] at hj'
  · exact hj'

/-- Stopping gives every worker its stopping job, runs the pool, and stops the timer. -/
theorem stopAll (h : e.Coalesced none) : e.stopAll.Coalesced none := by
  have h1 : ((List.range e.workers.size).foldl
      (fun (e : Engine) (i : Nat) => e.pushThread Scope.outside (.pool i) .low ⟨.pill i, none, none⟩)
      { e with shutdown := true }).Coalesced none :=
    foldl (fun _ _ _ h' => h'.pushThread _ _ _ rfl) (h.frame h.lanes rfl rfl rfl)
  unfold Engine.stopAll
  exact h1.runPool.stopTimer

theorem startWorkers : ∀ (n : Nat) (e : Engine) (i : Nat), e.Coalesced none →
    (e.startWorkers i n).2.Coalesced none
  | 0, _, _, h => h
  | n + 1, e, i, h => by
    unfold Engine.startWorkers
    dsimp only
    -- a new worker's queues are empty
    have hq : (Worker.create (e.workerName (.pool i))).queued = [] := rfl
    have h1 : { e with workers := e.workers.push (Worker.create (e.workerName (.pool i))) }.Coalesced none :=
      h.lanesOnly ⟨e.global, e.main, _, rfl⟩ fun x hx => .inl (by simpa [laneItems, hq] using hx)
    split
    · refine Coalesced.stopAll ?_
      exact h1.modifyWorker _ fun _ => rfl
    · exact startWorkers n _ (i + 1) (h1.frame h1.lanes rfl rfl rfl)

theorem start (h : e.Coalesced none) : e.start.2.Coalesced none := by
  unfold Engine.start
  split
  · exact h
  · split
    · exact h
    · exact startWorkers _ _ 0 (h.frame h.lanes rfl rfl rfl)

theorem stop (h : e.Coalesced none) : e.stop.2.Coalesced none := by
  unfold Engine.stop
  split
  · exact h
  · exact h.stopAll

/-! ## The calls -/

theorem runGroup (h : e.Coalesced none) (scope : Scope) (q : QueueRef) (n : Nat)
    {task : Nat → Nat → Task} (ht : ∀ slot i, (task slot i).clearsPending = false) :
    (e.runGroup scope q n task).2.Coalesced none := by
  unfold Engine.runGroup
  cases e.accepting with
  | error f => exact h
  | ok u =>
    cases u
    have hw : (e.openWait n).2.Coalesced none := h.frame h.lanes rfl rfl rfl
    dsimp only
    generalize e.openWait n = se at hw
    obtain ⟨slot, e₁⟩ := se
    dsimp only
    -- the members are posted one after the other, then the pool runs
    have h1 := (foldl (l := List.range n)
      (g := fun e i => e.post scope q ⟨.member slot (task slot i), none, none⟩)
      (fun _ i _ h' => h'.post scope q (ht slot i)) hw).runPool
    split <;> exact h1

theorem dispatchMain (h : e.Coalesced none) (slot : Nat) : (e.dispatchMain slot).2.Coalesced none := by
  unfold Engine.dispatchMain
  split
  · exact h
  · have h1 := runBothFor Engine.stepBudget _ h.fireTimers
    dsimp only
    split <;> exact h1

theorem resume (h : e.Coalesced d) (id : Nat) : (e.resume id).2.Coalesced d := by
  unfold Engine.resume
  split
  · exact h
  · dsimp only
    split
    · exact h
    · split
      · refine Coalesced.trigger ?_ _ _
        exact h.modifySerial id fun _ => rfl
      · exact h.modifySerial id fun _ => rfl

theorem retain (h : e.Coalesced d) (id : Nat) : (e.retain id).2.Coalesced d := by
  unfold Engine.retain
  split
  · exact h
  · dsimp only
    split <;> exact h.modifySerial id fun _ => rfl

theorem setDisposer (h : e.Coalesced d) (id : Nat) {t : Option Task}
    (ht : ∀ t', t = some t' → t'.clearsPending = false) : (e.setDisposer id t).Coalesced d :=
  h.modifyDisposer id (fun _ => rfl) fun _ t' h' => .inl (ht t' h')

/-- The last release posts the disposer, which clears nothing. -/
theorem release (h : e.Coalesced d) (id : Nat) : (e.release id).2.Coalesced d := by
  unfold Engine.release
  split
  · exact h
  · rename_i s hs
    dsimp only
    have h1 : (e.modifySerial id fun s' => { s' with refs := s.refs - 1 }).Coalesced d :=
      h.modifySerial id fun _ => rfl
    split
    · exact h1
    · split
      · exact h1
      · have h2 : ((e.modifySerial id fun s' => { s' with refs := s.refs - 1 }).modifySerial id
            fun s' => { s' with disposed := true, disposer := none }).Coalesced d :=
          h1.modifyDisposer id (fun _ => rfl) fun _ _ h => by cases h
        split
        · rename_i t ht
          exact h2.dispatchAsync _ _ (h.disposers id s t hs ht)
        · exact h2

theorem setTarget (h : e.Coalesced d) (id : Nat) (onto : Option QueueRef) :
    (e.setTarget id onto).2.Coalesced d := by
  unfold Engine.setTarget
  split
  · exact h
  · dsimp only
    split
    · exact h
    · exact h.modifySerial id fun _ => rfl

/-- Closing a context keeps its request, and lets its queue go with a disposer that only closes
its tracker. -/
theorem closeContext (h : e.Coalesced d) (c : Nat) : (e.closeContext c).2.Coalesced d := by
  unfold Engine.closeContext
  split
  · exact h
  · rename_i ctx hc
    dsimp only
    split
    · exact h
    · have h1 : (e.modifyContext c fun ctx => { ctx with closed := true, registered := false }).Coalesced d :=
        h.modifyContext c fun _ => rfl
      exact (h1.setDisposer ctx.queue (t := some (.closeTracker c))
        fun _ ht => by cases ht; rfl).release ctx.queue

theorem createSerial (h : e.Coalesced d) (label : String) (prio : Priority) (options : QueueOptions) :
    (e.createSerial label prio options).2.Coalesced d :=
  h.addSerial Linked.toList_empty rfl

theorem createPartitioned (h : e.Coalesced d) (label : String) (k : Int) (options : QueueOptions) :
    (e.createPartitioned label k options).2.Coalesced d := by
  unfold Engine.createPartitioned
  split
  · exact h
  · dsimp only
    generalize (if label.isEmpty then e.freshLabel "partitioned" else label) = name
    generalize (⟨name, Courier.Hash.Ring.create Courier.Hash.defaultReplicas, []⟩ : Partitioned) = pq
    generalize List.range k.toNat = is
    induction is generalizing pq e with
    | nil => exact h
    | cons i is ih => exact ih (h.createSerial _ _ _) _

theorem schedule (h : e.Coalesced d) (scope : Scope) {t : Task} (ht : t.clearsPending = false)
    (delay : Int) : (e.schedule scope t delay).2.Coalesced d := by
  have hc := h.chooseWorker scope
  unfold Engine.schedule
  generalize e.chooseWorker scope = r at hc
  obtain ⟨w, e₁⟩ := r
  cases w with
  | error f => exact hc
  | ok w =>
    dsimp only
    split
    · exact hc.dispatchAsync _ _ ht
    · split
      · rename_i t' ha
        exact hc.addAfter ha ht
      · exact hc

theorem dispatchAfter (h : e.Coalesced d) (q : QueueRef) {t : Task} (ht : t.clearsPending = false)
    (delay : Int) : (e.dispatchAfter q t delay).2.Coalesced d := by
  unfold Engine.dispatchAfter
  split
  · rename_i t' ha
    exact h.addAfter ha ht
  · exact h

/-- A new engine holds nothing and has no context. -/
theorem create {s : Settings} {cpus : Nat} {b : Balancer Nat} {failAt : Option Nat} {tag : String}
    {clock : Int} (hc : Engine.create s cpus b failAt tag clock = .ok e) : e.Coalesced none := by
  have hw := waiting_create hc
  unfold Engine.create at hc
  cases hv : s.validate with
  | error f => simp [hv] at hc
  | ok u =>
    simp only [hv] at hc
    obtain rfl := Except.ok.inj hc
    refine ⟨fun it hit => ?_, fun q it hit => ?_, fun q s t hs ht => ?_, fun j hj => ?_,
      fun c ctx hc => ?_, fun c ctx fn hc => ?_, fun c ctx hc => ?_⟩
    · have hnil : it ∈ ([] : List Item) := hit
      cases hnil
    · rw [hw] at hit
      cases hit
    · cases q with
      | zero =>
        obtain rfl := Option.some.inj hs
        cases ht
      | succ q => simp at hs
    · cases hj
    all_goals simp at hc

end Coalesced

/-- Every run of `c` that is queued anywhere waits in `c`'s serial queue: the shared and the
workers' queues hold only items that clear nothing, and a serial queue holds only runs of its own
contexts. -/
theorem Coalesced.run_mem_waiting (h : e.Coalesced none) {c : Nat} {ctx : Context}
    (hc : e.contexts[c]? = some ctx) {it : Item} (hit : it ∈ e.queued) (hr : it.runOf? = some c) :
    it ∈ e.waiting ctx.queue := by
  rw [queued_eq_laneItems, List.mem_append] at hit
  rcases hit with hl | hs
  · rw [Item.runOf?_of_clearsPending (h.lanes it hl)] at hr
    cases hr
  · obtain ⟨s, hs, hit⟩ := List.mem_flatMap.mp hs
    obtain ⟨q, hq⟩ := List.mem_iff_getElem?.mp hs
    have hw : it ∈ e.waiting q := by
      rw [waiting_self (by simpa using hq)]
      exact hit
    rcases h.items q it hw with hp | ⟨c', ctx', hr', hc', hq'⟩
    · rw [Item.runOf?_of_clearsPending hp] at hr
      cases hr
    · rw [hr] at hr'
      obtain rfl := Option.some.inj hr'
      rw [hc] at hc'
      obtain rfl := Option.some.inj hc'
      rw [hq']
      exact hw

/-! ## What a request leaves -/

theorem LanesOnly.contexts {e' : Engine} (h : LanesOnly e e') : e'.contexts = e.contexts := by
  obtain ⟨g, m, ws, rfl⟩ := h
  rfl

theorem contexts_triggerWith {post : Engine → Scope → QueueRef → Item → Engine}
    (hpost : ∀ e scope q it, (post e scope q it).contexts = e.contexts) (scope : Scope) (id : Nat) :
    (e.triggerWith post scope id).contexts = e.contexts := by
  unfold Engine.triggerWith
  split
  · split
    · rfl
    · exact hpost _ _ _ _
  · rfl

/-- Posting leaves the contexts alone, wherever the item goes. -/
theorem contexts_postWithin : ∀ (hops : Nat) (e : Engine) (scope : Scope) (q : QueueRef) (it : Item),
    (e.postWithin hops scope q it).contexts = e.contexts
  | hops, _, _, .global p, it => by cases hops <;> exact (pushGlobal_lanesOnly p it).contexts
  | hops, _, scope, .thread w p, it => by cases hops <;> exact (pushThread_lanesOnly scope w p it).contexts
  | 0, _, _, .serial _, _ => rfl
  | hops + 1, e, scope, .serial id, it => by
    simp only [Engine.postWithin]
    cases e.serials[id]? with
    | none => rfl
    | some s =>
      dsimp only
      have hf : (if s.options.stickToCaller then e.followCaller scope id else e).contexts = e.contexts := by
        split
        · exact contexts_followCaller scope id
        · rfl
      split
      · exact (contexts_triggerWith (fun e scope q it => contexts_postWithin hops e scope q it) scope id).trans hf
      · exact hf

/-- A request for an open context with something to run leaves the context's request pending. -/
theorem requestDispatch_pending {c : Nat} {ctx : Context} (hc : e.contexts[c]? = some ctx)
    (hopen : ctx.closed = false) {fn : Task} (hfn : ctx.dispatchable = some fn) (scope : Scope) :
    (e.requestDispatch scope c).contexts[c]? = some { ctx with pending := true } := by
  unfold Engine.requestDispatch
  simp only [hc, hfn, hopen, Bool.false_or]
  split
  · rename_i hp
    rw [hc]
    cases ctx
    simp_all
  · rw [Engine.dispatchAsync, Engine.post, contexts_postWithin]
    simp [Engine.modifyContext, Array.getElem?_modify, hc, hfn, hopen]

/-- A request for a closed context changes nothing. -/
theorem requestDispatch_of_closed {c : Nat} {ctx : Context} (hc : e.contexts[c]? = some ctx)
    (hclosed : ctx.closed = true) (scope : Scope) : e.requestDispatch scope c = e := by
  unfold Engine.requestDispatch
  rw [hc]
  dsimp only
  cases ctx.dispatchable <;> simp [hclosed]

end Engine

/-! ## Runs whose callers hand over only their own tasks -/

namespace Traced

/-- The calls of the engine (`Traced.Call`) whose caller hands it only tasks that clear no
context's pending request. The one task that does is the run of a context, which the engine
builds itself when asked to run the context; no caller can build it. -/
inductive PlainCall : Engine → List Event → Engine → Prop
  | dispatchAsync (e : Engine) (scope : Scope) (q : QueueRef) {t : Task} (ht : t.clearsPending = false) :
      PlainCall e (dispatchAsync e scope q t).2 (dispatchAsync e scope q t).1
  | step (e : Engine) {r : Engine × List Event} (w : WorkerId) (h : stepWorker e w = some r) :
      PlainCall e r.2 r.1
  | suspend (e : Engine) (id : Nat) : PlainCall e [] (e.suspend id)
  | resume (e : Engine) (id : Nat) : PlainCall e (resume e id).2 (resume e id).1
  | retain (e : Engine) (id : Nat) : PlainCall e [] (e.retain id).2
  | release (e : Engine) (id : Nat) : PlainCall e (release e id).2 (release e id).1
  | setDisposer (e : Engine) (id : Nat) {t : Option Task}
      (ht : ∀ t', t = some t' → t'.clearsPending = false) : PlainCall e [] (e.setDisposer id t)
  | setTarget (e : Engine) (id : Nat) (onto : Option QueueRef)
      (h : ∀ t, onto = some (.serial t) → t < e.serials.size) : PlainCall e [] (e.setTarget id onto).2
  | assignTo (e : Engine) (c w : Nat) : PlainCall e [] (e.assignTo c w)
  | createSerial (e : Engine) (label : String) (prio : Priority) (options : QueueOptions) :
      PlainCall e [] (e.createSerial label prio options).2
  | createPartitioned (e : Engine) (label : String) (k : Int) (options : QueueOptions) :
      PlainCall e [] (e.createPartitioned label k options).2
  | register (e : Engine) (scope : Scope) (label : String) {fn : Option Task}
      (hfn : ∀ t, fn = some t → t.clearsPending = false) (options : QueueOptions) :
      PlainCall e [] (e.register scope label fn options).2
  | requestDispatch (e : Engine) (scope : Scope) (c : Nat) :
      PlainCall e (requestDispatch e scope c).2 (requestDispatch e scope c).1
  | closeContext (e : Engine) (c : Nat) : PlainCall e (closeContext e c).2 (closeContext e c).1
  | start (e : Engine) : PlainCall e (start e).2 (start e).1
  | stop (e : Engine) : PlainCall e (stop e).2 (stop e).1
  | runGroup (e : Engine) (scope : Scope) (q : QueueRef) (k : Nat) {task : Nat → Nat → Task}
      (ht : ∀ slot i, (task slot i).clearsPending = false) :
      PlainCall e (runGroup e scope q k task).2 (runGroup e scope q k task).1
  | dispatchAfter (e : Engine) (q : QueueRef) {t : Task} (ht : t.clearsPending = false) (delay : Int) :
      PlainCall e [] (e.dispatchAfter q t delay).2
  | schedule (e : Engine) (scope : Scope) {t : Task} (ht : t.clearsPending = false) (delay : Int) :
      PlainCall e (schedule e scope t delay).2 (schedule e scope t delay).1
  | runPool (e : Engine) : PlainCall e (runPool e).2 (runPool e).1
  | dispatchMain (e : Engine) : PlainCall e (dispatchMain e).2 (dispatchMain e).1
  | newCell (e : Engine) : PlainCall e [] e.newCell.2
  | openWait (e : Engine) (k : Nat) : PlainCall e [] (e.openWait k).2

namespace PlainCall

variable {e e' : Engine} {E : List Event}

/-- A plain call is a call of the engine. -/
theorem traced (c : PlainCall e E e') : Call e E e' := by
  cases c with
  | dispatchAsync scope q _ => exact .dispatchAsync e scope q _
  | step w h => exact .step e w h
  | suspend id => exact .suspend e id
  | resume id => exact .resume e id
  | retain id => exact .retain e id
  | release id => exact .release e id
  | setDisposer id _ => exact .setDisposer e id _
  | setTarget id onto h => exact .setTarget e id onto h
  | assignTo c w => exact .assignTo e c w
  | createSerial label prio options => exact .createSerial e label prio options
  | createPartitioned label k options => exact .createPartitioned e label k options
  | register scope label _ options => exact .register e scope label _ options
  | requestDispatch scope c => exact .requestDispatch e scope c
  | closeContext c => exact .closeContext e c
  | start => exact .start e
  | stop => exact .stop e
  | runGroup scope q k _ => exact .runGroup e scope q k _
  | dispatchAfter q _ delay => exact .dispatchAfter e q _ delay
  | schedule scope _ delay => exact .schedule e scope _ delay
  | runPool => exact .runPool e
  | dispatchMain => exact .dispatchMain e
  | newCell => exact .newCell e
  | openWait k => exact .openWait e k

/-- A plain call keeps requests coalesced. -/
theorem coalesced (c : PlainCall e E e') (h : e.Coalesced none) : e'.Coalesced none := by
  cases c with
  | dispatchAsync scope q ht => rw [dispatchAsync_fst]; exact h.dispatchAsync scope q ht
  | step w hs =>
    have h' := stepWorker_map e w
    rw [hs] at h'
    exact h.stepWorker h'.symm
  | suspend id => exact h.modifySerial id fun _ => rfl
  | resume id => rw [resume_fst]; exact h.resume id
  | retain id => exact h.retain id
  | release id => rw [release_fst]; exact h.release id
  | setDisposer id ht => exact h.setDisposer id ht
  | setTarget id onto _ => exact h.setTarget id onto
  | assignTo c w => exact h.assignTo c w
  | createSerial label prio options => exact h.createSerial label prio options
  | createPartitioned label k options => exact h.createPartitioned label k options
  | register scope label hfn options => exact h.register scope label hfn options
  | requestDispatch scope c => rw [requestDispatch_fst]; exact h.requestDispatch scope c
  | closeContext c => rw [closeContext_fst]; exact h.closeContext c
  | start => rw [start_fst]; exact h.start
  | stop => rw [stop_fst]; exact h.stop
  | runGroup scope q k ht => rw [runGroup_fst]; exact h.runGroup scope q k ht
  | dispatchAfter q ht delay => exact h.dispatchAfter q ht delay
  | schedule scope ht delay => rw [schedule_fst]; exact h.schedule scope ht delay
  | runPool => rw [runPool_fst]; exact h.runPool
  | dispatchMain => rw [dispatchMain_fst e 0]; exact h.dispatchMain 0
  | newCell => exact h.frame h.lanes rfl rfl rfl
  | openWait k => exact h.frame h.lanes rfl rfl rfl

end PlainCall

end Traced

namespace Engine

/-- The runs of the engine, with their events, whose calls are all plain. -/
inductive PlainHistory : Engine → List Event → Prop
  | create (s : Settings) (cpus : Nat) (b : Balancer Nat) (failAt : Option Nat) (tag : String)
      (clock : Int) {e : Engine} (h : Engine.create s cpus b failAt tag clock = .ok e) :
      PlainHistory e []
  | call {e e' : Engine} {E E' : List Event} (h : PlainHistory e E) (c : Traced.PlainCall e E' e') :
      PlainHistory e' (E ++ E')

namespace PlainHistory

variable {e : Engine} {E : List Event}

theorem history (h : PlainHistory e E) : History e E := by
  induction h with
  | create s cpus b failAt tag clock hc => exact .create s cpus b failAt tag clock hc
  | call _ c ih => exact .call ih c.traced

theorem coalesced (h : PlainHistory e E) : e.Coalesced none := by
  induction h with
  | create _ _ _ _ _ _ hc => exact Coalesced.create hc
  | call _ c ih => exact c.coalesced ih

/-- Requests to run a context coalesce, and none is lost. Along every run of the engine whose
callers hand it only tasks of their own, for every context `c`:
- every queued run of `c` waits in `c`'s serial queue, and one waits there exactly while a request
  is pending, so never more than one;
- the runs of `c` that joined its queue are those that started and the one still pending, so no
  more runs start than joined, and the queue's order loses none;
- a request while `c` is open and has something to run leaves a run of it queued and not started;
- a request once `c` is closed changes nothing. -/
theorem requests_coalesce (h : PlainHistory e E) {c : Nat} {ctx : Context}
    (hc : e.contexts[c]? = some ctx) :
    (∀ it ∈ e.queued, it.runOf? = some c → it ∈ e.waiting ctx.queue) ∧
      runsOf c (e.waiting ctx.queue) = (if ctx.pending then 1 else 0) ∧
      runsOf c (enqueuedOn ctx.queue E) =
        runsOf c (startedOn ctx.queue E) + (if ctx.pending then 1 else 0) ∧
      (ctx.closed = false → ctx.dispatchable.isSome → ∀ scope,
        runsOf c ((e.requestDispatch scope c).waiting ctx.queue) = 1) ∧
      (ctx.closed = true → ∀ scope, e.requestDispatch scope c = e) := by
  have hco := h.coalesced
  have hruns : runsOf c (e.waiting ctx.queue) = if ctx.pending then 1 else 0 := by
    simpa using hco.runs c ctx hc
  refine ⟨fun it hit hr => hco.run_mem_waiting hc hit hr, hruns, ?_, fun hopen hsome scope => ?_,
    fun hclosed scope => requestDispatch_of_closed hc hclosed scope⟩
  · -- what started, followed by what waits, is what joined
    have hfifo := congrArg (runsOf c) (h.history.serial_fifo ctx.queue)
    rw [runsOf_append, hruns] at hfifo
    exact hfifo.symm
  · obtain ⟨fn, hfn⟩ := Option.isSome_iff_exists.mp hsome
    have hc' := requestDispatch_pending hc hopen hfn scope
    simpa using (hco.requestDispatch scope c).runs c _ hc'

/-- On a started engine, a request for a context just registered with something to run queues
one run of it. -/
theorem request_on_registered_context_queues_one_run :
    ∃ (e : Engine) (E : List Event) (ctx : Context), PlainHistory e E ∧ e.contexts[0]? = some ctx ∧
      ctx.closed = false ∧ ctx.dispatchable.isSome ∧
      ∀ scope, runsOf 0 ((e.requestDispatch scope 0).waiting ctx.queue) = 1 := by
  have h : PlainHistory _ _ :=
    .call (.call (.create ⟨"", 1, 0, 0⟩ 1 Balancer.inert none "t" 0 rfl) (.start _))
      (@Traced.PlainCall.register _ Scope.outside "c" (some .noop) (fun _ ht => by cases ht; rfl) {})
  exact ⟨_, _, _, h, rfl, rfl, rfl, (requests_coalesce h rfl).2.2.2.1 rfl rfl⟩

end PlainHistory

end Engine

end Courier.Dispatch
