import Courier.Proofs.Dispatch.Shutdown

/-!
# What the engine's calls do to the choice of workers and to serial queues' bindings

Two parts of an engine change in a few ways only: the counter by which pool workers are taken in
turn, with the live workers it takes them from, and what each serial queue is bound to: its
target, whether it is bound to its first drainer, its options and its priority. `Engine.obs` is
that part of an engine, with the queue of each context, and `Mark` names the ways it changes: a
worker taken in turn, a queue following its caller or bound to its drainer, a context's queue
moved, a queue pointed elsewhere on request, a queue or a context made, the engine starting, a
worker made, going live or leaving. `Mark.Valid` says when each may happen, and
`Obs.Walk o ms o'` that the changes `ms`, each when it may, lead from `o` to `o'`.

Which call makes a change is part of the account (`Role`, `Mark.allowedBy`): only `setTarget`
points a queue elsewhere, and only that queue; only `assignTo`, of the context the queue belongs
to, and the calls that run workers, whose balancer and leaving workers move contexts, move a
context's queue; only the calls that run workers bind a queue to its drainer. Every call may
post, and so make a queue follow its caller.

- `Engine.Marks`: what a function of the engine does is a walk of the changes its role allows,
  with one lemma per function;
- `Engine.Called`, `Engine.Called.marks`, `Engine.marks_of_run`: so is every call, with its role,
  and every run of calls (`Engine.Called.Run`);
- `Obs.Sane`, `Engine.Reachable.obs_sane`: the live workers are made ones, each listed once.
-/

set_option autoImplicit false

namespace Courier.Dispatch

/-- What the choice of workers and the retargeting of serial queues see of a serial queue: where
it posts its drains, whether it is bound to its first drainer, its options and its priority. -/
structure Binding where
  target : QueueRef
  pinned : Bool
  options : QueueOptions
  prio : Priority

/-- A serial queue's binding. -/
def Serial.binding (s : Serial) : Binding := ⟨s.target, s.pinned, s.options, s.prio⟩

/-- What the choice of workers and the retargeting of serial queues see of an engine: the turn
counter, the live pool workers, how many pool workers were made, whether the engine started,
each serial queue's binding, and each context's serial queue. -/
structure Obs where
  next : Int64
  live : List Nat
  made : Nat
  started : Bool
  binds : Nat → Option Binding
  queues : Nat → Option Nat

namespace Obs

/-- Changes the binding of serial queue `q`, if there is one. -/
def rebind (o : Obs) (q : Nat) (f : Binding → Binding) : Obs :=
  { o with binds := fun j => if j = q then (o.binds j).map f else o.binds j }

end Obs

/-- One change of an engine that the choice of workers or a serial queue's binding sees. -/
inductive Mark where
  /-- Pool worker `w` taken in turn: the counter moves on. -/
  | pick (w : Nat)
  /-- Serial queue `q`, posted to from pool worker `w`, moves to `w`. -/
  | follow (q w : Nat)
  /-- Serial queue `q`, drained on worker `w`, is bound to `w`. -/
  | pin (q : Nat) (w : WorkerId)
  /-- The queue `q` of a context moves, with the context, to pool worker `w`. -/
  | assign (q w : Nat)
  /-- Serial queue `q` is pointed at `onto` on request. -/
  | retarget (q : Nat) (onto : QueueRef)
  /-- Serial queue `q` is made with binding `b`. -/
  | create (q : Nat) (b : Binding)
  /-- Context `c` is made, with serial queue `q`. -/
  | enroll (c q : Nat)
  /-- The engine starts. -/
  | begin
  /-- A pool worker is made and goes live. -/
  | spawn
  /-- A pool worker is made and fails to start. -/
  | make
  /-- Pool worker `i` leaves. -/
  | exit (i : Nat)

namespace Mark

/-- What a change does. -/
def apply (o : Obs) : Mark → Obs
  | .pick _ => { o with next := o.next + 1 }
  | .follow q w => o.rebind q fun b => { b with target := .thread (.pool w) b.prio }
  | .pin q w => o.rebind q fun b => { b with pinned := true, target := .thread w b.prio }
  | .assign q w => o.rebind q fun b => { b with target := .thread (.pool w) b.prio }
  | .retarget q onto => o.rebind q fun b => { b with target := onto }
  | .create q b => { o with binds := fun j => if j = q then some b else o.binds j }
  | .enroll c q => { o with queues := fun j => if j = c then some q else o.queues j }
  | .begin => { o with started := true }
  | .spawn => { o with made := o.made + 1, live := o.live ++ [o.made] }
  | .make => { o with made := o.made + 1 }
  | .exit i => { o with live := o.live.erase i }

/-- When a change happens: a worker taken in turn is the live worker at the counter, which names
a place among them; a queue
follows its caller only if it asks to and still posts to a shared queue; a queue is bound to its
drainer only if it asks to and is not bound yet; only a context's queue moves with a context; no
queue is pointed at itself; a queue is made unbound, and a context made, where there was none;
the engine starts once, and makes workers only once started. -/
def Valid (o : Obs) : Mark → Prop
  | .pick w => o.live ≠ [] ∧ 0 ≤ Engine.turnIndex o.next o.live.length ∧
      w = o.live.getD (Engine.turnIndex o.next o.live.length).toNat 0
  | .follow q _ => ∃ b p, o.binds q = some b ∧ b.options.stickToCaller = true ∧ b.target = .global p
  | .pin q _ => ∃ b, o.binds q = some b ∧ b.options.stickToDrainer = true ∧ b.pinned = false
  | .assign q _ => ∃ c, o.queues c = some q
  | .retarget q onto => onto ≠ .serial q
  | .create q b => o.binds q = none ∧ b.pinned = false
  | .enroll c _ => o.queues c = none
  | .begin => o.started = false
  | .spawn | .make => o.started = true
  | .exit _ => True

end Mark

/-- What a call may do to serial queues' targets beyond making them follow its callers. -/
inductive Role where
  /-- Points serial queue `q` elsewhere: `setTarget`. -/
  | retarget (q : Nat)
  /-- Moves the context whose queue is `q`, if there is that context: `assignTo`. -/
  | assign (q : Option Nat)
  /-- Runs workers: their drains bind queues to them, and their balancer and their leaving move
  contexts. -/
  | run
  /-- Posts work, makes queues, contexts and counters, holds, releases or suspends. -/
  | plain

namespace Mark

/-- Whether a call of role `r` may make change `m`. Pointing a queue elsewhere is for
`setTarget` of that queue; moving a context's queue, for `assignTo` of that context and for
running workers; binding a queue to its drainer, for running workers. -/
def allowedBy : Role → Mark → Bool
  | .retarget q, .retarget q' _ => q' == q
  | .assign q, .assign q' _ => q == some q'
  | .run, .assign _ _ => true
  | .run, .pin _ _ => true
  | _, .retarget _ _ => false
  | _, .assign _ _ => false
  | _, .pin _ _ => false
  | _, _ => true

/-- Whether every call may make a change. -/
def isOpen : Mark → Bool
  | .retarget _ _ | .assign _ _ | .pin _ _ => false
  | _ => true

theorem allowedBy_of_isOpen {m : Mark} (h : m.isOpen = true) (r : Role) : m.allowedBy r = true := by
  cases m <;> cases r <;> simp_all [isOpen, allowedBy]

/-- What `assignTo` may do, running workers may do. -/
theorem allowedBy_run_of_assign {m : Mark} {q : Option Nat} (h : m.allowedBy (.assign q) = true) :
    m.allowedBy .run = true := by
  cases m <;> simp_all [allowedBy]

end Mark

/-- A walk of observations along changes, each happening when it may. -/
inductive Obs.Walk : Obs → List Mark → Obs → Prop
  | nil (o : Obs) : Obs.Walk o [] o
  | cons {o o' : Obs} {m : Mark} {ms : List Mark} (hv : m.Valid o) (h : Obs.Walk (m.apply o) ms o') :
      Obs.Walk o (m :: ms) o'

namespace Obs.Walk

theorem append {o₁ o₂ o₃ : Obs} {ms ms' : List Mark} (h₁ : Obs.Walk o₁ ms o₂)
    (h₂ : Obs.Walk o₂ ms' o₃) : Obs.Walk o₁ (ms ++ ms') o₃ := by
  induction h₁ with
  | nil => exact h₂
  | cons hv _ ih => exact .cons hv (ih h₂)

theorem single {o : Obs} {m : Mark} (hv : m.Valid o) : Obs.Walk o [m] (m.apply o) :=
  .cons hv (.nil _)

end Obs.Walk

namespace Obs

/-- The observation after some changes. -/
def after (o : Obs) (ms : List Mark) : Obs := ms.foldl Mark.apply o

@[simp] theorem after_nil (o : Obs) : o.after [] = o := rfl

@[simp] theorem after_cons (o : Obs) (m : Mark) (ms : List Mark) :
    o.after (m :: ms) = (m.apply o).after ms := rfl

theorem after_append (o : Obs) (ms ms' : List Mark) : o.after (ms ++ ms') = (o.after ms).after ms' :=
  List.foldl_append

namespace Walk

variable {o o' : Obs} {ms : List Mark}

/-- A walk ends where its changes lead. -/
theorem eq_after (h : Obs.Walk o ms o') : o' = o.after ms := by
  induction h with
  | nil => rfl
  | cons _ _ ih => exact ih

/-- A walk split in two: each part is a walk, the second from where the first ends. -/
theorem split {ms' : List Mark} (h : Obs.Walk o (ms ++ ms') o') :
    Obs.Walk o ms (o.after ms) ∧ Obs.Walk (o.after ms) ms' o' := by
  induction ms generalizing o with
  | nil => exact ⟨.nil o, h⟩
  | cons m ms ih =>
    cases h with
    | cons hv h =>
      obtain ⟨h₁, h₂⟩ := ih h
      exact ⟨.cons hv h₁, h₂⟩

end Walk

/-- What the observation of every engine keeps: before the engine starts it has made no pool
worker, and the live workers are made ones, listed once each in the order they were made. -/
structure Sane (o : Obs) : Prop where
  unstarted : o.started = false → o.made = 0 ∧ o.live = []
  live : o.live.Sublist (List.range o.made)

/-- Every change that may happen keeps an observation sane. -/
theorem Sane.apply {o : Obs} (h : o.Sane) : ∀ {m : Mark}, m.Valid o → (m.apply o).Sane
  | .pick _, _ | .follow _ _, _ | .pin _ _, _ | .assign _ _, _ | .retarget _ _, _ | .create _ _, _
  | .enroll _ _, _ => ⟨h.unstarted, h.live⟩
  | .begin, _ => ⟨fun h' => by simp [Mark.apply] at h', h.live⟩
  | .spawn, hv => by
    refine ⟨fun h' => by simp [Mark.apply, show o.started = true from hv] at h', ?_⟩
    -- the new worker is the one made last
    simp only [Mark.apply, List.range_succ]
    exact h.live.append (List.Sublist.refl _)
  | .make, hv => by
    refine ⟨fun h' => by simp [Mark.apply, show o.started = true from hv] at h', ?_⟩
    exact h.live.trans (List.range_sublist.mpr (Nat.le_succ _))
  | .exit i, _ => by
    refine ⟨fun h' => ?_, (List.erase_sublist).trans h.live⟩
    obtain ⟨hm, hl⟩ := h.unstarted h'
    simp [Mark.apply, hm, hl]

theorem Sane.walk {o o' : Obs} {ms : List Mark} (hw : Obs.Walk o ms o') (h : o.Sane) : o'.Sane := by
  induction hw with
  | nil => exact h
  | cons hv _ ih => exact ih (h.apply hv)

/-- In a sane observation every live worker is listed once. -/
theorem Sane.nodup {o : Obs} (h : o.Sane) : o.live.Nodup :=
  h.live.nodup List.nodup_range

end Obs

namespace Engine

/-- What the choice of workers and retargeting see of the engine. -/
def obs (e : Engine) : Obs :=
  ⟨e.next, e.live, e.workers.size, e.started, fun q => e.serials[q]?.map Serial.binding,
    fun c => e.contexts[c]?.map Context.queue⟩

/-- The change from `e` to `e'` is a walk of changes the choice of workers and retargeting see,
each of which a call of role `r` may make. -/
def Marks (r : Role) (e e' : Engine) : Prop :=
  ∃ ms, Obs.Walk e.obs ms e'.obs ∧ ∀ m ∈ ms, m.allowedBy r = true

variable {e : Engine}

theorem obs_modifySerial (id : Nat) {f : Serial → Serial} {g : Binding → Binding}
    (hf : ∀ s, (f s).binding = g s.binding) : (e.modifySerial id f).obs = e.obs.rebind id g := by
  simp only [obs, Obs.rebind, modifySerial, Obs.mk.injEq, true_and, and_true]
  funext j
  rw [Array.getElem?_modify]
  by_cases h : id = j
  · subst h
    cases e.serials[id]? <;> simp [hf]
  · simp [h, Ne.symm h]

theorem obs_modifySerial_of {id : Nat} {f : Serial → Serial} (hf : ∀ s, (f s).binding = s.binding) :
    (e.modifySerial id f).obs = e.obs := by
  simp only [obs, modifySerial, Obs.mk.injEq, true_and, and_true]
  funext j
  rw [Array.getElem?_modify]
  split <;> cases e.serials[j]? <;> simp [hf]

theorem obs_modifyContext (id : Nat) {f : Context → Context} (hf : ∀ ctx, (f ctx).queue = ctx.queue) :
    (e.modifyContext id f).obs = e.obs := by
  simp only [obs, modifyContext, Obs.mk.injEq, true_and]
  funext j
  rw [Array.getElem?_modify]
  split <;> cases e.contexts[j]? <;> simp [hf]

/-- A serial queue made at the end, the rest of what is seen left alone. -/
theorem obs_of_push {e' : Engine} {s : Serial} (hs : e'.serials = e.serials.push s)
    (hc : e'.contexts = e.contexts) (hn : e'.next = e.next) (hl : e'.live = e.live)
    (hw : e'.workers.size = e.workers.size) (ht : e'.started = e.started) :
    e'.obs = (Mark.create e.serials.size s.binding).apply e.obs := by
  simp only [obs, Mark.apply, Obs.mk.injEq, hn, hl, hw, ht, hs, hc, true_and, and_true]
  funext j
  rw [Array.getElem?_push]
  split <;> rfl

/-- A context made at the end with a serial queue made with it, the rest of what is seen left
alone. -/
theorem obs_of_pushContext {e' : Engine} {s : Serial} {ctx : Context}
    (hs : e'.serials = e.serials.push s) (hc : e'.contexts = e.contexts.push ctx)
    (hn : e'.next = e.next) (hl : e'.live = e.live) (hw : e'.workers.size = e.workers.size)
    (ht : e'.started = e.started) :
    e'.obs = (Mark.enroll e.contexts.size ctx.queue).apply
      ((Mark.create e.serials.size s.binding).apply e.obs) := by
  simp only [obs, Mark.apply, Obs.mk.injEq, hn, hl, hw, ht, hs, hc, true_and]
  constructor <;> funext j
  · rw [Array.getElem?_push]
    split <;> rfl
  · rw [Array.getElem?_push]
    split <;> rfl

theorem obs_modifyWorker (w : WorkerId) (f : Worker → Worker) : (e.modifyWorker w f).obs = e.obs := by
  cases w <;> simp [obs, modifyWorker]

namespace Marks

variable {r : Role}

theorem refl (e : Engine) : Marks r e e := ⟨[], .nil _, fun _ h => by cases h⟩

theorem trans {e₁ e₂ e₃ : Engine} (h₁ : Marks r e₁ e₂) (h₂ : Marks r e₂ e₃) : Marks r e₁ e₃ := by
  obtain ⟨ms, h₁, ha⟩ := h₁
  obtain ⟨ms', h₂, hb⟩ := h₂
  exact ⟨ms ++ ms', h₁.append h₂, fun m hm => (List.mem_append.mp hm).elim (ha m) (hb m)⟩

/-- A walk a call of one role may make, a call of a role allowed more may make. -/
theorem mono {r' : Role} {e e' : Engine} (h : Marks r e e')
    (hr : ∀ m : Mark, m.allowedBy r = true → m.allowedBy r' = true) : Marks r' e e' := by
  obtain ⟨ms, hw, ha⟩ := h
  exact ⟨ms, hw, fun m hm => hr m (ha m hm)⟩

/-- A change that nothing of it sees. -/
theorem of_obs {e e' : Engine} (h : e'.obs = e.obs) : Marks r e e' :=
  ⟨[], h ▸ .nil _, fun _ h => by cases h⟩

/-- One change that it sees. -/
theorem mark {e e' : Engine} {m : Mark} (hv : m.Valid e.obs) (hm : m.allowedBy r = true)
    (h : e'.obs = m.apply e.obs) : Marks r e e' :=
  ⟨[m], h ▸ .single hv, fun _ hm' => (List.mem_singleton.mp hm') ▸ hm⟩

/-- A change that nothing of it sees, then one that it does. -/
theorem frame {e₁ e₂ e₃ : Engine} (h : Marks r e₂ e₃) (ho : e₂.obs = e₁.obs) : Marks r e₁ e₃ :=
  (of_obs ho).trans h

theorem foldl {α : Type} {g : Engine → α → Engine} (hg : ∀ e a, Marks r e (g e a)) :
    ∀ (l : List α) (e : Engine), Marks r e (l.foldl g e)
  | [], e => refl e
  | a :: l, e => (hg e a).trans (foldl hg l (g e a))

theorem modifySerial (e : Engine) (id : Nat) {f : Serial → Serial}
    (hf : ∀ s, (f s).binding = s.binding) : Marks r e (e.modifySerial id f) :=
  of_obs (obs_modifySerial_of hf)

theorem modifyWorker (e : Engine) (w : WorkerId) (f : Worker → Worker) :
    Marks r e (e.modifyWorker w f) :=
  of_obs (obs_modifyWorker w f)

theorem modifyContext (e : Engine) (c : Nat) {f : Context → Context}
    (hf : ∀ ctx, (f ctx).queue = ctx.queue) : Marks r e (e.modifyContext c f) :=
  of_obs (obs_modifyContext c hf)

/-! ## Posting -/

theorem pushThread (e : Engine) (scope : Scope) (w : WorkerId) (p : Priority) (it : Item) :
    Marks r e (e.pushThread scope w p it) := by
  unfold Engine.pushThread
  split
  · exact of_obs rfl
  · split <;> exact modifyWorker _ _ _

/-- A queue that asks to follow its callers moves to a calling pool worker while it posts to a
shared queue. -/
theorem followCaller {e : Engine} {id : Nat} {s : Serial} (hs : e.serials[id]? = some s)
    (hc : s.options.stickToCaller = true) (scope : Scope) : Marks r e (e.followCaller scope id) := by
  unfold Engine.followCaller
  rw [hs]
  cases hw : scope.poolWorker with
  | none => exact refl e
  | some w =>
    dsimp only
    cases ht : s.target with
    | global p =>
      exact mark (m := .follow id w) ⟨s.binding, p, by simp [obs, hs], hc, ht⟩
        (Mark.allowedBy_of_isOpen rfl r) (obs_modifySerial id fun _ => rfl)
    | thread _ _ | serial _ => exact refl e

theorem triggerWith {post : Engine → Scope → QueueRef → Item → Engine}
    (hpost : ∀ e scope q it, Marks r e (post e scope q it)) (e : Engine) (scope : Scope) (id : Nat) :
    Marks r e (e.triggerWith post scope id) := by
  unfold Engine.triggerWith
  split
  · split
    · exact refl e
    · exact (hpost _ _ _ _).frame (obs_modifySerial_of fun _ => rfl)
  · exact refl e

theorem postWithin : ∀ (hops : Nat) (e : Engine) (scope : Scope) (q : QueueRef) (it : Item),
    Marks r e (e.postWithin hops scope q it)
  | hops, e, _, .global p, it => by cases hops <;> exact of_obs rfl
  | hops, e, scope, .thread w p, it => by cases hops <;> exact pushThread e scope w p it
  | 0, e, _, .serial _, _ => refl e
  | hops + 1, e, scope, .serial id, it => by
    simp only [Engine.postWithin]
    cases hs : e.serials[id]? with
    | none => exact refl e
    | some s =>
      dsimp only
      -- the queue may first follow its caller; then the item joins it
      have hf : Marks r e (if s.options.stickToCaller then e.followCaller scope id else e) := by
        split
        · exact followCaller hs ‹_› scope
        · exact refl e
      split
      · exact hf.trans ((triggerWith (postWithin hops) _ scope id).frame
          (obs_modifySerial_of fun _ => rfl))
      · exact hf.trans (of_obs (obs_modifySerial_of fun _ => rfl))

theorem post (e : Engine) (scope : Scope) (q : QueueRef) (it : Item) : Marks r e (e.post scope q it) :=
  postWithin _ e scope q it

theorem dispatchAsync (e : Engine) (scope : Scope) (q : QueueRef) (t : Task) :
    Marks r e (e.dispatchAsync scope q t) :=
  postWithin _ e scope q _

theorem trigger (e : Engine) (scope : Scope) (id : Nat) : Marks r e (e.trigger scope id) :=
  triggerWith (postWithin _) e scope id

theorem requestDispatch (e : Engine) (scope : Scope) (c : Nat) :
    Marks r e (e.requestDispatch scope c) := by
  unfold Engine.requestDispatch
  split
  · split
    · split
      · exact refl e
      · exact (dispatchAsync _ _ _ _).frame (obs_modifyContext c fun _ => rfl)
    · exact refl e
  · exact refl e

/-- A worker taken in turn, where the counter names a place among the live workers. -/
theorem pick {e : Engine} (hl : e.live ≠ []) (hk : 0 ≤ turnIndex e.next e.live.length) :
    Marks r e { e with next := e.next + 1 } :=
  mark (m := .pick (e.live.getD (turnIndex e.next e.live.length).toNat 0)) ⟨hl, hk, rfl⟩
    (Mark.allowedBy_of_isOpen rfl r) rfl

/-- The next worker in turn: taken, or, where the counter names no place, nothing changes. -/
theorem nextInTurn {e : Engine} (hl : e.live ≠ []) : Marks r e e.nextInTurn.2 := by
  unfold Engine.nextInTurn
  dsimp only
  split
  · exact refl e
  · rename_i hk
    exact pick hl (Int.not_lt.mp hk)

/-- Past a refusal for an engine with no live worker, there is one. -/
theorem live_ne_nil_of {e : Engine} {b : Bool} (h : ¬(b || e.live.isEmpty) = true) : e.live ≠ [] := by
  intro hl
  simp [hl] at h

theorem chooseWorker (e : Engine) (scope : Scope) : Marks r e (e.chooseWorker scope).2 := by
  unfold Engine.chooseWorker
  split
  · exact refl e
  · rename_i h
    have hl := live_ne_nil_of h
    split
    · split
      · exact nextInTurn hl
      · exact refl e
    · exact nextInTurn hl

/-- A serial queue made, not yet bound to a drainer. -/
theorem push {e e' : Engine} {s : Serial} (hs : e'.serials = e.serials.push s)
    (hc : e'.contexts = e.contexts) (hn : e'.next = e.next) (hl : e'.live = e.live)
    (hw : e'.workers.size = e.workers.size) (ht : e'.started = e.started) (hp : s.pinned = false) :
    Marks r e e' :=
  mark (m := .create e.serials.size s.binding) ⟨by simp [obs], hp⟩ (Mark.allowedBy_of_isOpen rfl r)
    (obs_of_push hs hc hn hl hw ht)

/-- A context made with a serial queue of its own, not yet bound to a drainer. -/
theorem pushContext {e e' : Engine} {s : Serial} {ctx : Context} (hs : e'.serials = e.serials.push s)
    (hc : e'.contexts = e.contexts.push ctx) (hn : e'.next = e.next) (hl : e'.live = e.live)
    (hw : e'.workers.size = e.workers.size) (ht : e'.started = e.started) (hp : s.pinned = false) :
    Marks r e e' := by
  refine ⟨[.create e.serials.size s.binding, .enroll e.contexts.size ctx.queue],
    (obs_of_pushContext hs hc hn hl hw ht) ▸ .cons ⟨by simp [obs], hp⟩ (.single ?_), ?_⟩
  · simp [obs, Mark.apply, Mark.Valid]
  · intro m hm
    rcases List.mem_pair.mp hm with rfl | rfl <;> exact Mark.allowedBy_of_isOpen rfl r

theorem createSerial (e : Engine) (label : String) (prio : Priority) (options : QueueOptions) :
    Marks r e (e.createSerial label prio options).2 :=
  push rfl rfl rfl rfl rfl rfl rfl

theorem register (e : Engine) (scope : Scope) (label : String) (fn : Option Task)
    (options : QueueOptions) : Marks r e (e.register scope label fn options).2 := by
  have hc := chooseWorker (r := r) e scope
  unfold Engine.register
  dsimp only
  generalize e.chooseWorker scope = r at hc
  obtain ⟨w, e₁⟩ := r
  cases w with
  | error f => exact hc
  | ok w =>
    -- the context is made with its queue, on the chosen worker's own queue
    exact hc.trans (pushContext rfl rfl rfl rfl rfl rfl rfl)

/-- Moving a context retargets its queue, and no other. -/
theorem assignTo (e : Engine) (c w : Nat) :
    Marks (.assign ((e.contexts[c]?).map Context.queue)) e (e.assignTo c w) := by
  unfold Engine.assignTo
  split
  · rename_i ctx hctx
    split
    · exact refl e
    · have h1 : (e.modifyContext c fun ctx => { ctx with owner := w }).obs = e.obs :=
        obs_modifyContext c fun _ => rfl
      have h2 := obs_modifySerial (e := e.modifyContext c fun ctx => { ctx with owner := w })
        ctx.queue (g := fun b => { b with target := .thread (.pool w) b.prio })
        (f := fun s => { s with target := .thread (.pool w) s.prio }) fun _ => rfl
      rw [h1] at h2
      exact mark (m := .assign ctx.queue w) ⟨c, by simp [obs, hctx]⟩ (by simp [Mark.allowedBy, hctx])
        h2
  · exact refl e

/-- Moving a context, as running workers do. -/
theorem assignTo_run (e : Engine) (c w : Nat) : Marks .run e (e.assignTo c w) :=
  (assignTo e c w).mono fun _ => Mark.allowedBy_run_of_assign

/-! ## Running items -/

theorem perform (scope : Scope) : ∀ (t : Task) (e : Engine), Marks r e (e.perform scope t).1
  | .seq a b, e => by
    have ha : Marks r e (e.perform scope a).1 := perform scope a e
    simp only [Engine.perform]
    cases hr : e.perform scope a with
    | mk e₁ o =>
      rw [hr] at ha
      cases o with
      | some m => exact ha
      | none => exact ha.trans (perform scope b e₁)
  | .request c, e => requestDispatch e scope c
  | .post q t, e => dispatchAsync e scope q t
  | .register slot label fn opts, e => by
    have h := register (r := r) e scope label fn opts
    simp only [Engine.perform]
    generalize e.register scope label fn opts = r at h
    obtain ⟨_, e₁⟩ := r
    exact h.trans (of_obs rfl)
  | .closeTracker c, e | .clearPending c, e => modifyContext e c fun _ => rfl
  | .noop, e | .fail _, e | .log _ _, e | .add _ _, e | .probe _, e | .cancel _, e => of_obs rfl

theorem execute (e : Engine) (scope : Scope) (it : Item) : Marks r e (e.execute scope it) := by
  unfold Engine.execute
  cases it.job with
  | task t =>
    have h := perform (r := r) scope t e
    dsimp only
    cases hr : e.perform scope t with
    | mk e₁ o =>
      rw [hr] at h
      cases o with
      | some m => exact h.trans (of_obs rfl)
      | none => exact h
  | member slot t =>
    have h := perform (r := r) scope t e
    dsimp only
    generalize e.perform scope t = r at h ⊢
    obtain ⟨e₁, o⟩ := r
    exact h.trans (of_obs rfl)
  | drain _ | pill _ => exact refl e

theorem observe (e : Engine) (c : Nat) (it : Item) : Marks .run e (e.observe c it) := by
  unfold Engine.observe
  split
  · exact refl e
  · rename_i ctx _
    dsimp only
    generalize ctx.tracker.observe e.balancer.running (some ctx.owner) it.caller it.callerCtx = r
    obtain ⟨t, target⟩ := r
    have h1 : Marks .run e (e.modifyContext c fun ctx => { ctx with tracker := t }) :=
      modifyContext e c fun _ => rfl
    cases target with
    | some w =>
      -- the balancer moves the context to another worker
      dsimp only
      exact (h1.trans (assignTo_run _ c w)).trans (of_obs rfl)
    | none => exact h1

theorem drainItems {run : Scope → Item → Engine → Engine}
    (hrun : ∀ scope it e, Marks .run e (run scope it e)) (qscope : Scope) (id : Nat) :
    ∀ (n : Nat) (e : Engine) (done : Nat), Marks .run e (Engine.drainItems run qscope id n e done).1
  | 0, e, _ => refl e
  | n + 1, e, done => by
    unfold Engine.drainItems
    cases e.serials[id]? with
    | none => exact refl e
    | some s =>
      dsimp only
      split
      · exact refl e
      · cases s.tasks.pop with
        | mk o rest =>
          cases o with
          | none => exact refl e
          | some it =>
            dsimp only
            refine Marks.trans ?_ (drainItems hrun qscope id n _ _)
            split
            · exact (hrun _ _ _).frame (obs_modifySerial_of fun _ => rfl)
            · -- an item of a context's queue is shown to the balancer first
              cases s.pooled with
              | none => exact (execute _ _ _).frame (obs_modifySerial_of fun _ => rfl)
              | some c =>
                dsimp only
                exact ((observe _ c it).trans (execute _ _ _)).frame
                  (obs_modifySerial_of fun _ => rfl)

theorem drainBound {run : Scope → Item → Engine → Engine}
    (hrun : ∀ scope it e, Marks .run e (run scope it e)) (e : Engine) (scope : Scope) (id : Nat)
    (s : Serial) : Marks .run e (e.drainBound run scope id s) := by
  have h0 := drainItems hrun { scope with queue := some (.serial id), pooled := s.pooled <|> scope.pooled }
    id s.size.toNat e 0
  unfold Engine.drainBound
  dsimp only
  generalize Engine.drainItems run { scope with queue := some (.serial id), pooled := s.pooled <|> scope.pooled }
    id s.size.toNat e 0 = r at h0 ⊢
  obtain ⟨e₁, done⟩ := r
  have h1 : Marks .run e (e₁.modifySerial id fun s => { s with size := s.size - done, triggered := false }) :=
    h0.trans (of_obs (obs_modifySerial_of fun _ => rfl))
  dsimp only
  generalize e₁.modifySerial id (fun s => { s with size := s.size - done, triggered := false }) = e₂ at h1 ⊢
  cases e₂.serials[id]? with
  | none => exact h1
  | some s' =>
    dsimp only
    split
    · exact h1.trans (trigger _ _ _)
    · exact h1

/-- A queue that asks to be bound to its first drainer is bound to the worker draining it. -/
theorem pinTo {e : Engine} {id : Nat} {s : Serial} (hs : e.serials[id]? = some s) (scope : Scope) :
    Marks .run e (e.pinTo scope id s) := by
  unfold Engine.pinTo
  cases hw : scope.worker with
  | none => exact refl e
  | some w =>
    dsimp only
    split
    · rename_i hp
      simp only [Bool.and_eq_true, Bool.not_eq_eq_eq_not, Bool.not_true] at hp
      exact mark (m := .pin id w) ⟨s.binding, by simp [obs, hs], hp.1, hp.2⟩ rfl
        (obs_modifySerial id fun _ => rfl)
    · exact refl e

theorem drainWith {run : Scope → Item → Engine → Engine}
    (hrun : ∀ scope it e, Marks .run e (run scope it e)) (e : Engine) (scope : Scope) (id : Nat) :
    Marks .run e (e.drainWith run scope id) := by
  rw [Engine.drainWith_eq]
  cases hs : e.serials[id]? with
  | none => exact refl e
  | some s => exact (pinTo hs scope).trans (drainBound hrun _ scope id s)

theorem runJob : ∀ (fuel : Nat) (scope : Scope) (it : Item) (e : Engine),
    Marks .run e (Engine.runJob fuel scope it e)
  | 0, _, _, e => refl e
  | fuel + 1, scope, it, e => by
    unfold Engine.runJob
    cases it.job with
    | drain id => exact drainWith (runJob fuel) e scope id
    | pill w =>
      dsimp only
      split
      · exact modifyWorker _ _ _
      · exact refl e
    | task _ | member _ _ => exact execute e scope it

/-! ## Workers taking and leaving -/

theorem takeAt {e e' : Engine} {w : WorkerId} {p : Priority} {scope : Scope} {it : Item}
    (h : e.takeAt w p = some (scope, it, e')) : Marks r e e' := by
  unfold Engine.takeAt at h
  split at h
  · cases h
  · split at h
    · simp only [Option.some.injEq, Prod.mk.injEq] at h
      obtain ⟨-, -, rfl⟩ := h
      exact modifyWorker _ _ _
    · split at h
      · cases h
      · split at h
        · simp only [Option.some.injEq, Prod.mk.injEq] at h
          obtain ⟨-, -, rfl⟩ := h
          exact of_obs rfl
        · cases h

theorem nextItem {e e' : Engine} {w : WorkerId} {scope : Scope} {it : Item}
    (h : e.nextItem w = some (scope, it, e')) : Marks r e e' := by
  obtain ⟨p, hp⟩ := Engine.nextItem_eq_some h
  exact takeAt hp

theorem handOver (e : Engine) (w : WorkerId) : Marks r e (e.handOver w) := by
  rw [Engine.handOver_eq]
  refine foldl (fun e p => ?_) _ e
  unfold Engine.handOverAt
  split
  · dsimp only
    exact (modifyWorker _ _ _).trans
      (foldl (fun e it => (of_obs rfl : Marks r e (e.pushGlobal p it))) _ _)
  · exact refl e

/-- A worker that leaves hands its contexts to the live worker in turn. -/
theorem adoptOrphans (e : Engine) (i : Nat) : Marks .run e (e.adoptOrphans i) := by
  unfold Engine.adoptOrphans
  dsimp only
  split
  · exact refl e
  · rename_i h
    split
    · exact refl e
    · rename_i hk
      refine (pick (live_ne_nil_of h) (Int.not_lt.mp hk)).trans ?_
      exact foldl (fun e c => assignTo_run e c _) _ _

theorem exitWorker (e : Engine) (i : Nat) : Marks .run e (e.exitWorker i) := by
  unfold Engine.exitWorker
  dsimp only
  have h1 := (modifyWorker (r := .run) e (.pool i) fun wk => { wk with status := .terminated }).trans
    (handOver _ (.pool i))
  generalize (e.modifyWorker (.pool i) fun wk => { wk with status := .terminated }).handOver
    (.pool i) = e₁ at h1 ⊢
  have h2 : Marks .run e { e₁ with live := e₁.live.erase i } :=
    h1.trans (mark (m := .exit i) trivial rfl rfl)
  -- while the engine runs on, the worker's contexts are adopted
  have h3 : ∀ e₂ : Engine, Marks .run e e₂ → Marks .run e (if e₂.shutdown then e₂ else e₂.adoptOrphans i) := by
    intro e₂ h
    split
    · exact h
    · exact h.trans (adoptOrphans e₂ i)
  exact (h3 _ h2).trans (of_obs rfl)

theorem stepWorker {e e' : Engine} {w : WorkerId} (h : e.stepWorker w = some e') : Marks .run e e' := by
  unfold Engine.stepWorker at h
  cases hn : e.nextItem w with
  | none => simp [hn] at h
  | some r =>
    obtain ⟨scope, it, e₁⟩ := r
    simp only [hn] at h
    have h1 := (nextItem hn).trans (runJob e₁.nestingDepth scope it e₁)
    cases w with
    | main => obtain rfl := Option.some.inj h; exact h1
    | pool i =>
      dsimp only at h
      split at h
      · obtain rfl := Option.some.inj h
        split
        · exact h1.trans (exitWorker _ i)
        · exact h1
      · obtain rfl := Option.some.inj h; exact h1

theorem findStep {e e' : Engine} (h : (e.live.findSome? fun i => e.stepWorker (.pool i)) = some e') :
    Marks .run e e' := by
  obtain ⟨i, -, hi⟩ := List.exists_of_findSome?_eq_some h
  exact stepWorker hi

/-! ## Running the pool and the timer -/

theorem runPoolFor : ∀ (k : Nat) (e : Engine), Marks .run e (Engine.runPoolFor k e)
  | 0, e => refl e
  | k + 1, e => by
    unfold Engine.runPoolFor
    cases hr : e.live.findSome? fun i => e.stepWorker (.pool i) with
    | none => exact refl e
    | some e' => exact (findStep hr).trans (runPoolFor k e')

theorem fireTimers (e : Engine) : Marks r e e.fireTimers := by
  unfold Engine.fireTimers
  generalize e.timer.advance (e.clock + Engine.timerHorizon) = tj
  obtain ⟨t, jobs⟩ := tj
  have h0 : Marks r e { e with timer := t } := of_obs rfl
  refine h0.trans (foldl (fun e j => ?_) jobs _)
  obtain ⟨q, task⟩ := j
  exact (dispatchAsync e Scope.outside q task).trans (of_obs rfl)

theorem runPool (e : Engine) : Marks .run e e.runPool :=
  (fireTimers e).trans (runPoolFor _ _)

theorem runBothFor : ∀ (k : Nat) (e : Engine), Marks .run e (Engine.runBothFor k e)
  | 0, e => refl e
  | k + 1, e => by
    unfold Engine.runBothFor
    cases hm : e.stepWorker .main with
    | some e' => exact (stepWorker hm).trans (runBothFor k e')
    | none =>
      dsimp only
      cases hr : e.live.findSome? fun i => e.stepWorker (.pool i) with
      | none => exact refl e
      | some e' => exact (findStep hr).trans (runBothFor k e')

/-! ## Starting and stopping -/

theorem stopAll (e : Engine) : Marks .run e e.stopAll := by
  unfold Engine.stopAll
  dsimp only
  have h := (foldl (fun e i => pushThread e Scope.outside (.pool i) .low ⟨.pill i, none, none⟩)
    (List.range e.workers.size) { e with shutdown := true }).trans (runPool _)
  exact (h.frame rfl).trans (of_obs rfl)

/-- Starting pool workers from the next index: each is made, and goes live unless it fails, which
stops the engine. -/
theorem startWorkers : ∀ (n : Nat) (e : Engine) (i : Nat), e.started = true → i = e.workers.size →
    Marks .run e (e.startWorkers i n).2
  | 0, e, _, _, _ => refl e
  | n + 1, e, i, hs, hi => by
    unfold Engine.startWorkers
    dsimp only
    split
    · -- the worker is made but fails to start
      exact ((mark (m := .make) hs rfl (by simp [obs, Mark.apply])).trans
        (modifyWorker _ _ _)).trans (stopAll _)
    · -- the worker is made and goes live
      exact (mark (m := .spawn) hs rfl (by simp [obs, Mark.apply, hi])).trans
        (startWorkers n _ (i + 1) hs (by simp [hi]))

/-- Starting an engine that has made no worker yet. -/
theorem start {e : Engine} (hw : e.started = false → e.workers.size = 0) : Marks .run e e.start.2 := by
  unfold Engine.start
  split
  · exact refl e
  · split
    · exact refl e
    · rename_i hst
      have hst' : e.started = false := by simpa using hst
      dsimp only
      exact (mark (m := .begin) hst' rfl rfl).trans (startWorkers _ _ 0 rfl (hw hst').symm)

theorem stop (e : Engine) : Marks .run e e.stop.2 := by
  unfold Engine.stop
  split
  · exact refl e
  · exact stopAll e

/-! ## The other calls -/

theorem runGroup (e : Engine) (scope : Scope) (q : QueueRef) (n : Nat) (task : Nat → Nat → Task) :
    Marks .run e (e.runGroup scope q n task).2 := by
  unfold Engine.runGroup
  cases e.accepting with
  | error f => exact refl e
  | ok u =>
    cases u
    have hw : Marks .run e (e.openWait n).2 := of_obs rfl
    dsimp only
    generalize e.openWait n = se at hw
    obtain ⟨slot, e₁⟩ := se
    dsimp only
    -- the members are posted one after the other, then the pool runs
    refine hw.trans ((foldl (fun e' i => post e' scope q ⟨.member slot (task slot i), none, none⟩)
      (List.range n) e₁).trans ?_)
    split <;> exact runPool _

theorem dispatchMain (e : Engine) (slot : Nat) : Marks .run e (e.dispatchMain slot).2 := by
  unfold Engine.dispatchMain
  split
  · exact refl e
  · dsimp only
    have h := (fireTimers e).trans (runBothFor Engine.stepBudget e.fireTimers)
    split
    · exact h
    · exact h

theorem resume (e : Engine) (id : Nat) : Marks r e (e.resume id).2 := by
  unfold Engine.resume
  split
  · exact refl e
  · dsimp only
    split
    · exact refl e
    · split
      · exact (trigger _ _ _).frame (obs_modifySerial_of fun _ => rfl)
      · exact of_obs (obs_modifySerial_of fun _ => rfl)

theorem retain (e : Engine) (id : Nat) : Marks r e (e.retain id).2 := by
  unfold Engine.retain
  split
  · exact refl e
  · dsimp only
    split <;> exact of_obs (obs_modifySerial_of fun _ => rfl)

theorem release (e : Engine) (id : Nat) : Marks r e (e.release id).2 := by
  unfold Engine.release
  split
  · exact refl e
  · rename_i s _
    dsimp only
    have h1 : Marks r e (e.modifySerial id fun s' => { s' with refs := s.refs - 1 }) :=
      modifySerial e id fun _ => rfl
    generalize e.modifySerial id (fun s' => { s' with refs := s.refs - 1 }) = e₁ at h1 ⊢
    have h2 : Marks r e (e₁.modifySerial id fun s' => { s' with disposed := true, disposer := none }) :=
      h1.trans (modifySerial e₁ id fun _ => rfl)
    generalize e₁.modifySerial id (fun s' => { s' with disposed := true, disposer := none }) = e₂ at h2 ⊢
    split
    · exact h1
    · split
      · exact h1
      · -- the last hold lets the queue go: its disposer is posted once
        split
        · exact h2.trans (dispatchAsync _ _ _ _)
        · exact h2

/-- Pointing a queue elsewhere on request: that queue, and no other. -/
theorem setTarget (e : Engine) (id : Nat) (onto : Option QueueRef) :
    Marks (.retarget id) e (e.setTarget id onto).2 := by
  unfold Engine.setTarget
  split
  · exact refl e
  · rename_i s hs
    dsimp only
    split
    · exact refl e
    · rename_i hne
      exact mark (m := .retarget id (onto.getD (.global s.prio))) (by simpa [Mark.Valid] using hne)
        (by simp [Mark.allowedBy]) (obs_modifySerial id fun _ => rfl)

theorem closeContext (e : Engine) (c : Nat) : Marks r e (e.closeContext c).2 := by
  unfold Engine.closeContext
  split
  · exact refl e
  · rename_i ctx _
    dsimp only
    split
    · exact refl e
    · -- the context is closed and its queue given a disposer, which nothing here sees
      let e₁ := e.modifyContext c fun ctx => { ctx with closed := true, registered := false }
      have h1 : (e₁.setDisposer ctx.queue (some (.closeTracker c))).obs = e₁.obs :=
        obs_modifySerial_of fun _ => rfl
      have h2 : e₁.obs = e.obs := obs_modifyContext c fun _ => rfl
      exact (release _ _).frame (h1.trans h2)

theorem createPartitioned (e : Engine) (label : String) (k : Int) (options : QueueOptions) :
    Marks r e (e.createPartitioned label k options).2 := by
  unfold Engine.createPartitioned
  split
  · exact refl e
  · dsimp only
    -- every partition is a new serial queue
    generalize (if label.isEmpty then e.freshLabel "partitioned" else label) = name
    generalize (⟨name, Courier.Hash.Ring.create Courier.Hash.defaultReplicas, []⟩ : Partitioned) = pq
    generalize List.range k.toNat = is
    induction is generalizing pq e with
    | nil => exact refl e
    | cons i is ih => exact (createSerial e (name ++ "-" ++ toString i) .normal options).trans (ih _ _)

theorem schedule (e : Engine) (scope : Scope) (t : Task) (delay : Int) :
    Marks r e (e.schedule scope t delay).2 := by
  have hc := chooseWorker (r := r) e scope
  unfold Engine.schedule
  generalize e.chooseWorker scope = r at hc
  obtain ⟨w, e₁⟩ := r
  cases w with
  | error f => exact hc
  | ok w =>
    dsimp only
    split
    · exact hc.trans (dispatchAsync _ _ _ _)
    · split
      · exact hc.trans (of_obs rfl)
      · exact hc

theorem dispatchAfter (e : Engine) (q : QueueRef) (t : Task) (delay : Int) :
    Marks r e (e.dispatchAfter q t delay).2 := by
  unfold Engine.dispatchAfter
  split
  · exact of_obs rfl
  · exact refl e

end Marks

/-- The engine's calls, each with its role: `setTarget` points the queue it names elsewhere,
`assignTo` moves the context it names, a worker's step, starting and stopping, running a group,
the pool or the main worker run workers, and the other calls are plain. -/
inductive Called : Role → Engine → Engine → Prop
  | dispatchAsync (e : Engine) (scope : Scope) (q : QueueRef) (t : Task) :
      Called .plain e (e.dispatchAsync scope q t)
  | step (e : Engine) {e' : Engine} (w : WorkerId) (h : e.stepWorker w = some e') : Called .run e e'
  | suspend (e : Engine) (id : Nat) : Called .plain e (e.suspend id)
  | resume (e : Engine) (id : Nat) : Called .plain e (e.resume id).2
  | retain (e : Engine) (id : Nat) : Called .plain e (e.retain id).2
  | release (e : Engine) (id : Nat) : Called .plain e (e.release id).2
  | setDisposer (e : Engine) (id : Nat) (t : Option Task) : Called .plain e (e.setDisposer id t)
  | setTarget (e : Engine) (id : Nat) (onto : Option QueueRef)
      (h : ∀ t, onto = some (.serial t) → t < e.serials.size) :
      Called (.retarget id) e (e.setTarget id onto).2
  | assignTo (e : Engine) (c w : Nat) :
      Called (.assign ((e.contexts[c]?).map Context.queue)) e (e.assignTo c w)
  | createSerial (e : Engine) (label : String) (prio : Priority) (options : QueueOptions) :
      Called .plain e (e.createSerial label prio options).2
  | createPartitioned (e : Engine) (label : String) (k : Int) (options : QueueOptions) :
      Called .plain e (e.createPartitioned label k options).2
  | register (e : Engine) (scope : Scope) (label : String) (fn : Option Task)
      (options : QueueOptions) : Called .plain e (e.register scope label fn options).2
  | requestDispatch (e : Engine) (scope : Scope) (c : Nat) :
      Called .plain e (e.requestDispatch scope c)
  | closeContext (e : Engine) (c : Nat) : Called .plain e (e.closeContext c).2
  | start (e : Engine) : Called .run e e.start.2
  | stop (e : Engine) : Called .run e e.stop.2
  | runGroup (e : Engine) (scope : Scope) (q : QueueRef) (k : Nat) (task : Nat → Nat → Task) :
      Called .run e (e.runGroup scope q k task).2
  | dispatchAfter (e : Engine) (q : QueueRef) (t : Task) (delay : Int) :
      Called .plain e (e.dispatchAfter q t delay).2
  | schedule (e : Engine) (scope : Scope) (t : Task) (delay : Int) :
      Called .plain e (e.schedule scope t delay).2
  | runPool (e : Engine) : Called .run e e.runPool
  | dispatchMain (e : Engine) (slot : Nat) : Called .run e (e.dispatchMain slot).2
  | newCell (e : Engine) : Called .plain e e.newCell.2
  | openWait (e : Engine) (k : Nat) : Called .plain e (e.openWait k).2

namespace Called

variable {r : Role} {e e' : Engine}

/-- A call with its role is a call. -/
theorem call (c : Called r e e') : Call e e' := by
  cases c with
  | dispatchAsync _ scope q t => exact .dispatchAsync _ scope q t
  | step _ w h => exact .step _ w h
  | suspend _ id => exact .suspend _ id
  | resume _ id => exact .resume _ id
  | retain _ id => exact .retain _ id
  | release _ id => exact .release _ id
  | setDisposer _ id t => exact .setDisposer _ id t
  | setTarget _ id onto h => exact .setTarget _ id onto h
  | assignTo _ c w => exact .assignTo _ c w
  | createSerial _ label prio options => exact .createSerial _ label prio options
  | createPartitioned _ label k options => exact .createPartitioned _ label k options
  | register _ scope label fn options => exact .register _ scope label fn options
  | requestDispatch _ scope c => exact .requestDispatch _ scope c
  | closeContext _ c => exact .closeContext _ c
  | start _ => exact .start _
  | stop _ => exact .stop _
  | runGroup _ scope q k task => exact .runGroup _ scope q k task
  | dispatchAfter _ q t delay => exact .dispatchAfter _ q t delay
  | schedule _ scope t delay => exact .schedule _ scope t delay
  | runPool _ => exact .runPool _
  | dispatchMain _ slot => exact .dispatchMain _ slot
  | newCell _ => exact .newCell _
  | openWait _ k => exact .openWait _ k

/-- Every call of an engine that has made no worker before starting is a walk of the changes
its role allows. -/
theorem marks (hw : e.started = false → e.workers.size = 0) (c : Called r e e') : Marks r e e' := by
  cases c with
  | dispatchAsync _ scope q t => exact Marks.dispatchAsync _ scope q t
  | step _ w h => exact Marks.stepWorker h
  | suspend _ id => exact Marks.modifySerial _ id fun _ => rfl
  | resume _ id => exact Marks.resume _ id
  | retain _ id => exact Marks.retain _ id
  | release _ id => exact Marks.release _ id
  | setDisposer _ id t => exact Marks.modifySerial _ id fun _ => rfl
  | setTarget _ id onto _ => exact Marks.setTarget _ id onto
  | assignTo _ c w => exact Marks.assignTo _ c w
  | createSerial _ label prio options => exact Marks.createSerial _ label prio options
  | createPartitioned _ label k options => exact Marks.createPartitioned _ label k options
  | register _ scope label fn options => exact Marks.register _ scope label fn options
  | requestDispatch _ scope c => exact Marks.requestDispatch _ scope c
  | closeContext _ c => exact Marks.closeContext _ c
  | start _ => exact Marks.start hw
  | stop _ => exact Marks.stop _
  | runGroup _ scope q k task => exact Marks.runGroup _ scope q k task
  | dispatchAfter _ q t delay => exact Marks.dispatchAfter _ q t delay
  | schedule _ scope t delay => exact Marks.schedule _ scope t delay
  | runPool _ => exact Marks.runPool _
  | dispatchMain _ slot => exact Marks.dispatchMain _ slot
  | newCell _ => exact Marks.of_obs rfl
  | openWait _ k => exact Marks.of_obs rfl

end Called

/-- Every call has its role. -/
theorem Call.called {e e' : Engine} (c : Call e e') : ∃ r, Called r e e' := by
  cases c with
  | dispatchAsync scope q t => exact ⟨_, .dispatchAsync e scope q t⟩
  | step w h => exact ⟨_, .step e w h⟩
  | suspend id => exact ⟨_, .suspend e id⟩
  | resume id => exact ⟨_, .resume e id⟩
  | retain id => exact ⟨_, .retain e id⟩
  | release id => exact ⟨_, .release e id⟩
  | setDisposer id t => exact ⟨_, .setDisposer e id t⟩
  | setTarget id onto h => exact ⟨_, .setTarget e id onto h⟩
  | assignTo c w => exact ⟨_, .assignTo e c w⟩
  | createSerial label prio options => exact ⟨_, .createSerial e label prio options⟩
  | createPartitioned label k options => exact ⟨_, .createPartitioned e label k options⟩
  | register scope label fn options => exact ⟨_, .register e scope label fn options⟩
  | requestDispatch scope c => exact ⟨_, .requestDispatch e scope c⟩
  | closeContext c => exact ⟨_, .closeContext e c⟩
  | start => exact ⟨_, .start e⟩
  | stop => exact ⟨_, .stop e⟩
  | runGroup scope q k task => exact ⟨_, .runGroup e scope q k task⟩
  | dispatchAfter q t delay => exact ⟨_, .dispatchAfter e q t delay⟩
  | schedule scope t delay => exact ⟨_, .schedule e scope t delay⟩
  | runPool => exact ⟨_, .runPool e⟩
  | dispatchMain slot => exact ⟨_, .dispatchMain e slot⟩
  | newCell => exact ⟨_, .newCell e⟩
  | openWait k => exact ⟨_, .openWait e k⟩

/-- A run of calls, with the role of each, in order. -/
inductive Called.Run : Engine → List Role → Engine → Prop
  | nil (e : Engine) : Run e [] e
  | tail {e₁ e₂ e₃ : Engine} {rs : List Role} {r : Role} (h : Run e₁ rs e₂) (c : Called r e₂ e₃) :
      Run e₁ (rs ++ [r]) e₃

/-- A run of calls with their roles is a run of calls. -/
theorem Called.Run.calls {e e' : Engine} {rs : List Role} (h : Called.Run e rs e') :
    Relation.ReflTransGen Call e e' := by
  induction h with
  | nil => exact .refl
  | tail _ c ih => exact ih.tail c.call

/-- Every run of calls is one with roles. -/
theorem Called.Run.of_calls {e e' : Engine} (h : Relation.ReflTransGen Call e e') :
    ∃ rs, Called.Run e rs e' := by
  induction h with
  | refl => exact ⟨[], .nil _⟩
  | tail _ c ih =>
    obtain ⟨rs, h⟩ := ih
    obtain ⟨r, c⟩ := c.called
    exact ⟨rs ++ [r], h.tail c⟩

/-- A new engine has made no worker and has none live. -/
theorem obs_sane_of_create {s : Settings} {cpus : Nat} {b : Balancer Nat} {failAt : Option Nat}
    {tag : String} {clock : Int} {e : Engine} (h : Engine.create s cpus b failAt tag clock = .ok e) :
    e.obs.Sane := by
  unfold Engine.create at h
  cases hv : s.validate with
  | error f => simp [hv, bind, Except.bind] at h
  | ok u =>
    simp only [hv, bind, Except.bind, pure, Except.pure, Except.ok.injEq] at h
    subst h
    exact ⟨fun _ => ⟨rfl, rfl⟩, List.Sublist.slnil⟩

/-- Every run of calls from an engine with a sane observation is a walk, to an engine with a
sane observation, in which each call makes changes that its role allows. -/
theorem marks_of_run {e e' : Engine} {rs : List Role} (h : Called.Run e rs e') (hs : e.obs.Sane) :
    ∃ calls : List (Role × List Mark), calls.map Prod.fst = rs ∧
      (∀ c ∈ calls, ∀ m ∈ c.2, m.allowedBy c.1 = true) ∧
      Obs.Walk e.obs (calls.flatMap Prod.snd) e'.obs ∧ e'.obs.Sane := by
  induction h with
  | nil => exact ⟨[], rfl, (fun _ h => by cases h), .nil _, hs⟩
  | @tail _ _ _ r _ c ih =>
    obtain ⟨calls, hr, ha, hw, hs'⟩ := ih
    obtain ⟨ms, hw', ha'⟩ := c.marks fun h => (hs'.unstarted h).1
    refine ⟨calls ++ [(r, ms)], by simp [hr], fun c hc => ?_, ?_, hs'.walk hw'⟩
    · rcases List.mem_append.mp hc with hc | hc
      · exact ha c hc
      · rw [List.mem_singleton.mp hc]
        exact ha'
    · rw [List.flatMap_append, List.flatMap_singleton]
      exact hw.append hw'

/-- Every run of calls from an engine with a sane observation is a walk, to an engine with a
sane observation. -/
theorem marks_of_calls {e e' : Engine} (h : Relation.ReflTransGen Call e e') (hs : e.obs.Sane) :
    ∃ ms, Obs.Walk e.obs ms e'.obs ∧ e'.obs.Sane := by
  obtain ⟨rs, h⟩ := Called.Run.of_calls h
  obtain ⟨calls, -, -, hw, hs'⟩ := marks_of_run h hs
  exact ⟨_, hw, hs'⟩

/-- Every engine made and then called has a sane observation. -/
theorem Reachable.obs_sane {e : Engine} (h : e.Reachable) : e.obs.Sane := by
  induction h with
  | create _ _ _ _ _ _ hc => exact obs_sane_of_create hc
  | call _ c ih =>
    obtain ⟨r, c⟩ := c.called
    obtain ⟨ms, hw, -⟩ := c.marks fun h => (ih.unstarted h).1
    exact ih.walk hw

end Engine

end Courier.Dispatch
