import Courier.Dispatch.Wake
import Courier.Proofs.Dispatch.Queued

/-!
# No wake-up is lost

A worker parks in an order that pairs with the order of a post: it joins the idle list and stores
`idle`, and only then looks at every source once more before it waits; a post pushes its item,
and only then looks for a worker to wake. Whichever comes second sees the first: a post after a
worker's last look finds it on the idle list, or reads its state as `idle`, and its signal is then
due to a parked worker; an item pushed before the last look is found by it.

`Pool.Inv` says this of every state, posts under way included:

- each worker holds the state word of its point of the loop, its flag says whether it is on the
  idle list, and the idle list holds started workers, each once;
- a worker between joining the idle list and waiting is on the list or has a signal due
  (`Pool.wakeDue`);
- an item in a worker's own queue that its last look missed has a signal due to the worker, or a
  post about to read the worker's state, which then reads `idle`;
- an item in a global queue has a `wakeupOne` under way, or a started worker ready for it
  (`Pool.ready`: its last look did not miss it, or a signal is due to it), or no worker has
  started.

Every step keeps it (`Pool.Inv.step`), so every reachable state has it (`Pool.Reachable.inv`).
Once no post is under way, the last two items say that no wake-up is lost: a worker blocked on an
empty wake channel has nothing in its own queues, and an item in a global queue leaves a started
worker unblocked (`Pool.Reachable.no_lost_wakeup`).
-/

set_option autoImplicit false

namespace Courier.Dispatch.Wake

/-- Every source is among those a worker looks at. -/
theorem mem_slots (x : Priority × Source) : x ∈ slots := by
  obtain ⟨p, src⟩ := x
  cases p <;> cases src <;> decide

/-! ## Points of the loop -/

namespace Pc

/-- The state word a worker holds at each point of its loop. -/
def status : Pc → Status
  | start => .starting
  | check _ | wait | removeIdle | resume => .idle
  | _ => .running

/-- Between joining the idle list and waking or finding work. -/
def parked : Pc → Prop
  | storeIdle | check _ | wait => True
  | _ => False

/-- In its last look over the sources the worker has found `x` empty, and it has not gone back
to its loop since. -/
def looked (x : Priority × Source) : Pc → Prop
  | check k => x ∈ slots.take k
  | wait => True
  | _ => False

theorem parked_of_looked {pc : Pc} {x : Priority × Source} (h : pc.looked x) : pc.parked := by
  cases pc <;> simp_all [looked, parked]

theorem status_of_looked {pc : Pc} {x : Priority × Source} (h : pc.looked x) : pc.status = .idle := by
  cases pc <;> simp_all [looked, status]

theorem status_ne_starting {pc : Pc} (h : pc ≠ .start) : pc.status ≠ .starting := by
  cases pc <;> simp_all [status]

/-- A last look that goes on past `y` has looked at `y` and at what it had looked at. -/
theorem looked_check_succ {k : Nat} {y x : Priority × Source} (hk : slots[k]? = some y)
    (h : (check (k + 1)).looked x) : x = y ∨ (check k).looked x := by
  simp only [looked, List.take_add_one, hk, Option.toList_some, List.mem_append,
    List.mem_singleton] at h
  exact h.symm

/-- A last look that has gone past every source has looked at each. -/
theorem looked_check_of_none {k : Nat} (hk : slots[k]? = none) (x : Priority × Source) :
    (check k).looked x := by
  simp only [looked]
  rw [List.take_of_length_le (List.getElem?_eq_none_iff.mp hk)]
  exact mem_slots x

end Pc

/-- A post under way that will send on the wake channel of `w`. -/
def Call.signals {n : Nat} (w : Fin n) : Call n → Prop
  | .removeIdle v | .signal v => v = w
  | _ => False

/-- Two workers at the same point of the loop, with the same state word and own queues. -/
def Worker.Same (a b : Worker) : Prop :=
  a.pc = b.pc ∧ a.status = b.status ∧ a.mine = b.mine ∧ a.others = b.others

theorem Worker.Same.refl (wk : Worker) : wk.Same wk := ⟨rfl, rfl, rfl, rfl⟩

/-! ## Changes to the pool -/

namespace Pool

variable {n : Nat} {s : Pool n} {w : Fin n}

theorem modify_workers (s : Pool n) (w : Fin n) (f : Worker → Worker) (v : Fin n) :
    (s.modify w f).workers v = if v = w then f (s.workers w) else s.workers v := rfl

@[simp] theorem modify_self (s : Pool n) (w : Fin n) (f : Worker → Worker) :
    (s.modify w f).workers w = f (s.workers w) := by
  simp [modify_workers]

theorem modify_of_ne (s : Pool n) {v w : Fin n} (f : Worker → Worker) (h : v ≠ w) :
    (s.modify w f).workers v = s.workers v := by
  simp [modify_workers, h]

@[simp] theorem modify_global (s : Pool n) (w : Fin n) (f : Worker → Worker) :
    (s.modify w f).global = s.global := rfl

@[simp] theorem modify_idleList (s : Pool n) (w : Fin n) (f : Worker → Worker) :
    (s.modify w f).idleList = s.idleList := rfl

@[simp] theorem modify_calls (s : Pool n) (w : Fin n) (f : Worker → Worker) :
    (s.modify w f).calls = s.calls := rfl

@[simp] theorem await_workers (s : Pool n) (c : Call n) : (s.await c).workers = s.workers := rfl

@[simp] theorem await_global (s : Pool n) (c : Call n) : (s.await c).global = s.global := rfl

@[simp] theorem await_idleList (s : Pool n) (c : Call n) : (s.await c).idleList = s.idleList := rfl

@[simp] theorem await_calls (s : Pool n) (c : Call n) : (s.await c).calls = c :: s.calls := rfl

/-- A source read in two pools that agree on the reader and on the global queues. -/
theorem source_congr {s' : Pool n} {v : Fin n} (hw : s'.workers v = s.workers v)
    (hg : s'.global = s.global) (x : Priority × Source) : s'.source v x = s.source v x := by
  obtain ⟨p, _ | _ | _⟩ := x <;> simp [source, hw, hg]

/-- A source of a worker's own queue reads the same for a worker with the same own queues. -/
theorem source_of_same {s' : Pool n} {v : Fin n} (hw : (s'.workers v).Same (s.workers v))
    {x : Priority × Source} (hx : x.2 ≠ .global) : s'.source v x = s.source v x := by
  obtain ⟨p, _ | _ | _⟩ := x <;> simp_all [source, Worker.Same]

/-- Setting a source leaves every worker's point of the loop, state word, flag and channel. -/
theorem setSource_workers (s : Pool n) (w : Fin n) (x : Priority × Source) (l : List Item)
    (v : Fin n) : ((s.setSource w x l).workers v).pc = (s.workers v).pc ∧
      ((s.setSource w x l).workers v).status = (s.workers v).status ∧
      ((s.setSource w x l).workers v).idle = (s.workers v).idle ∧
      ((s.setSource w x l).workers v).woken = (s.workers v).woken := by
  obtain ⟨p, _ | _ | _⟩ := x <;> by_cases hv : v = w <;>
    simp [setSource, modify_workers, hv]

/-- Setting a source changes what is read of it and nothing else. -/
theorem source_setSource (s : Pool n) (w : Fin n) (x : Priority × Source) (l : List Item)
    (v : Fin n) (y : Priority × Source) :
    (s.setSource w x l).source v y =
      if y = x ∧ (x.2 = .global ∨ v = w) then l else s.source v y := by
  obtain ⟨p, _ | _ | _⟩ := x <;> obtain ⟨q, _ | _ | _⟩ := y <;> by_cases hv : v = w <;>
    by_cases hq : q = p <;>
    simp_all [setSource, source, modify_workers, PerPriority.get_set_of_ne]

@[simp] theorem setSource_idleList (s : Pool n) (w : Fin n) (x : Priority × Source)
    (l : List Item) : (s.setSource w x l).idleList = s.idleList := by
  obtain ⟨p, _ | _ | _⟩ := x <;> rfl

@[simp] theorem setSource_calls (s : Pool n) (w : Fin n) (x : Priority × Source) (l : List Item) :
    (s.setSource w x l).calls = s.calls := by
  obtain ⟨p, _ | _ | _⟩ := x <;> rfl

/-- Setting a worker's flag changes nothing else of the workers. -/
theorem setIdle_workers (s : Pool n) (w : Fin n) (b : Bool) (l : List (Fin n)) (v : Fin n) :
    ((s.setIdle w b l).workers v).Same (s.workers v) ∧
      ((s.setIdle w b l).workers v).woken = (s.workers v).woken ∧
      ((s.setIdle w b l).workers v).idle = if v = w then b else (s.workers v).idle := by
  by_cases hv : v = w <;> simp [setIdle, modify_workers, hv, Worker.Same]

@[simp] theorem setIdle_idleList (s : Pool n) (w : Fin n) (b : Bool) (l : List (Fin n)) :
    (s.setIdle w b l).idleList = l := rfl

@[simp] theorem setIdle_global (s : Pool n) (w : Fin n) (b : Bool) (l : List (Fin n)) :
    (s.setIdle w b l).global = s.global := rfl

@[simp] theorem setIdle_calls (s : Pool n) (w : Fin n) (b : Bool) (l : List (Fin n)) :
    (s.setIdle w b l).calls = s.calls := rfl

@[simp] theorem finish_workers (s : Pool n) (c : Call n) : (s.finish c).workers = s.workers := rfl

@[simp] theorem finish_global (s : Pool n) (c : Call n) : (s.finish c).global = s.global := rfl

@[simp] theorem finish_idleList (s : Pool n) (c : Call n) : (s.finish c).idleList = s.idleList := rfl

@[simp] theorem finish_calls (s : Pool n) (c : Call n) : (s.finish c).calls = s.calls.erase c := rfl

/-- Joining the idle list changes only the worker's flag. -/
theorem addIdle_workers (s : Pool n) (w v : Fin n) :
    ((s.addIdle w).workers v).Same (s.workers v) ∧
      ((s.addIdle w).workers v).woken = (s.workers v).woken ∧
      ((s.addIdle w).workers v).idle = ((s.workers v).idle || decide (v = w)) := by
  unfold Pool.addIdle
  split
  · rename_i hi
    refine ⟨.refl _, rfl, ?_⟩
    by_cases hv : v = w
    · subst hv; simp [hi]
    · simp [hv]
  · obtain ⟨h1, h2, h3⟩ := setIdle_workers s w true (s.idleList ++ [w]) v
    refine ⟨h1, h2, ?_⟩
    rw [h3]
    by_cases hv : v = w <;> simp [hv]

@[simp] theorem addIdle_global (s : Pool n) (w : Fin n) : (s.addIdle w).global = s.global := by
  unfold Pool.addIdle; split <;> rfl

@[simp] theorem addIdle_calls (s : Pool n) (w : Fin n) : (s.addIdle w).calls = s.calls := by
  unfold Pool.addIdle; split <;> rfl

/-- Leaving the idle list changes only the worker's flag. -/
theorem removeIdle_workers (s : Pool n) (w v : Fin n) :
    ((s.removeIdle w).workers v).Same (s.workers v) ∧
      ((s.removeIdle w).workers v).woken = (s.workers v).woken ∧
      ((s.removeIdle w).workers v).idle = ((s.workers v).idle && !decide (v = w)) := by
  unfold Pool.removeIdle
  split
  · obtain ⟨h1, h2, h3⟩ := setIdle_workers s w false (s.idleList.erase w) v
    refine ⟨h1, h2, ?_⟩
    rw [h3]
    by_cases hv : v = w <;> simp [hv]
  · rename_i hi
    refine ⟨.refl _, rfl, ?_⟩
    by_cases hv : v = w
    · subst hv; simp [hi]
    · simp [hv]

@[simp] theorem removeIdle_global (s : Pool n) (w : Fin n) : (s.removeIdle w).global = s.global := by
  unfold Pool.removeIdle; split <;> rfl

@[simp] theorem removeIdle_calls (s : Pool n) (w : Fin n) : (s.removeIdle w).calls = s.calls := by
  unfold Pool.removeIdle; split <;> rfl

/-- While the flags follow the idle list, a worker that leaves it is taken out of the list, and
the flags still follow it. -/
theorem removeIdle_mirror (hi : ∀ v, (s.workers v).idle = true ↔ v ∈ s.idleList)
    (hd : s.idleList.Nodup) (w : Fin n) :
    (s.removeIdle w).idleList = s.idleList.erase w ∧
      (∀ v, ((s.removeIdle w).workers v).idle = true ↔ v ∈ (s.removeIdle w).idleList) ∧
      (s.removeIdle w).idleList.Nodup := by
  have hl : (s.removeIdle w).idleList = s.idleList.erase w := by
    unfold Pool.removeIdle
    split
    · rfl
    · rename_i hw
      exact (List.erase_of_not_mem fun hm => hw ((hi w).mpr hm)).symm
  refine ⟨hl, fun v => ?_, hl ▸ hd.erase w⟩
  rw [(removeIdle_workers s w v).2.2, hl, hd.mem_erase_iff, ← hi v]
  by_cases hv : v = w <;> simp [hv]

/-- While the flags follow the idle list, taking its last worker off leaves the flags following
the rest, which holds each worker once and not the one taken. -/
theorem dropLast_mirror {ys : List (Fin n)} {u : Fin n}
    (hi : ∀ v, (s.workers v).idle = true ↔ v ∈ s.idleList) (hd : s.idleList.Nodup)
    (hys : s.idleList = ys ++ [u]) :
    u ∉ ys ∧ ys.Nodup ∧ ∀ v, ((s.setIdle u false ys).workers v).idle = true ↔ v ∈ ys := by
  rw [hys, List.nodup_append] at hd
  have hu : u ∉ ys := fun hm => hd.2.2 u hm u (by simp) rfl
  refine ⟨hu, hd.1, fun v => ?_⟩
  rw [(setIdle_workers s u false ys v).2.2]
  by_cases hv : v = u
  · subst hv; simp [hu]
  · simp [hv, hi v, hys]

/-! ## Signals due -/

/-- A signal for `w` is in its wake channel or on its way there. -/
def wakeDue (s : Pool n) (w : Fin n) : Prop :=
  (s.workers w).woken = true ∨ ∃ c ∈ s.calls, c.signals w

/-- A started worker whose last look did not miss the global queue of `p`, or to which a signal is
due. -/
def ready (s : Pool n) (p : Priority) (w : Fin n) : Prop :=
  (s.workers w).live ∧ (¬(s.workers w).pc.looked (p, .global) ∨ s.wakeDue w)

/-- A signal stays due while the channel keeps it and the posts that carry it stay under way. -/
theorem wakeDue_of {s' : Pool n} {v : Fin n}
    (hw : (s.workers v).woken = true → (s'.workers v).woken = true)
    (hc : ∀ c ∈ s.calls, c.signals v → c ∈ s'.calls) (h : s.wakeDue v) : s'.wakeDue v := by
  rcases h with h | ⟨c, hc', hs⟩
  · exact .inl (hw h)
  · exact .inr ⟨c, hc c hc' hs, hs⟩

theorem wakeDue_await (c : Call n) {v : Fin n} (h : s.wakeDue v) : (s.await c).wakeDue v :=
  wakeDue_of (s := s) id (fun _ hc _ => List.mem_cons_of_mem _ hc) h

theorem wakeDue_await_self {c : Call n} {v : Fin n} (hc : c.signals v) : (s.await c).wakeDue v :=
  .inr ⟨c, List.mem_cons_self, hc⟩

/-- A signal stays due when a post under way that does not carry it finishes. -/
theorem wakeDue_finish {c : Call n} {v : Fin n} (hc : ¬c.signals v) (h : s.wakeDue v) :
    (s.finish c).wakeDue v := by
  refine wakeDue_of (s := s) id (fun c' hc' hs => (List.mem_erase_of_ne ?_).mpr hc') h
  rintro rfl
  exact hc hs

/-- Readiness for a global queue carries over to a pool that agrees on the worker and keeps its
signals due. -/
theorem ready_of {s' : Pool n} {p : Priority} {v : Fin n} (hw : (s'.workers v).pc = (s.workers v).pc)
    (hs : (s'.workers v).status = (s.workers v).status) (hd : s.wakeDue v → s'.wakeDue v)
    (h : s.ready p v) : s'.ready p v := by
  obtain ⟨hl, hr⟩ := h
  refine ⟨by simpa [Worker.live, hs] using hl, ?_⟩
  rw [hw]
  exact hr.imp_right hd

/-! ## The invariant -/

/-- What holds in every reachable state of the pool, posts under way included. -/
structure Inv (s : Pool n) : Prop where
  /-- Each worker holds the state word of its point of the loop. -/
  status : ∀ w, (s.workers w).status = (s.workers w).pc.status
  /-- A worker's flag says whether it is on the idle list, ... -/
  idle_iff : ∀ w, (s.workers w).idle = true ↔ w ∈ s.idleList
  /-- ... which holds each worker at most once ... -/
  nodup : s.idleList.Nodup
  /-- ... and only started ones. -/
  live_of_mem : ∀ w ∈ s.idleList, (s.workers w).live
  /-- A parking worker can be found: it is on the idle list, or a signal is due to it. -/
  parked : ∀ w, (s.workers w).pc.parked → (s.workers w).idle = true ∨ s.wakeDue w
  /-- An item in a worker's own queue that its last look missed has a signal due to the worker,
  or a post about to read its state. -/
  own : ∀ w x, x.2 ≠ .global → (s.workers w).pc.looked x → s.source w x ≠ [] →
    s.wakeDue w ∨ .readStatus w ∈ s.calls
  /-- An item in a global queue has a `wakeupOne` under way or a started worker ready for it, or
  no worker has started. -/
  global : ∀ p, s.global.get p ≠ [] →
    .wakeOne ∈ s.calls ∨ (∀ w, ¬(s.workers w).live) ∨ ∃ w, s.ready p w

theorem Inv.init (n : Nat) : (Pool.init n).Inv where
  status _ := rfl
  idle_iff _ := by simp [Pool.init]
  nodup := List.nodup_nil
  live_of_mem _ h := by simp [Pool.init] at h
  parked _ h := by simp [Pool.init, Pc.parked] at h
  own _ _ _ h := by simp [Pool.init, Pc.looked] at h
  global p h := by cases p <;> simp [Pool.init, PerPriority.uniform, PerPriority.get] at h

/-! ## A worker's own steps -/

/-- A step of worker `w` that changes only its point of the loop, its state word and its wake
channel keeps the invariant if the state word follows the point, the loop stays started, the
worker parks only where it was parked or while on the idle list, and it counts as having looked
only at what it had looked at, if that is not empty, with its channel as it was. -/
theorem Inv.modify_local (h : s.Inv) {f : Worker → Worker}
    (hidle : (f (s.workers w)).idle = (s.workers w).idle)
    (hmine : (f (s.workers w)).mine = (s.workers w).mine)
    (hothers : (f (s.workers w)).others = (s.workers w).others)
    (hstatus : (f (s.workers w)).status = (f (s.workers w)).pc.status)
    (hstart : (f (s.workers w)).pc ≠ .start)
    (hparked : (f (s.workers w)).pc.parked → (s.workers w).idle = true ∨
      ((s.workers w).pc.parked ∧ (f (s.workers w)).woken = (s.workers w).woken))
    (hlooked : ∀ x, (f (s.workers w)).pc.looked x → s.source w x ≠ [] →
      (s.workers w).pc.looked x ∧ (f (s.workers w)).woken = (s.workers w).woken) :
    (s.modify w f).Inv := by
  have hsrc : ∀ x, (s.modify w f).source w x = s.source w x := fun x => by
    obtain ⟨p, _ | _ | _⟩ := x <;> simp [source, hmine, hothers]
  -- for the other workers nothing changes
  have hother : ∀ v, v ≠ w → (s.modify w f).workers v = s.workers v := fun v hv =>
    modify_of_ne s f hv
  have hdue : ∀ v, v ≠ w → (s.wakeDue v ↔ (s.modify w f).wakeDue v) := fun v hv => by
    simp [wakeDue, hother v hv]
  -- the worker itself keeps its signals due while its channel stays as it was
  have hdue_w : (f (s.workers w)).woken = (s.workers w).woken → s.wakeDue w →
      (s.modify w f).wakeDue w := fun he => by
    simp [wakeDue, he]
  have hlive : ((s.modify w f).workers w).live := by
    simpa [Worker.live, hstatus] using Pc.status_ne_starting hstart
  refine ⟨fun v => ?_, fun v => ?_, h.nodup, fun v hv => ?_, fun v hp => ?_,
    fun v x hx hl hne => ?_, fun p hp => ?_⟩
  · by_cases hv : v = w
    · subst hv; simpa using hstatus
    · rw [hother v hv]; exact h.status v
  · by_cases hv : v = w
    · subst hv; simpa [hidle] using h.idle_iff v
    · rw [hother v hv]; exact h.idle_iff v
  · by_cases hvw : v = w
    · subst hvw; exact hlive
    · rw [hother v hvw]; exact h.live_of_mem v hv
  · by_cases hv : v = w
    · subst hv
      simp only [modify_self] at hp ⊢
      rcases hparked hp with hi | ⟨hp', he⟩
      · exact .inl (hidle.trans hi)
      · exact (h.parked v hp').imp (hidle.trans) (hdue_w he)
    · rw [hother v hv] at hp ⊢
      exact (h.parked v hp).imp_right (hdue v hv).mp
  · by_cases hv : v = w
    · subst hv
      simp only [modify_self, hsrc] at hl hne ⊢
      obtain ⟨hl', he⟩ := hlooked x hl hne
      exact (h.own v x hx hl' hne).imp_left (hdue_w he)
    · rw [hother v hv] at hl
      rw [source_congr (hother v hv) rfl] at hne
      exact (h.own v x hx hl hne).imp_left (hdue v hv).mp
  · rcases h.global p (by simpa using hp) with hc | hn | ⟨v, hv⟩
    · exact .inl hc
    · -- the worker starts: it has not looked yet, since a last look is taken started
      refine .inr (.inr ⟨w, hlive, .inl fun hl => ?_⟩)
      obtain ⟨hl', -⟩ := hlooked _ (by simpa using hl) (by simpa [source] using hp)
      exact hn w (by simp [Worker.live, h.status w, Pc.status_of_looked hl'])
    · refine .inr (.inr ⟨v, ?_⟩)
      by_cases hvw : v = w
      · subst hvw
        refine ⟨hlive, ?_⟩
        by_cases hl : ((s.modify v f).workers v).pc.looked (p, .global)
        · obtain ⟨hl', he⟩ := hlooked _ (by simpa using hl) (by simpa [source] using hp)
          exact .inr (hdue_w he (hv.2.resolve_left fun hn => hn hl'))
        · exact .inl hl
      · exact ready_of (by rw [hother v hvw]) (by rw [hother v hvw]) (hdue v hvw).mp hv

/-- A worker that moves to another point of its loop with the same state word. -/
theorem Inv.goto (h : s.Inv) {pc : Pc} (hstatus : pc.status = (s.workers w).pc.status)
    (hstart : pc ≠ .start) (hparked : pc.parked → (s.workers w).idle = true ∨ (s.workers w).pc.parked)
    (hlooked : ∀ x, pc.looked x → s.source w x ≠ [] → (s.workers w).pc.looked x) :
    (s.goto w pc).Inv :=
  h.modify_local rfl rfl rfl (by simp [h.status w, hstatus]) hstart
    (fun hp => (hparked hp).imp_right fun h' => ⟨h', rfl⟩) fun x hx hne => ⟨hlooked x hx hne, rfl⟩

/-- Taking an item from a source keeps the invariant: what is read is a part of what was there. -/
theorem Inv.setSource (h : s.Inv) {x : Priority × Source} {l : List Item}
    (hl : l ≠ [] → s.source w x ≠ []) : (s.setSource w x l).Inv := by
  have hw := setSource_workers s w x l
  have hsrc : ∀ v y, (s.setSource w x l).source v y ≠ [] → s.source v y ≠ [] := fun v y hne => by
    rw [source_setSource] at hne
    split at hne
    · rename_i hy
      obtain ⟨hyx, hv⟩ := hy
      rw [hyx]
      rcases hv with hg | hvw
      · -- the global queue reads the same for every worker
        obtain ⟨p, src⟩ := x
        simp only at hg
        subst hg
        simpa [source] using hl hne
      · subst hvw
        exact hl hne
    · exact hne
  have hdue : ∀ v, s.wakeDue v → (s.setSource w x l).wakeDue v := fun v =>
    wakeDue_of (fun he => (hw v).2.2.2.trans he) fun c hc _ => by simpa using hc
  refine ⟨fun v => ?_, fun v => ?_, by simpa using h.nodup, fun v hv => ?_, fun v hp => ?_,
    fun v y hy hl' hne => ?_, fun p hp => ?_⟩
  · rw [(hw v).2.1, (hw v).1]; exact h.status v
  · rw [(hw v).2.2.1]; simpa using h.idle_iff v
  · simpa [Worker.live, (hw v).2.1] using h.live_of_mem v (by simpa using hv)
  · rw [(hw v).1] at hp
    rw [(hw v).2.2.1]
    exact (h.parked v hp).imp_right (hdue v)
  · rw [(hw v).1] at hl'
    simpa using (h.own v y hy hl' (hsrc v y hne)).imp_left (hdue v)
  · have hp' : s.global.get p ≠ [] := by
      simpa [source] using hsrc w (p, .global) (by simpa [source] using hp)
    rcases h.global p hp' with hc | hn | ⟨v, hv⟩
    · exact .inl (by simpa using hc)
    · exact .inr (.inl fun v => by simpa [Worker.live, (hw v).2.1] using hn v)
    · exact .inr (.inr ⟨v, ready_of (hw v).1 (hw v).2.1 (hdue v) hv⟩)

/-! ## Changes that move no worker -/

/-- A change that moves no worker along its loop keeps the invariant if the flags follow the idle
list, which holds started workers each once; a parked worker taken off the list has a signal due;
signals due stay due, and so do the posts about to read an idle state; an item new in a worker's
own queue has a signal due or such a post, and one new in a global queue a `wakeupOne`; and the
`wakeupOne`s that finish leave a worker ready. -/
theorem Inv.frame {s' : Pool n} (h : s.Inv)
    (hpc : ∀ v, (s'.workers v).pc = (s.workers v).pc)
    (hst : ∀ v, (s'.workers v).status = (s.workers v).status)
    (hidle : ∀ v, (s'.workers v).idle = true ↔ v ∈ s'.idleList) (hnodup : s'.idleList.Nodup)
    (hmem : ∀ v ∈ s'.idleList, v ∈ s.idleList ∨ (s.workers v).live)
    (hleft : ∀ v, (s.workers v).pc.parked → (s.workers v).idle = true →
      (s'.workers v).idle = true ∨ s'.wakeDue v)
    (hdue : ∀ v, s.wakeDue v → s'.wakeDue v)
    (hread : ∀ v, .readStatus v ∈ s.calls → (s.workers v).status = .idle →
      s'.wakeDue v ∨ .readStatus v ∈ s'.calls)
    (hsrc : ∀ v x, x.2 ≠ .global → s'.source v x ≠ [] →
      s.source v x ≠ [] ∨ s'.wakeDue v ∨ .readStatus v ∈ s'.calls)
    (hglobal : ∀ p, s'.global.get p ≠ [] → s.global.get p ≠ [] ∨ .wakeOne ∈ s'.calls)
    (hone : ∀ p, s.global.get p ≠ [] → .wakeOne ∈ s.calls → (∃ v, (s.workers v).live) →
      .wakeOne ∈ s'.calls ∨ ∃ v, s'.ready p v) : s'.Inv := by
  have hlive : ∀ v, (s'.workers v).live ↔ (s.workers v).live := fun v => by
    simp [Worker.live, hst v]
  refine ⟨fun v => ?_, hidle, hnodup, fun v hv => ?_, fun v hp => ?_, fun v x hx hl hne => ?_,
    fun p hp => ?_⟩
  · rw [hst v, hpc v]; exact h.status v
  · rcases hmem v hv with hm | hl
    · exact (hlive v).mpr (h.live_of_mem v hm)
    · exact (hlive v).mpr hl
  · rw [hpc v] at hp
    rcases h.parked v hp with hi | hd
    · exact hleft v hp hi
    · exact .inr (hdue v hd)
  · rw [hpc v] at hl
    rcases hsrc v x hx hne with hne | hnew
    · rcases h.own v x hx hl hne with hd | hr
      · exact .inl (hdue v hd)
      · exact hread v hr (by rw [h.status v]; exact Pc.status_of_looked hl)
    · exact hnew
  · rcases hglobal p hp with hp | hc
    · rcases h.global p hp with hc | hn | ⟨v, hv⟩
      · by_cases he : ∃ v, (s.workers v).live
        · exact (hone p hp hc he).imp_right .inr
        · exact .inr (.inl fun v hl => he ⟨v, (hlive v).mp hl⟩)
      · exact .inr (.inl fun v hl => hn v ((hlive v).mp hl))
      · exact .inr (.inr ⟨v, ready_of (hpc v) (hst v) (hdue v) hv⟩)
    · exact .inl hc

/-- A change under the idle lock moves only the flags and the idle list. It keeps the invariant if
the flags follow the list, which holds started workers each once, and a parked worker keeps its
flag. -/
theorem Inv.of_flags {s' : Pool n} (h : s.Inv)
    (hw : ∀ v, (s'.workers v).Same (s.workers v) ∧ (s'.workers v).woken = (s.workers v).woken)
    (hg : s'.global = s.global) (hc : s'.calls = s.calls)
    (hidle : ∀ v, (s'.workers v).idle = true ↔ v ∈ s'.idleList) (hnodup : s'.idleList.Nodup)
    (hmem : ∀ v ∈ s'.idleList, v ∈ s.idleList ∨ (s.workers v).live)
    (hleft : ∀ v, (s.workers v).pc.parked → (s.workers v).idle = true →
      (s'.workers v).idle = true) : s'.Inv :=
  h.frame (fun v => (hw v).1.1) (fun v => (hw v).1.2.1) hidle hnodup hmem
    (fun v hp hi => .inl (hleft v hp hi))
    (fun v => wakeDue_of (fun he => (hw v).2.trans he) fun _ hc' _ => hc ▸ hc')
    (fun _ hr _ => .inr (hc ▸ hr))
    (fun v _ hx hne => .inl (by rwa [source_of_same (hw v).1 hx] at hne))
    (fun _ hp => .inl (hg ▸ hp)) (fun _ _ hc' _ => .inl (hc ▸ hc'))

/-- Joining the idle list: a started worker joins at the end, unless it is there already. -/
theorem Inv.addIdle (h : s.Inv) (hlive : (s.workers w).live) : (s.addIdle w).Inv := by
  have hw := addIdle_workers s w
  have hl : (s.addIdle w).idleList = if (s.workers w).idle then s.idleList else s.idleList ++ [w] := by
    unfold Pool.addIdle; split <;> rfl
  refine h.of_flags (fun v => ⟨(hw v).1, (hw v).2.1⟩) (by simp) (by simp) (fun v => ?_) ?_
    (fun v hv => ?_) (fun v _ hi => by simp [(hw v).2.2, hi])
  · rw [(hw v).2.2, hl]
    by_cases hi : (s.workers w).idle = true
    · by_cases hv : v = w
      · subst hv; simp [hi, (h.idle_iff v).mp hi]
      · simp [hi, hv, h.idle_iff v]
    · by_cases hv : v = w
      · subst hv; simp [hi]
      · simp [hi, hv, h.idle_iff v]
  · rw [hl]
    split
    · exact h.nodup
    · rename_i hi
      refine List.nodup_append.mpr ⟨h.nodup, by simp, ?_⟩
      rintro a ha b hb rfl
      simp only [List.mem_singleton] at hb
      exact hi ((h.idle_iff _).mpr (hb ▸ ha))
  · rw [hl] at hv
    split at hv
    · exact .inl hv
    · simp only [List.mem_append, List.mem_singleton] at hv
      rcases hv with hv | rfl
      · exact .inl hv
      · exact .inr hlive

/-- A worker that is not parked leaves the idle list. -/
theorem Inv.removeIdle (h : s.Inv) (hw : ¬(s.workers w).pc.parked) : (s.removeIdle w).Inv := by
  have hr := removeIdle_workers s w
  obtain ⟨hl, hidle, hnodup⟩ := removeIdle_mirror h.idle_iff h.nodup w
  refine h.of_flags (fun v => ⟨(hr v).1, (hr v).2.1⟩) (by simp) (by simp) hidle hnodup
    (fun v hv => .inl (List.mem_of_mem_erase (hl ▸ hv))) fun v hp hi => ?_
  -- the worker that leaves is not parked, so this one is another
  have hv : v ≠ w := fun hv => hw (hv ▸ hp)
  simp [(hr v).2.2, hi, hv]

/-! ## Posts under way -/

/-- A post's step moves no worker and takes no signal from a channel. -/
theorem stepCall_workers (s : Pool n) (c : Call n) (v : Fin n) :
    ((s.stepCall c).workers v).Same (s.workers v) ∧
      ((s.workers v).woken = true → ((s.stepCall c).workers v).woken = true) := by
  cases c with
  | wakeOne =>
    cases hl : s.idleList.getLast? with
    | none =>
      simp only [stepCall, hl, finish_workers]
      exact ⟨.refl _, id⟩
    | some u =>
      obtain ⟨h1, h2, -⟩ := setIdle_workers (s.finish .wakeOne) u false s.idleList.dropLast v
      simp only [stepCall, hl, await_workers]
      exact ⟨h1, fun he => h2.trans he⟩
  | readStatus u =>
    have hw : (s.stepCall (.readStatus u)).workers = s.workers := by
      by_cases hs : (s.workers u).status = .idle <;> simp [stepCall, hs]
    rw [hw]
    exact ⟨.refl _, id⟩
  | removeIdle u =>
    obtain ⟨h1, h2, -⟩ := removeIdle_workers (s.finish (.removeIdle u)) u v
    exact ⟨h1, fun he => h2.trans he⟩
  | signal u =>
    by_cases hv : v = u <;> simp [stepCall, modify_workers, hv, Worker.Same]

@[simp] theorem stepCall_global (s : Pool n) (c : Call n) : (s.stepCall c).global = s.global := by
  cases c with
  | wakeOne => cases hl : s.idleList.getLast? <;> simp [stepCall, hl]
  | readStatus u => by_cases hs : (s.workers u).status = .idle <;> simp [stepCall, hs]
  | removeIdle u => simp [stepCall]
  | signal u => rfl

/-- A post's step leaves every other post under way. -/
theorem mem_stepCall {c c' : Call n} (hc : c' ∈ s.calls) (hne : c' ≠ c) :
    c' ∈ (s.stepCall c).calls := by
  have he : c' ∈ s.calls.erase c := (List.mem_erase_of_ne hne).mpr hc
  cases c with
  | wakeOne => cases hl : s.idleList.getLast? <;> simp [stepCall, hl, he]
  | readStatus u => by_cases hs : (s.workers u).status = .idle <;> simp [stepCall, hs, he]
  | removeIdle u => simp [stepCall, he]
  | signal u => simpa [stepCall] using he

/-- A signal due stays due after a post's step, if the step keeps the one the post carried. -/
theorem wakeDue_stepCall {c : Call n} {v : Fin n} (hc : c.signals v → (s.stepCall c).wakeDue v)
    (h : s.wakeDue v) : (s.stepCall c).wakeDue v := by
  rcases h with hw | ⟨c', hc', hs⟩
  · exact .inl ((stepCall_workers s c v).2 hw)
  · by_cases he : c' = c
    · subst he; exact hc hs
    · exact .inr ⟨c', mem_stepCall hc' he, hs⟩

/-- The frame of a post's step: what is left to show is about the idle list, the signal the post
carries, the state it reads and the worker it wakes. -/
theorem Inv.of_stepCall (h : s.Inv) {c : Call n}
    (hidle : ∀ v, ((s.stepCall c).workers v).idle = true ↔ v ∈ (s.stepCall c).idleList)
    (hnodup : (s.stepCall c).idleList.Nodup) (hmem : ∀ v ∈ (s.stepCall c).idleList, v ∈ s.idleList)
    (hleft : ∀ v, (s.workers v).pc.parked → (s.workers v).idle = true →
      ((s.stepCall c).workers v).idle = true ∨ (s.stepCall c).wakeDue v)
    (hsig : ∀ v, c.signals v → (s.stepCall c).wakeDue v)
    (hread : ∀ v, c = .readStatus v → (s.workers v).status = .idle → (s.stepCall c).wakeDue v)
    (hone : c = .wakeOne → ∀ p, (∃ v, (s.workers v).live) →
      .wakeOne ∈ (s.stepCall c).calls ∨ ∃ v, (s.stepCall c).ready p v) :
    (s.stepCall c).Inv := by
  have hw := stepCall_workers s c
  refine h.frame (fun v => (hw v).1.1) (fun v => (hw v).1.2.1) hidle hnodup
    (fun v hv => .inl (hmem v hv)) hleft (fun v => wakeDue_stepCall (hsig v))
    (fun v hr hst => ?_) (fun v x hx hne => .inl (by rwa [source_of_same (hw v).1 hx] at hne))
    (fun p hp => .inl (by simpa using hp)) (fun p _ hc he => ?_)
  · by_cases hcv : Call.readStatus v = c
    · exact .inl (hread v hcv.symm hst)
    · exact .inr (mem_stepCall hr hcv)
  · by_cases hcw : Call.wakeOne = c
    · exact hone hcw.symm p he
    · exact .inl (mem_stepCall hc hcw)

/-- `wakeupOne` with nobody parked finishes: then a started worker whose last look went past the
global queues is not parked, so a signal is due to it. -/
theorem Inv.finish_wakeOne (h : s.Inv) (hnil : s.idleList = []) : (s.finish .wakeOne).Inv := by
  refine h.frame (fun _ => rfl) (fun _ => rfl) h.idle_iff h.nodup (fun v hv => .inl hv)
    (fun v _ hi => .inl hi) (fun v => wakeDue_finish (by simp [Call.signals]))
    (fun v hr _ => .inr ((List.mem_erase_of_ne (by simp)).mpr hr))
    (fun v x _ hne => .inl hne) (fun p hp => .inl hp) (fun p _ _ ⟨v, hv⟩ => .inr ⟨v, hv, ?_⟩)
  by_cases hlk : (s.workers v).pc.looked (p, .global)
  · rcases h.parked v (Pc.parked_of_looked hlk) with hi | hd
    · exact absurd ((h.idle_iff v).mp hi) (by simp [hnil])
    · exact .inr (wakeDue_finish (by simp [Call.signals]) hd)
  · exact .inl hlk

/-- `wakeupOne` takes the worker parked last off the idle list and signals it: that worker is
started, so it is ready for every global queue. -/
theorem Inv.stepCall_wakeOne (h : s.Inv) : (s.stepCall .wakeOne).Inv := by
  cases hl : s.idleList.getLast? with
  | none =>
    have hs : s.stepCall .wakeOne = s.finish .wakeOne := by simp [Pool.stepCall, hl]
    rw [hs]
    exact h.finish_wakeOne (List.getLast?_eq_none_iff.mp hl)
  | some u =>
    obtain ⟨ys, hys⟩ := List.getLast?_eq_some_iff.mp hl
    obtain ⟨hu, hnodup, hidle⟩ := dropLast_mirror (s := s.finish .wakeOne) h.idle_iff h.nodup hys
    have hs : s.stepCall .wakeOne = ((s.finish .wakeOne).setIdle u false ys).await (.signal u) := by
      simp [Pool.stepCall, hys]
    have hw := setIdle_workers (s.finish .wakeOne) u false ys
    have hsig : (s.stepCall .wakeOne).wakeDue u := by rw [hs]; exact wakeDue_await_self rfl
    refine h.of_stepCall (by rw [hs]; exact hidle) (by rw [hs]; exact hnodup)
      (fun v hv => by rw [hs] at hv; rw [hys]; exact List.mem_append_left _ hv) (fun v _ hi => ?_)
      (fun v hv => by simp [Call.signals] at hv) (fun v hv => nomatch hv)
      (fun _ p _ => .inr ⟨u, ?_, .inr hsig⟩)
    · by_cases hv : v = u
      · subst hv; exact .inr hsig
      · refine .inl ?_
        rw [hs, await_workers, (hw v).2.2]
        simpa [hv] using hi
    · have hlive := h.live_of_mem u (by rw [hys]; simp)
      simpa [Worker.live, (stepCall_workers s .wakeOne u).1.2.1] using hlive

/-- A post to a worker's local list reads the worker's state; if it is idle, the wake-up goes
on. -/
theorem Inv.stepCall_readStatus (h : s.Inv) (w : Fin n) : (s.stepCall (.readStatus w)).Inv := by
  have hsame : (s.stepCall (.readStatus w)).workers = s.workers ∧
      (s.stepCall (.readStatus w)).idleList = s.idleList := by
    by_cases hs : (s.workers w).status = .idle <;> simp [Pool.stepCall, hs]
  refine h.of_stepCall (fun v => by rw [hsame.1, hsame.2]; exact h.idle_iff v)
    (by rw [hsame.2]; exact h.nodup) (fun v hv => by rwa [hsame.2] at hv)
    (fun v _ hi => .inl (by rw [hsame.1]; exact hi)) (fun v hv => by simp [Call.signals] at hv)
    (fun v hv hst => ?_) (fun hc => nomatch hc)
  obtain rfl : w = v := Call.readStatus.inj hv
  simp only [Pool.stepCall, hst, if_true]
  exact wakeDue_await_self rfl

/-- `wakeup` takes the worker off the idle list, and its signal goes on. -/
theorem Inv.stepCall_removeIdle (h : s.Inv) (w : Fin n) : (s.stepCall (.removeIdle w)).Inv := by
  have hr := removeIdle_workers (s.finish (.removeIdle w)) w
  obtain ⟨hl, hidle, hnodup⟩ :=
    removeIdle_mirror (s := s.finish (.removeIdle w)) h.idle_iff h.nodup w
  have hsig : (s.stepCall (.removeIdle w)).wakeDue w := wakeDue_await_self rfl
  refine h.of_stepCall hidle hnodup (fun v hv => List.mem_of_mem_erase (hl ▸ hv))
    (fun v _ hi => ?_) (fun v hv => ?_) (fun v hv => nomatch hv) (fun hc => nomatch hc)
  · by_cases hv : v = w
    · subst hv; exact .inr hsig
    · exact .inl (by simp [Pool.stepCall, (hr v).2.2, hi, hv])
  · obtain rfl : w = v := hv
    exact hsig

/-- The signal reaches the worker's wake channel. -/
theorem Inv.stepCall_signal (h : s.Inv) (w : Fin n) : (s.stepCall (.signal w)).Inv := by
  have hw : ∀ v, ((s.stepCall (.signal w)).workers v).idle = (s.workers v).idle := fun v => by
    by_cases hv : v = w <;> simp [Pool.stepCall, modify_workers, hv]
  refine h.of_stepCall (fun v => by rw [hw v]; exact h.idle_iff v) h.nodup (fun v hv => hv)
    (fun v _ hi => .inl (by rw [hw v]; exact hi)) (fun v hv => ?_) (fun v hv => nomatch hv)
    (fun hc => nomatch hc)
  obtain rfl : w = v := hv
  exact .inl (by simp [Pool.stepCall])

/-- Every step of a post under way keeps the invariant. -/
theorem Inv.stepCall (h : s.Inv) {c : Call n} : (s.stepCall c).Inv := by
  cases c with
  | wakeOne => exact h.stepCall_wakeOne
  | readStatus w => exact h.stepCall_readStatus w
  | removeIdle w => exact h.stepCall_removeIdle w
  | signal w => exact h.stepCall_signal w

/-! ## New posts -/

/-- A post to a worker's own queue: only that queue changes, and the wake-up now under way reads
the worker's state or signals it. -/
theorem Inv.pushOwn (h : s.Inv) {f : Worker → Worker} {c : Call n}
    (hf : ∀ wk, (f wk).pc = wk.pc ∧ (f wk).status = wk.status ∧ (f wk).idle = wk.idle ∧
      (f wk).woken = wk.woken)
    (hc : c = .readStatus w ∨ c.signals w) : ((s.modify w f).await c).Inv := by
  have hw : ∀ v, (((s.modify w f).await c).workers v).pc = (s.workers v).pc ∧
      (((s.modify w f).await c).workers v).status = (s.workers v).status ∧
      (((s.modify w f).await c).workers v).idle = (s.workers v).idle ∧
      (((s.modify w f).await c).workers v).woken = (s.workers v).woken := fun v => by
    by_cases hv : v = w
    · subst hv; simpa using hf (s.workers v)
    · simp [modify_of_ne s f hv]
  refine h.frame (fun v => (hw v).1) (fun v => (hw v).2.1)
    (fun v => by rw [(hw v).2.2.1]; exact h.idle_iff v) h.nodup (fun v hv => .inl hv)
    (fun v _ hi => .inl (by rw [(hw v).2.2.1]; exact hi))
    (fun v => wakeDue_of (fun he => (hw v).2.2.2.trans he) fun _ hc' _ => List.mem_cons_of_mem _ hc')
    (fun _ hr _ => .inr (List.mem_cons_of_mem _ hr)) (fun v x _ hne => ?_) (fun _ hq => .inl hq)
    (fun _ _ hc' _ => .inl (List.mem_cons_of_mem _ hc'))
  by_cases hv : v = w
  · -- the worker's queue grew: the post now under way reads its state or signals it
    subst hv
    rcases hc with rfl | hs
    · exact .inr (.inr List.mem_cons_self)
    · exact .inr (.inl (wakeDue_await_self hs))
  · have hsame : ((s.modify w f).await c).workers v = s.workers v := modify_of_ne s f hv
    exact .inl (by rwa [source_congr hsame rfl] at hne)

/-- A new post keeps the invariant: its item is in place, and its wake-up is under way. -/
theorem Inv.post (h : s.Inv) (t : Target n) (it : Item) : (s.post t it).Inv := by
  cases t with
  | global p =>
    refine h.frame (fun _ => rfl) (fun _ => rfl) h.idle_iff h.nodup (fun v hv => .inl hv)
      (fun v _ hi => .inl hi) (fun v => wakeDue_await _) (fun v hr _ => .inr (List.mem_cons_of_mem _ hr))
      (fun v x hx hne => .inl ?_) (fun q hq => ?_) (fun q _ _ _ => .inl List.mem_cons_self)
    · -- the worker's own queues are as they were
      have hsrc : (s.post (.global p) it).source v x = s.source v x := by
        obtain ⟨q, _ | _ | _⟩ := x <;> first | rfl | exact absurd rfl hx
      rwa [hsrc] at hne
    · by_cases hqp : q = p
      · exact .inr List.mem_cons_self
      · left
        simpa [Pool.post, PerPriority.modify, PerPriority.get_set_of_ne _ _ hqp] using hq
  | mine w p => exact h.pushOwn (fun _ => ⟨rfl, rfl, rfl, rfl⟩) (.inl rfl)
  | others w p => exact h.pushOwn (fun _ => ⟨rfl, rfl, rfl, rfl⟩) (.inr rfl)

/-! ## Workers' steps -/

/-- A worker that moves, with the same state word, to a point of its loop where it is not
parked. -/
theorem Inv.goto_unparked (h : s.Inv) {pc : Pc} (hstatus : pc.status = (s.workers w).pc.status)
    (hstart : pc ≠ .start) (hp : ¬pc.parked) : (s.goto w pc).Inv :=
  h.goto hstatus hstart (fun h' => absurd h' hp) fun _ hl _ => absurd (Pc.parked_of_looked hl) hp

/-- Taking the front item of a source, to run it. -/
theorem Inv.take (h : s.Inv) {k : Nat} {x : Priority × Source} {it : Item} {rest : List Item}
    (hpc : (s.workers w).pc = .seek k) (hx : s.source w x = it :: rest) :
    ((s.setSource w x rest).goto w .run).Inv :=
  (h.setSource fun _ => by simp [hx]).goto_unparked
    (by rw [(setSource_workers s w x rest w).1, hpc]; rfl) (by simp) (by simp [Pc.parked])

/-- Parking: once on the idle list the worker may store `idle`. -/
theorem Inv.park (h : s.Inv) (hpc : (s.workers w).pc = .addIdle) :
    ((s.addIdle w).goto w .storeIdle).Inv := by
  have hw := addIdle_workers s w w
  have hlive : (s.workers w).live := by simp [Worker.live, h.status w, hpc, Pc.status]
  exact (h.addIdle hlive).goto (by rw [hw.1.1, hpc]; rfl) (by simp)
    (fun _ => .inl (by simp [hw.2.2])) (by simp [Pc.looked])

/-- The last look at one more source: past an empty one it goes on, having looked at it; at one
that is not empty the worker stops parking. -/
theorem Inv.check_next (h : s.Inv) {k : Nat} {x : Priority × Source}
    (hpc : (s.workers w).pc = .check k) (hk : slots[k]? = some x) :
    (s.goto w (if (s.source w x).isEmpty then .check (k + 1) else .removeIdle)).Inv := by
  by_cases he : (s.source w x).isEmpty = true
  · rw [if_pos he]
    refine h.goto (by rw [hpc]; rfl) (by simp) (fun _ => .inr (by rw [hpc]; trivial))
      fun y hy hne => ?_
    rw [hpc]
    rcases Pc.looked_check_succ hk hy with rfl | hy'
    · exact absurd (List.isEmpty_iff.mp he) hne
    · exact hy'
  · rw [if_neg he]
    exact h.goto_unparked (by rw [hpc]; rfl) (by simp) (by simp [Pc.parked])

/-- Back from parking, the worker leaves the idle list. -/
theorem Inv.unpark (h : s.Inv) (hpc : (s.workers w).pc = .removeIdle) :
    ((s.removeIdle w).goto w .resume).Inv :=
  (h.removeIdle (by rw [hpc]; simp [Pc.parked])).goto_unparked
    (by rw [(removeIdle_workers s w w).1.1, hpc]; rfl) (by simp) (by simp [Pc.parked])

/-- Every step of a worker keeps the invariant. -/
theorem Inv.stepWorker {s' : Pool n} (h : s.Inv) (hs : s.stepWorker w = some s') : s'.Inv := by
  unfold Pool.stepWorker at hs
  cases hpc : (s.workers w).pc with
  | start =>
    simp only [hpc, Option.some.injEq] at hs
    subst hs
    exact h.modify_local rfl rfl rfl rfl (by simp) (by simp [Pc.parked]) (by simp [Pc.looked])
  | seek k =>
    simp only [hpc] at hs
    cases hk : slots[k]? with
    | none =>
      simp only [hk, Option.some.injEq] at hs
      subst hs
      exact h.goto_unparked (by rw [hpc]; rfl) (by simp) (by simp [Pc.parked])
    | some x =>
      simp only [hk] at hs
      cases hx : s.source w x with
      | nil =>
        simp only [hx, Option.some.injEq] at hs
        subst hs
        exact h.goto_unparked (by rw [hpc]; rfl) (by simp) (by simp [Pc.parked])
      | cons it rest =>
        simp only [hx, Option.some.injEq] at hs
        subst hs
        exact h.take hpc hx
  | run =>
    simp only [hpc, Option.some.injEq] at hs
    subst hs
    exact h.goto_unparked (by rw [hpc]; rfl) (by simp) (by simp [Pc.parked])
  | addIdle =>
    simp only [hpc, Option.some.injEq] at hs
    subst hs
    exact h.park hpc
  | storeIdle =>
    simp only [hpc, Option.some.injEq] at hs
    subst hs
    exact h.modify_local rfl rfl rfl rfl (by simp) (fun _ => .inr ⟨by rw [hpc]; trivial, rfl⟩)
      (by simp [Pc.looked])
  | check k =>
    simp only [hpc] at hs
    cases hk : slots[k]? with
    | none =>
      simp only [hk, Option.some.injEq] at hs
      subst hs
      -- the last look has gone past every source
      exact h.goto (by rw [hpc]; rfl) (by simp) (fun _ => .inr (by rw [hpc]; trivial))
        fun x _ _ => by rw [hpc]; exact Pc.looked_check_of_none hk x
    | some x =>
      simp only [hk, Option.some.injEq] at hs
      subst hs
      exact h.check_next hpc hk
  | wait =>
    simp only [hpc] at hs
    cases hwk : (s.workers w).woken with
    | false => simp [hwk] at hs
    | true =>
      simp only [hwk, if_true, Option.some.injEq] at hs
      subst hs
      -- the signal is taken: the worker is no longer parked
      exact h.modify_local rfl rfl rfl (by simp [h.status w, hpc, Pc.status]) (by simp)
        (by simp [Pc.parked]) (by simp [Pc.looked])
  | removeIdle =>
    simp only [hpc, Option.some.injEq] at hs
    subst hs
    exact h.unpark hpc
  | resume =>
    simp only [hpc, Option.some.injEq] at hs
    subst hs
    exact h.modify_local rfl rfl rfl rfl (by simp) (by simp [Pc.parked]) (by simp [Pc.looked])

/-! ## Runs -/

/-- Every step of the pool keeps the invariant. -/
theorem Inv.step {s' : Pool n} (h : s.Inv) {a : Act n} (hs : s.step a = some s') : s'.Inv := by
  cases a with
  | worker w => exact h.stepWorker hs
  | call c =>
    by_cases hc : c ∈ s.calls
    · simp only [Pool.step, hc, if_true, Option.some.injEq] at hs
      subst hs
      exact h.stepCall
    · simp [Pool.step, hc] at hs
  | post t it =>
    simp only [Pool.step, Option.some.injEq] at hs
    subst hs
    exact h.post t it

/-- Every reachable state of the pool has the invariant. -/
theorem Reachable.inv (h : s.Reachable) : s.Inv := by
  induction h with
  | init => exact Inv.init n
  | step _ _ hs ih => exact ih.step hs

/-- A run of steps from a reachable state ends in a reachable state. -/
theorem Reachable.run {s' : Pool n} (h : s.Reachable) {as : List (Act n)}
    (hr : s.run as = some s') : s'.Reachable := by
  induction as generalizing s with
  | nil =>
    simp only [Pool.run, List.foldlM_nil] at hr
    cases hr
    exact h
  | cons a as ih =>
    simp only [Pool.run, List.foldlM_cons] at hr
    cases hs : s.step a with
    | none => simp [hs] at hr
    | some s₁ =>
      simp only [hs, Option.bind_eq_bind, Option.bind_some] at hr
      exact ih (h.step a hs) hr

/-- No wake-up is lost. In every state the pool can reach, once no post is under way: a worker
blocked on an empty wake channel has nothing in its local or shared list of any priority, and
while an item waits in a global queue and some worker has started, some started worker is not
blocked. -/
theorem Reachable.no_lost_wakeup (h : s.Reachable) (hq : s.calls = []) :
    (∀ w, (s.workers w).blocked → ∀ p, (s.workers w).mine.get p = [] ∧ (s.workers w).others.get p = []) ∧
      ((∃ p, s.global.get p ≠ []) → (∃ w, (s.workers w).live) →
        ∃ w, (s.workers w).live ∧ ¬(s.workers w).blocked) := by
  have hi := h.inv
  -- with no post under way, a signal is due only if it is in the channel
  have hdue : ∀ w, s.wakeDue w → (s.workers w).woken = true := fun w hd => by
    rcases hd with hd | ⟨c, hc, _⟩
    · exact hd
    · simp [hq] at hc
  refine ⟨fun w ⟨hwait, hempty⟩ p => ?_, fun ⟨p, hp⟩ ⟨v, hv⟩ => ?_⟩
  · -- its last look went past every source, and nothing has come since
    have hnone : ∀ x, x.2 ≠ .global → s.source w x = [] := fun x hx => by
      cases hsrc : s.source w x with
      | nil => rfl
      | cons it rest =>
        have hl : (s.workers w).pc.looked x := by rw [hwait]; trivial
        rcases hi.own w x hx hl (by simp [hsrc]) with hd | hr
        · simp [hdue w hd] at hempty
        · simp [hq] at hr
    exact ⟨hnone (p, .mine) (by simp), hnone (p, .others) (by simp)⟩
  · rcases hi.global p hp with hc | hn | ⟨w, hl, hr⟩
    · simp [hq] at hc
    · exact absurd hv (hn v)
    · refine ⟨w, hl, fun ⟨hwait, hempty⟩ => ?_⟩
      rcases hr with hr | hd
      · exact hr (by rw [hwait]; trivial)
      · simp [hdue w hd] at hempty

/-- A lone worker that found nothing has parked and blocks, with nothing in its own queues. -/
theorem lone_parked_worker_idle :
    match (Pool.init 1).run (List.replicate 23 (.worker 0)) with
    | some s => s.calls = [] ∧
      ((∀ w, (s.workers w).blocked →
          ∀ p, (s.workers w).mine.get p = [] ∧ (s.workers w).others.get p = []) ∧
        ((∃ p, s.global.get p ≠ []) → (∃ w, (s.workers w).live) →
          ∃ w, (s.workers w).live ∧ ¬(s.workers w).blocked))
    | none => False := by
  cases hr : (Pool.init 1).run (List.replicate 23 (.worker 0)) with
  | none => exact absurd hr (by decide)
  | some s =>
    have hq : s.calls = [] := by
      have hc : ((Pool.init 1).run (List.replicate 23 (.worker 0))).map Pool.calls = some [] := by
        decide
      rw [hr] at hc
      simpa using hc
    exact ⟨hq, Reachable.no_lost_wakeup (Reachable.init.run hr) hq⟩

end Pool

end Courier.Dispatch.Wake
