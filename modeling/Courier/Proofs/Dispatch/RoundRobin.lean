import Mathlib.Data.List.Rotate
import Courier.Proofs.Dispatch.Marks

/-!
# Workers taken in turn

New work from outside the pool, a context registered from outside and the contexts a leaving
worker leaves behind each go to a worker taken in turn: the live worker at the place the counter
names, after which the counter moves on. A pool worker asking for itself keeps the work while it
has not left. Every change of the counter is such a turn, so the workers taken along a run are
those at consecutive places, and as many turns as there are live workers, while the live workers
stay the same, take each of them once.

The counter has 64 bits and the place it names is its remainder by the number of live workers,
which takes the counter's sign. After 2^63 turns the counter wraps to -2^63, and a counter whose
remainder is below zero makes the choice fail as an index out of range, leaving the counter
where it is: from there on every choice in turn fails. The turns that are taken still go round
in order, for the wrapped counter names a place only where the number of live workers divides
2^63, and that place is the first.

- `Engine.turnIndex_succ`: the place after a turn follows the place before, round the list;
- `Engine.chooseWorker_spec`: the choice of one call;
- `Obs.Walk.picks_eq`: the workers taken along a walk, at consecutive places;
- `map_range_rotate`: consecutive places over a list rotate it;
- `Engine.round_robin`: the choice, and the turns along every run of every engine;
- `Engine.turn_counter_wraps`: two live workers, 2^63 + 1 turns, and the choice fails.
-/

set_option autoImplicit false

/-! ## Counts of 64 bits -/

namespace Int64

theorem toInt_add_one_of_ne {a : Int64} (h : a ≠ maxValue) : (a + 1).toInt = a.toInt + 1 := by
  have hne : a.toInt ≠ maxValue.toInt := fun he => h (toInt_inj.mp he)
  rw [toInt_maxValue] at hne
  have := toInt_lt a
  have := le_toInt a
  rw [toInt_add, toInt_one, Int.bmod_eq_of_le] <;> omega

end Int64

namespace Courier.Dispatch

namespace Engine

variable {c : Int64} {len : Nat}

/-- A place the counter names among `len` workers is its remainder rounded down: a counter below
zero names one only where `len` divides it. -/
theorem turnIndex_eq_emod (hlen : 0 < len) (h : 0 ≤ turnIndex c len) :
    turnIndex c len = c.toInt % len := by
  unfold turnIndex at h ⊢
  have hlt := Int.emod_lt_of_pos c.toInt (Int.natCast_pos.mpr hlen)
  rw [Int.tmod_eq_emod] at h ⊢
  split at h
  · rw [if_pos ‹_›]; simp
  · simp only [Int.natAbs_natCast] at h; omega

theorem turnIndex_lt (hlen : 0 < len) (h : 0 ≤ turnIndex c len) : (turnIndex c len).toNat < len := by
  have := Int.tmod_lt_of_pos c.toInt (Int.natCast_pos.mpr hlen)
  unfold turnIndex at h ⊢
  omega

/-- The wrapped counter names a place only where the number of workers divides 2^63, and then
the first. -/
theorem dvd_of_turnIndex_minValue (h : 0 ≤ turnIndex Int64.minValue len) :
    (len : Int) ∣ Int64.maxValue.toInt + 1 := by
  unfold turnIndex at h
  rw [Int64.toInt_minValue, Int.neg_tmod] at h
  have h0 := Int.tmod_nonneg (len : Int) (show (0 : Int) ≤ 2 ^ 63 by decide)
  rw [Int64.toInt_maxValue, Int.sub_add_cancel]
  exact Int.dvd_of_tmod_eq_zero (by omega)

/-- Two places in turn: where the counter names a place among `len` workers before and after it
moves on, the second follows the first, round the list. -/
theorem turnIndex_succ (hlen : 0 < len) (h₀ : 0 ≤ turnIndex c len) (h₁ : 0 ≤ turnIndex (c + 1) len) :
    (turnIndex (c + 1) len).toNat = ((turnIndex c len).toNat + 1) % len := by
  -- one more on the counter is one more on its remainder, also where the counter wraps
  have hadd : (c + 1).toInt % len = (c.toInt + 1) % len := by
    by_cases hc : c = Int64.maxValue
    · subst hc
      have hd := dvd_of_turnIndex_minValue (show 0 ≤ turnIndex Int64.minValue len from h₁)
      rw [show Int64.maxValue + 1 = Int64.minValue from by decide, Int.emod_eq_zero_of_dvd hd,
        Int64.toInt_minValue, Int.emod_eq_zero_of_dvd]
      rw [Int64.toInt_maxValue, Int.sub_add_cancel] at hd
      exact Int.dvd_neg.mpr hd
    · rw [Int64.toInt_add_one_of_ne hc]
  have hm : 0 ≤ c.toInt % len := Int.emod_nonneg _ (Int.natCast_ne_zero.mpr (Nat.pos_iff_ne_zero.mp hlen))
  rw [turnIndex_eq_emod hlen h₁, turnIndex_eq_emod hlen h₀, hadd, ← Int.emod_add_emod]
  obtain ⟨r, hr⟩ : ∃ r : Nat, c.toInt % len = r := ⟨_, (Int.toNat_of_nonneg hm).symm⟩
  rw [hr, show (r : Int) + 1 = ((r + 1 : Nat) : Int) from rfl, ← Int.natCast_emod, Int.toNat_natCast,
    Int.toNat_natCast]

end Engine

namespace Mark

/-- The worker a change takes in turn, if it takes one. -/
def picked : Mark → Option Nat
  | .pick w => some w
  | _ => none

/-- Whether a change leaves the live workers as they are. -/
def keepsLive : Mark → Bool
  | .spawn | .exit _ => false
  | _ => true

theorem live_apply (o : Obs) : ∀ {m : Mark}, m.keepsLive = true → (m.apply o).live = o.live
  | .pick _, _ | .follow _ _, _ | .pin _ _, _ | .assign _ _, _ | .retarget _ _, _ | .create _ _, _
  | .enroll _ _, _ | .begin, _ | .make, _ => rfl

end Mark

/-- The workers taken in turn by changes, in order. -/
def picks (ms : List Mark) : List Nat := ms.filterMap Mark.picked

@[simp] theorem picks_nil : picks [] = [] := rfl

theorem picks_cons (m : Mark) (ms : List Mark) :
    picks (m :: ms) = (m.picked.map fun w => [w]).getD [] ++ picks ms := by
  cases m <;> rfl

/-- Consecutive counts from `n`: the count `n`, then consecutive counts from `n + 1`. -/
theorem map_range_succ_from (f : Nat → Nat) (n len : Nat) :
    (List.range (len + 1)).map (fun k => f (n + k)) =
      f n :: (List.range len).map (fun k => f (n + 1 + k)) := by
  rw [List.range_succ_eq_map]
  simp only [List.map_cons, List.map_map, Nat.add_zero, Function.comp_def]
  congr 2
  funext k
  rw [Nat.add_assoc, Nat.add_comm 1 k]

namespace Obs.Walk

variable {o o' : Obs} {ms : List Mark}

/-- The counter moves on by the number of turns, in 64 bits. -/
theorem next_eq (h : Obs.Walk o ms o') : o'.next = o.next + Int64.ofNat (picks ms).length := by
  induction h with
  | nil => exact (Int64.add_zero _).symm
  | @cons o _ m _ _ _ ih =>
    rw [ih, picks_cons]
    -- only a turn moves the counter, by one
    cases m with
    | pick w =>
      simp only [Mark.apply, Mark.picked, Option.map_some, Option.getD_some, List.singleton_append,
        List.length_cons]
      rw [Int64.ofNat_add, show Int64.ofNat 1 = 1 from rfl, Int64.add_assoc,
        Int64.add_comm 1 (Int64.ofNat _)]
    | _ => rfl

/-- Along a walk that leaves the live workers as they are, the workers taken in turn are those
at consecutive places from the one the counter names at the start, where the first turn finds a
place. -/
theorem picks_eq (h : Obs.Walk o ms o') (hl : ∀ m ∈ ms, m.keepsLive = true) :
    picks ms = (List.range (picks ms).length).map
      (fun k => o.live.getD (((Engine.turnIndex o.next o.live.length).toNat + k) % o.live.length) 0) ∧
    (picks ms ≠ [] → 0 ≤ Engine.turnIndex o.next o.live.length) ∧ o'.live = o.live := by
  induction h with
  | nil => exact ⟨rfl, fun h => absurd rfl h, rfl⟩
  | @cons o _ m ms hv _ ih =>
    obtain ⟨hp, hfirst, hlive⟩ := ih fun m' hm' => hl m' (List.mem_cons_of_mem m hm')
    have hkeep := Mark.live_apply o (hl m List.mem_cons_self)
    rw [hkeep] at hp hfirst
    refine ⟨?_, ?_, hlive.trans hkeep⟩
    · cases m with
      | pick w =>
        -- the turn takes the worker at the counter's place, and the next ones follow it round
        obtain ⟨hne, hi, rfl⟩ := hv
        have hlen : 0 < o.live.length := List.length_pos_iff.mpr hne
        have hlt := Engine.turnIndex_lt hlen hi
        simp only [picks_cons, Mark.picked, Option.map_some, Option.getD_some, List.singleton_append,
          List.length_cons]
        rw [map_range_succ_from (fun c => o.live.getD (c % o.live.length) 0), Nat.add_zero,
          Nat.mod_eq_of_lt hlt]
        refine congrArg _ (hp.trans ?_)
        by_cases hr : picks ms = []
        · rw [hr]; rfl
        · -- the next turn finds a place too: it follows this one
          simp only [Mark.apply] at hfirst ⊢
          rw [Engine.turnIndex_succ hlen hi (hfirst hr)]
          simp only [Nat.mod_add_mod]
      | _ => simpa [picks_cons, Mark.apply, Mark.picked, Obs.rebind] using hp
    · intro hne
      cases m with
      | pick w => exact hv.2.1
      | _ => simpa [picks_cons, Mark.apply, Mark.picked, Obs.rebind] using hfirst hne

end Obs.Walk

/-- Reading a list at consecutive counts, as many as it is long, rotates it. -/
theorem map_range_rotate (L : List Nat) (n : Nat) :
    (List.range L.length).map (fun k => L.getD ((n + k) % L.length) 0) = L.rotate n := by
  apply List.ext_getElem (by simp)
  intro k h₁ h₂
  rw [List.getElem_map, List.getElem_range, List.getElem_rotate, Nat.add_comm n k]
  exact (List.getElem_eq_getD 0).symm

namespace Engine

/-- How new work from `scope` is placed: refused once the engine is shut down or has no live
worker; else on the calling pool worker while it has not left; else on the live worker at the
place the counter names, which is in the list, and the counter moves on; where the counter
names a place before the first, the choice fails as an index out of range and changes
nothing. -/
def ChoosesInTurn (e : Engine) (scope : Scope) : Prop :=
  (e.shutdown = true ∨ e.live = [] → e.chooseWorker scope = (.error .rejected, e)) ∧
  (e.shutdown = false → e.live ≠ [] →
    (∀ w, scope.poolWorker = some w → e.terminated (.pool w) = false →
      e.chooseWorker scope = (.ok w, e)) ∧
    ((∀ w, scope.poolWorker = some w → e.terminated (.pool w) = true) →
      (0 ≤ turnIndex e.next e.live.length →
        ∃ h : (turnIndex e.next e.live.length).toNat < e.live.length,
          e.chooseWorker scope =
            (.ok e.live[(turnIndex e.next e.live.length).toNat], { e with next := e.next + 1 })) ∧
      (turnIndex e.next e.live.length < 0 →
        e.chooseWorker scope = (.error (.aborted ("runtime error: index out of range [" ++
          toString (turnIndex e.next e.live.length) ++ "]")), e))))

/-- A counter that names a place moves on by one. -/
theorem nextInTurn_of_nonneg {e : Engine} (hi : 0 ≤ turnIndex e.next e.live.length) :
    e.nextInTurn = (.ok (e.live.getD (turnIndex e.next e.live.length).toNat 0),
      { e with next := e.next + 1 }) := by
  simp [nextInTurn, Int.not_lt.mpr hi]

/-- A counter that names a place before the first fails as an index out of range. -/
theorem nextInTurn_of_neg {e : Engine} (hi : turnIndex e.next e.live.length < 0) :
    e.nextInTurn = (.error (.aborted ("runtime error: index out of range [" ++
      toString (turnIndex e.next e.live.length) ++ "]")), e) := by
  simp [nextInTurn, hi]

/-- A caller that has left, or none, gets the worker in turn. -/
theorem chooseWorker_of_terminated {e : Engine} {scope : Scope} (hs : e.shutdown = false)
    (hl : e.live ≠ []) (ht : ∀ w, scope.poolWorker = some w → e.terminated (.pool w) = true) :
    e.chooseWorker scope = e.nextInTurn := by
  unfold chooseWorker
  cases hw : scope.poolWorker with
  | none => simp [hs, hl]
  | some w => simp [hs, hl, ht w hw]

theorem chooseWorker_spec (e : Engine) (scope : Scope) : e.ChoosesInTurn scope := by
  refine ⟨fun h => ?_, fun hs hl => ⟨fun w hw ht => ?_, fun ht => ⟨fun hi => ?_, fun hi => ?_⟩⟩⟩
  · unfold chooseWorker
    rcases h with h | h <;> simp [h]
  · unfold chooseWorker
    simp [hs, hl, hw, ht]
  · have hk := turnIndex_lt (List.length_pos_iff.mpr hl) hi
    refine ⟨hk, ?_⟩
    rw [chooseWorker_of_terminated hs hl ht, nextInTurn_of_nonneg hi, List.getElem_eq_getD 0]
  · rw [chooseWorker_of_terminated hs hl ht, nextInTurn_of_neg hi]

/-- Workers are taken in turn, on every engine made and then called. Each choice of a worker
for new work is the calling pool worker while it has not left, and otherwise the live worker at
the place the counter names, after which the counter moves on, or, where the counter names a
place before the first, a failure that changes nothing. Along every run of calls the counter
moves on by the number of turns; the turns take the live workers at consecutive places, so any
turns in a row, as many as there are live workers, while the live workers stay the same, take
each live worker exactly once. -/
theorem round_robin {e : Engine} (hr : e.Reachable) :
    (∀ scope, e.ChoosesInTurn scope) ∧
    ∀ {e' : Engine}, Relation.ReflTransGen Call e e' → ∃ ms, Obs.Walk e.obs ms e'.obs ∧
      e'.next = e.next + Int64.ofNat (picks ms).length ∧
      ∀ ms₁ ms₂ ms₃, ms = ms₁ ++ ms₂ ++ ms₃ → (∀ m ∈ ms₂, m.keepsLive = true) →
        (picks ms₂).length = (e.obs.after ms₁).live.length →
        (picks ms₂).Nodup ∧ ∀ w, w ∈ picks ms₂ ↔ w ∈ (e.obs.after ms₁).live := by
  refine ⟨chooseWorker_spec e, fun hc => ?_⟩
  obtain ⟨ms, hw, -⟩ := marks_of_calls hc hr.obs_sane
  refine ⟨ms, hw, hw.next_eq, fun ms₁ ms₂ ms₃ hms hl hn => ?_⟩
  subst hms
  obtain ⟨h₁₂, -⟩ := hw.split
  obtain ⟨h₁, h₂⟩ := h₁₂.split
  -- the live workers where the turns begin are listed once each
  have hnd := (hr.obs_sane.walk h₁).nodup
  -- the turns read the live workers at consecutive places, as many as there are: a rotation
  have hrot : picks ms₂ = (e.obs.after ms₁).live.rotate
      (turnIndex (e.obs.after ms₁).next (e.obs.after ms₁).live.length).toNat := by
    rw [(h₂.picks_eq hl).1, hn, map_range_rotate]
  rw [hrot]
  exact ⟨(List.rotate_perm _ _).nodup_iff.mpr hnd, fun w => (List.rotate_perm _ _).mem_iff⟩

/-- A new engine with one worker, started: the walk of the start, and its counter. -/
theorem new_engine_takes_turns :
    match Engine.create ⟨"", 1, 0, 0⟩ 1 Balancer.inert none "t" 0 with
    | .ok e => ∃ ms, Obs.Walk e.obs ms e.start.2.obs ∧
        e.start.2.next = e.next + Int64.ofNat (picks ms).length
    | .error _ => False := by
  obtain ⟨-, hrun⟩ := round_robin (.create ⟨"", 1, 0, 0⟩ 1 Balancer.inert none "t" 0 rfl)
  obtain ⟨ms, hw, hnext, -⟩ := hrun (.single (.start _))
  exact ⟨ms, hw, hnext⟩

/-! ## The counter wraps -/

theorem pushThread_turns (e : Engine) (scope : Scope) (w : WorkerId) (p : Priority) (it : Item) :
    (e.pushThread scope w p it).next = e.next ∧ (e.pushThread scope w p it).live = e.live ∧
      (e.pushThread scope w p it).shutdown = e.shutdown := by
  unfold pushThread
  split
  · exact ⟨rfl, rfl, rfl⟩
  · split <;> cases w <;> exact ⟨rfl, rfl, rfl⟩

/-- Work scheduled at once from outside moves the counter as the choice of its worker does, and
keeps the live workers and whether the engine is shut down. -/
theorem schedule_now_turns (e : Engine) (t : Task) :
    (e.schedule Scope.outside t 0).2.next = (e.chooseWorker Scope.outside).2.next ∧
      (e.schedule Scope.outside t 0).2.live = e.live ∧
      (e.schedule Scope.outside t 0).2.shutdown = e.shutdown := by
  have hc := e.chooseWorker_snd Scope.outside
  unfold schedule
  generalize e.chooseWorker Scope.outside = r at hc ⊢
  obtain ⟨x, e₁⟩ := r
  have h₁ : e₁.live = e.live ∧ e₁.shutdown = e.shutdown := by
    rcases hc with rfl | rfl <;> exact ⟨rfl, rfl⟩
  cases x with
  | error f => exact ⟨rfl, h₁⟩
  | ok w =>
    obtain ⟨hn, hl, hs⟩ := pushThread_turns e₁ Scope.outside (.pool w) .normal ⟨.task t, none, none⟩
    exact ⟨hn, hl.trans h₁.1, hs.trans h₁.2⟩

/-- Turns from outside, one after another, from a counter at zero: each of the first 2^63
(9223372036854775808) finds a place and moves the counter on by one. -/
theorem schedule_iterate_next {e : Engine} (hs : e.shutdown = false) (hl : e.live ≠ [])
    (h0 : e.next = 0) (t : Task) :
    ∀ k : Nat, k ≤ 9223372036854775808 →
      ((fun x : Engine => (x.schedule Scope.outside t 0).2)^[k] e).next = Int64.ofNat k ∧
      ((fun x : Engine => (x.schedule Scope.outside t 0).2)^[k] e).live = e.live ∧
      ((fun x : Engine => (x.schedule Scope.outside t 0).2)^[k] e).shutdown = e.shutdown
  | 0, _ => ⟨h0, rfl, rfl⟩
  | k + 1, hk => by
    obtain ⟨hn, hl', hs'⟩ := schedule_iterate_next hs hl h0 t k (by omega)
    rw [Function.iterate_succ_apply']
    generalize (fun x : Engine => (x.schedule Scope.outside t 0).2)^[k] e = x at hn hl' hs'
    obtain ⟨hn₁, hl₁, hs₁⟩ := schedule_now_turns x t
    refine ⟨?_, hl₁.trans hl', hs₁.trans hs'⟩
    -- a counter below 2^63 is not below zero, and names a place
    have hi : 0 ≤ turnIndex x.next x.live.length := by
      rw [hn]
      unfold turnIndex
      rw [Int64.toInt_ofNat_of_lt (by omega)]
      exact Int.tmod_nonneg _ (Int.natCast_nonneg k)
    rw [hn₁, chooseWorker_of_terminated (hs'.trans hs) (hl' ▸ hl) (fun _ h => by cases h),
      nextInTurn_of_nonneg hi, hn, Int64.ofNat_add]
    rfl

/-- The counter wraps: on an engine started with two workers, 2^63 + 1 turns from outside take
it to -2^63 + 1, whose remainder by two is -1, and the next choice of a worker fails as an index
out of range, as does every later one. -/
theorem turn_counter_wraps :
    ∃ e : Engine, e.Reachable ∧ e.live = [0, 1] ∧ e.shutdown = false ∧
      e.chooseWorker Scope.outside = (.error (.aborted "runtime error: index out of range [-1]"), e) := by
  let e₀ := ((Engine.create ⟨"", 2, 0, 0⟩ 2 Balancer.inert none "t" 0).toOption.get (by decide)).start.2
  have he₀ : e₀.Reachable :=
    (Reachable.create ⟨"", 2, 0, 0⟩ 2 Balancer.inert none "t" 0 rfl).call (.start _)
  have hread : (e₀.shutdown, e₀.live, e₀.next) = (false, [0, 1], 0) := by decide +kernel
  simp only [Prod.mk.injEq] at hread
  obtain ⟨hs₀, hl₀, hn₀⟩ := hread
  have hreach := Reachable.iterate (fun x : Engine => (x.schedule Scope.outside .noop 0).2)
    (fun x => .schedule x _ _ _) he₀ 9223372036854775808
  obtain ⟨hn, hl, hs⟩ := schedule_iterate_next hs₀ (by rw [hl₀]; simp) hn₀ .noop 9223372036854775808 le_rfl
  -- the engine after 2^63 turns is read only through these facts
  generalize (fun x : Engine => (x.schedule Scope.outside .noop 0).2)^[9223372036854775808] e₀ = x at hreach hn hl hs
  rw [hl₀] at hl
  rw [hs₀] at hs
  -- the wrapped counter, -2^63, is even, so one more turn is taken
  obtain ⟨hn₁, hl₁, hs₁⟩ := schedule_now_turns x .noop
  have hi₀ : 0 ≤ turnIndex x.next x.live.length := by rw [hn, hl]; decide
  rw [chooseWorker_of_terminated hs (by rw [hl]; simp) (fun _ h => by cases h),
    nextInTurn_of_nonneg hi₀, hn] at hn₁
  dsimp only at hn₁
  rw [hl] at hl₁
  rw [hs] at hs₁
  refine ⟨_, hreach.call (.schedule _ _ _ _), hl₁, hs₁, ?_⟩
  -- and the next, at -2^63 + 1, is odd: its remainder is -1
  have hi : turnIndex (x.schedule Scope.outside .noop 0).2.next
      (x.schedule Scope.outside .noop 0).2.live.length = -1 := by
    rw [hn₁, hl₁]; decide
  rw [chooseWorker_of_terminated hs₁ (by rw [hl₁]; simp) (fun _ h => by cases h),
    nextInTurn_of_neg (by rw [hi]; decide), hi]
  rfl

end Engine

end Courier.Dispatch
