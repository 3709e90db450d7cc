import Courier.Proofs.Dispatch.Queued
import Mathlib.Data.List.Nodup

/-!
# The drain ledger of the serial queues

A serial queue runs its tasks through drains: when work arrives and no drain is pending, one
drain is posted to the queue's target, and a drain takes the tasks that were waiting when it
started. `Ledger W n R extra e` is the bookkeeping that keeps exactly one drain per triggered queue:

- a queue is triggered iff one drain of it is outstanding, and idle iff none is, where a drain
  is outstanding while it waits in a queue, runs (`R`), or is being posted (`extra`);
- a queue's size counts its waiting tasks and those its running drain has taken;
- a queue with work, no suspension and no running drain is triggered, and no queue has lifted
  more suspensions than it made, except the queues `W` whose count of suspensions may have
  wrapped;
- targets name queues that exist; and, for the nesting of drains within one worker step that began
  with `n` serial queues, younger queues target no serial queue and drains waiting in serial queues,
  like running ones, are of older queues.

The lemmas here say how one change to one serial queue, or a move of an item between the queues
and `extra`, keeps the ledger (`Ledger.modifySerial`, `Ledger.of_queued`).
-/

set_option autoImplicit false

/-! ## Counts of 32 bits

A serial queue counts its suspensions and holds in 32 bits, from -2^31 to 2^31 - 1, and a count
at the top wraps to the bottom on one more. These are the facts about such a count that the
ledger and the holds use: away from the top, one more is one more, and from zero up it never
comes back to zero. -/

namespace Int32

theorem toInt_add_one_of_ne {a : Int32} (h : a ≠ maxValue) : (a + 1).toInt = a.toInt + 1 := by
  have hne : a.toInt ≠ maxValue.toInt := fun he => h (toInt_inj.mp he)
  rw [toInt_maxValue] at hne
  have := toInt_lt a
  have := le_toInt a
  rw [toInt_add, toInt_one, Int.bmod_eq_of_le] <;> omega

theorem toInt_sub_one_of_ne {a : Int32} (h : a ≠ minValue) : (a - 1).toInt = a.toInt - 1 := by
  have hne : a.toInt ≠ minValue.toInt := fun he => h (toInt_inj.mp he)
  rw [toInt_minValue] at hne
  have := toInt_lt a
  have := le_toInt a
  rw [toInt_sub, toInt_one, Int.bmod_eq_of_le] <;> omega

/-- Adding to a count not below zero, up to the top, adds in full. -/
theorem toInt_add_ofNat {a : Int32} {k : Nat} (h : 0 ≤ a) (hk : a.toInt + k ≤ maxValue.toInt) :
    (a + ofNat k).toInt = a.toInt + k := by
  rw [le_iff_toInt_le, toInt_zero] at h
  rw [toInt_maxValue] at hk
  have := toInt_lt a
  rw [toInt_add, toInt_ofNat_of_lt (by omega), Int.bmod_eq_of_le] <;> omega

/-- One more than a count not below zero is never zero, even where it wraps. -/
theorem add_one_ne_zero_of_nonneg {a : Int32} (h : 0 ≤ a) : a + 1 ≠ 0 := by
  intro h0
  have h1 := congrArg toInt h0
  rw [le_iff_toInt_le, toInt_zero] at h
  rw [toInt_add, toInt_one, toInt_zero, Int.bmod_def] at h1
  have := toInt_lt a
  split at h1 <;> omega

/-- One more than a count not below zero, short of the top, is not below zero. -/
theorem add_one_nonneg {a : Int32} (h : 0 ≤ a) (hm : a ≠ maxValue) : 0 ≤ a + 1 := by
  rw [le_iff_toInt_le, toInt_zero] at h ⊢
  rw [toInt_add_one_of_ne hm]
  omega

/-- One more than a positive count below the top is positive. -/
theorem add_one_pos {a : Int32} (h : 0 < a) (hm : a ≠ maxValue) : 0 < a + 1 := by
  rw [lt_iff_toInt_lt, toInt_zero] at h ⊢
  rw [toInt_add_one_of_ne hm]
  omega

/-- One less than a positive count other than one is positive. -/
theorem sub_one_pos {a : Int32} (h : 0 < a) (h1 : a ≠ 1) : 0 < a - 1 := by
  have hmin : a ≠ minValue := by
    rintro rfl
    exact absurd h (by decide)
  have hne : a.toInt ≠ 1 := fun he => h1 (toInt_inj.mp (he.trans toInt_one.symm))
  rw [lt_iff_toInt_lt, toInt_zero] at h ⊢
  rw [toInt_sub_one_of_ne hmin]
  omega

/-- One less than a count is zero exactly when the count is one. -/
theorem sub_one_eq_zero_iff {a : Int32} : a - 1 = 0 ↔ a = 1 := by
  constructor
  · intro h
    have h1 : a - 1 + 1 = 0 + 1 := congrArg (· + 1) h
    rwa [Int32.sub_add_cancel, Int32.zero_add] at h1
  · rintro rfl
    decide

/-- A count one past zero is neither below nor above one. -/
theorem eq_one_of_sub_one {a : Int32} (hn : ¬a - 1 < 0) (hp : ¬0 < a - 1) : a = 1 :=
  sub_one_eq_zero_iff.mp (Int32.le_antisymm (Int32.not_lt.mp hp) (Int32.not_lt.mp hn))

/-- One less than a count not below zero is below zero exactly when the count is zero. -/
theorem sub_one_neg_iff {a : Int32} (h : 0 ≤ a) : a - 1 < 0 ↔ a = 0 := by
  have hmin : a ≠ minValue := by
    intro he; rw [he] at h; exact absurd h (by decide)
  rw [le_iff_toInt_le, toInt_zero] at h
  rw [lt_iff_toInt_lt, toInt_sub_one_of_ne hmin, toInt_zero, ← toInt_inj, toInt_zero]
  omega

end Int32

namespace Courier.Dispatch

open Courier.Queue

/-- The drains that run, innermost first: the serial queue of each and how many of its items it
has taken. -/
abbrev Running := List (Nat × Nat)

/-- The serial queues whose drains run. -/
def Running.ids (R : Running) : List Nat := R.map Prod.fst

/-- How many items the running drains of a serial queue have taken. -/
def Running.taken : Running → Nat → Nat
  | [], _ => 0
  | (x, k) :: R, id => (if x = id then k else 0) + Running.taken R id

/-- The running drains once item `it` starts: a drain joins them innermost, having taken
nothing yet. -/
def Running.start (it : Item) (R : Running) : Running :=
  match it.drainOf with
  | some x => (x, 0) :: R
  | none => R

namespace Running

variable {R : Running} {it : Item}

@[simp] theorem ids_nil : Running.ids [] = [] := rfl

@[simp] theorem ids_cons (a : Nat × Nat) (R : Running) : ids (a :: R) = a.1 :: R.ids := rfl

@[simp] theorem taken_nil (id : Nat) : Running.taken [] id = 0 := rfl

@[simp] theorem taken_cons (x k : Nat) (R : Running) (id : Nat) :
    taken ((x, k) :: R) id = (if x = id then k else 0) + R.taken id := rfl

theorem start_of_none (h : it.drainOf = none) : start it R = R := by simp [start, h]

theorem start_of_some {x : Nat} (h : it.drainOf = some x) : start it R = (x, 0) :: R := by
  simp [start, h]

@[simp] theorem taken_start (id : Nat) : (start it R).taken id = R.taken id := by
  unfold start; split <;> simp

theorem count_start (x : Nat) :
    (start it R).ids.count x = R.ids.count x + (if it.drainOf = some x then 1 else 0) := by
  unfold start; split <;> simp_all [List.count_cons]

theorem mem_start {x : Nat} : x ∈ (start it R).ids ↔ it.drainOf = some x ∨ x ∈ R.ids := by
  unfold start
  cases h : it.drainOf with
  | none => simp
  | some y => simp [eq_comm]

theorem taken_of_not_mem {id : Nat} (h : id ∉ R.ids) : R.taken id = 0 := by
  induction R with
  | nil => rfl
  | cons a R ih =>
    simp only [ids_cons, List.mem_cons, not_or] at h
    obtain ⟨x, k⟩ := a
    simp [Ne.symm h.1, ih h.2]

end Running

/-- One for a triggered serial queue, none for an idle one. -/
def Serial.pending (s : Serial) : Nat := if s.triggered then 1 else 0

/-- Where a serial queue that follows its callers goes on a post from `scope`: to the calling
pool worker's own queue, while it targets a shared queue. -/
def Serial.follow (scope : Scope) (s : Serial) : Serial :=
  match scope.poolWorker, s.target with
  | some w, .global _ => { s with target := .thread (.pool w) s.prio }
  | _, _ => s

/-- A change to a serial queue that at most points it at a worker's own queue. -/
def Retargets (r : Serial → Serial) : Prop :=
  ∀ s, (r s).tasks = s.tasks ∧ (r s).size = s.size ∧ (r s).triggered = s.triggered ∧
    (r s).suspended = s.suspended ∧ ((r s).target = s.target ∨ ∃ w p, (r s).target = .thread w p)

theorem retargets_follow (scope : Scope) : Retargets (Serial.follow scope) := by
  intro s
  unfold Serial.follow
  split
  · exact ⟨rfl, rfl, rfl, rfl, .inr ⟨_, _, rfl⟩⟩
  · exact ⟨rfl, rfl, rfl, rfl, .inl rfl⟩

namespace Engine

/-- Whether a queue reference names a queue the engine has: serial queues by a number in range. -/
def validRef (e : Engine) : QueueRef → Prop
  | .serial id => id < e.serials.size
  | _ => True

/-- The drains of serial queue `id` that are outstanding: waiting in a queue, running, or being
posted. -/
def outstanding (e : Engine) (R : Running) (extra : List Item) (id : Nat) : Nat :=
  drainCount e.queued id + R.ids.count id + drainCount extra id

/-- How many serial queues are not triggered. -/
def untriggered (e : Engine) : Nat := e.serials.toList.countP fun s => !s.triggered

@[simp] theorem serials_modifySerial (e : Engine) (id : Nat) (f : Serial → Serial) :
    (e.modifySerial id f).serials = e.serials.modify id f := rfl

theorem modifySerial_modifySerial (e : Engine) (id : Nat) (f g : Serial → Serial) :
    (e.modifySerial id f).modifySerial id g = e.modifySerial id (g ∘ f) := by
  simp only [modifySerial, Engine.mk.injEq, and_true, true_and]
  apply Array.ext_getElem?
  intro j
  simp only [Array.getElem?_modify]
  split <;> simp [Option.map_map]

/-- A change to a serial queue matters only at the queue it changes. -/
theorem modifySerial_congr (e : Engine) (id : Nat) {f g : Serial → Serial}
    (h : ∀ s, e.serials[id]? = some s → f s = g s) : e.modifySerial id f = e.modifySerial id g := by
  have : e.serials.modify id f = e.serials.modify id g := by
    apply Array.ext_getElem?
    intro j
    simp only [Array.getElem?_modify]
    by_cases hij : id = j
    · subst hij
      cases hs : e.serials[id]? with
      | none => simp
      | some s => simp [h s hs]
    · simp [hij]
  simp only [modifySerial, this]

theorem modifySerial_id (e : Engine) (id : Nat) : e.modifySerial id (fun s => s) = e := by
  have : e.serials.modify id (fun s => s) = e.serials := by
    apply Array.ext_getElem?
    intro j
    simp only [Array.getElem?_modify]
    split <;> simp
  simp only [modifySerial, this]

/-- Changing a serial queue that does not exist changes nothing. -/
theorem modifySerial_of_none (e : Engine) {id : Nat} (hs : e.serials[id]? = none) (f : Serial → Serial) :
    e.modifySerial id f = e :=
  (e.modifySerial_congr id (g := fun s => s) fun s h' => by simp [hs] at h').trans (e.modifySerial_id id)

theorem followCaller_eq (e : Engine) (scope : Scope) (id : Nat) :
    e.followCaller scope id = e.modifySerial id (Serial.follow scope) := by
  unfold followCaller
  cases hp : scope.poolWorker with
  | none =>
    exact (e.modifySerial_id id).symm.trans
      (e.modifySerial_congr id fun s _ => by simp [Serial.follow, hp])
  | some w =>
    cases hs : e.serials[id]? with
    | none =>
      exact (e.modifySerial_id id).symm.trans
        (e.modifySerial_congr id fun s h => by simp [hs] at h)
    | some s =>
      simp only
      split
      · refine e.modifySerial_congr id fun s' h => ?_
        obtain rfl : s = s' := Option.some.inj (hs.symm.trans h)
        simp [Serial.follow, *]
      · refine (e.modifySerial_id id).symm.trans (e.modifySerial_congr id fun s' h => ?_)
        obtain rfl : s = s' := Option.some.inj (hs.symm.trans h)
        unfold Serial.follow; rw [hp]; split <;> simp_all

@[simp] theorem validRef_modifySerial (e : Engine) (id : Nat) (f : Serial → Serial) :
    (e.modifySerial id f).validRef = e.validRef := by
  funext q; cases q <;> simp [validRef]

theorem untriggered_modifySerial (e : Engine) (id : Nat) (f : Serial → Serial) {s : Serial}
    (hs : e.serials[id]? = some s) :
    (e.modifySerial id f).untriggered + (if s.triggered then 0 else 1) =
      e.untriggered + (if (f s).triggered then 0 else 1) := by
  have hs' : e.serials.toList[id]? = some s := by rw [Array.getElem?_toList]; exact hs
  obtain ⟨hi, -⟩ := List.getElem?_eq_some_iff.mp hs'
  obtain ⟨l₁, b, l₂, hl, hlen, hm⟩ := List.exists_of_modify f hi
  have hb : b = s := by
    rw [hl, ← hlen] at hs'; simpa using hs'
  subst hb
  simp only [untriggered, serials_modifySerial, Array.toList_modify, hm]
  rw [hl]
  simp only [List.countP_append, List.countP_cons]
  cases b.triggered <;> cases (f b).triggered <;> simp <;> omega

theorem untriggered_of_triggered (e : Engine) (id : Nat) {f : Serial → Serial}
    (hf : ∀ s, (f s).triggered = s.triggered) : (e.modifySerial id f).untriggered = e.untriggered := by
  cases hs : e.serials[id]? with
  | none =>
    rw [e.modifySerial_of_none hs]
  | some s => have := e.untriggered_modifySerial id f hs; rw [hf] at this; omega

/-- Triggering an idle queue leaves one idle queue fewer. -/
theorem untriggered_flag (e : Engine) {id : Nat} {s : Serial} (hs : e.serials[id]? = some s)
    (ht : s.triggered = false) :
    (e.modifySerial id fun s => { s with triggered := true }).untriggered + 1 = e.untriggered := by
  have := e.untriggered_modifySerial id (fun s => { s with triggered := true }) hs
  simp [ht] at this; omega

theorem untriggered_le (e : Engine) : e.untriggered ≤ e.serials.size := by
  unfold untriggered
  exact Nat.le_trans List.countP_le_length (by simp)

end Engine

/-- The drain protocol of the serial queues, while the drains `R` run and the items `extra` are
being posted, within a worker step that began with `n` serial queues. -/
structure Ledger (W : List Nat) (n : Nat) (R : Running) (extra : List Item) (e : Engine) : Prop where
  lanes : e.LanesWF
  /-- A triggered queue has exactly one drain outstanding, an idle one none. -/
  drains : ∀ (id : Nat) (s : Serial), e.serials[id]? = some s → e.outstanding R extra id = s.pending
  absent : ∀ id : Nat, e.serials[id]? = none → e.outstanding R extra id = 0
  /-- The size counts the waiting tasks and those taken by a running drain. -/
  size : ∀ (id : Nat) (s : Serial), e.serials[id]? = some s → s.size = ((s.tasks.toList.length + R.taken id : Nat) : Int)
  /-- A queue with work, no suspension and no running drain is triggered, unless its count of
  suspensions may have wrapped. -/
  idle : ∀ (id : Nat) (s : Serial), e.serials[id]? = some s → id ∉ W → id ∉ R.ids → 0 < s.size →
    s.suspended = 0 → s.triggered = true
  /-- Suspensions are never lifted more often than made, unless the count may have wrapped. -/
  suspension : ∀ (id : Nat) (s : Serial), e.serials[id]? = some s → id ∉ W → 0 ≤ s.suspended
  target : ∀ (id : Nat) (s : Serial), e.serials[id]? = some s → e.validRef s.target
  /-- Queues made during the step target no serial queue. -/
  young : ∀ (id : Nat) (s : Serial), e.serials[id]? = some s → n ≤ id → ∀ t : Nat, s.target ≠ .serial t
  /-- Drains waiting in serial queues are of queues older than the step. -/
  inner : ∀ (id : Nat) (s : Serial), e.serials[id]? = some s → ∀ it ∈ s.tasks.toList, ∀ x : Nat, Item.drainOf it = some x → x < n
  running : ∀ x : Nat, x ∈ R.ids → x < n
  /-- Serial queues are never removed. -/
  grown : n ≤ e.serials.size

namespace Ledger

variable {n : Nat} {W : List Nat} {R : Running} {extra : List Item} {e : Engine} {it : Item}

/-- No serial queue has two running drains. -/
theorem count_le_one (h : Ledger W n R extra e) (x : Nat) : R.ids.count x ≤ 1 := by
  have hle : e.outstanding R extra x ≤ 1 := by
    cases hs : e.serials[x]? with
    | none => rw [h.absent x hs]; omega
    | some s => rw [h.drains x s hs]; unfold Serial.pending; split <;> omega
  unfold Engine.outstanding at hle
  omega

/-- Drains run inside one another at most as deep as there were serial queues. -/
theorem length_le (h : Ledger W n R extra e) : R.length ≤ n := by
  have hnd : R.ids.Nodup := List.nodup_iff_count_le_one.mpr h.count_le_one
  have := hnd.length_le_of_subset (show R.ids ⊆ List.range n from
    fun x hx => List.mem_range.mpr (h.running x hx))
  simpa [Running.ids] using this

/-- A ledger for a step that began with `n` serial queues holds for any later start. -/
theorem mono (h : Ledger W n R extra e) {n' : Nat} (hn : n ≤ n') (hn' : n' ≤ e.serials.size) :
    Ledger W n' R extra e :=
  { h with
    grown := hn'
    young := fun id s hs hid => h.young id s hs (Nat.le_trans hn hid)
    inner := fun id s hs it hit x hx => Nat.lt_of_lt_of_le (h.inner id s hs it hit x hx) hn
    running := fun x hx => Nat.lt_of_lt_of_le (h.running x hx) hn }

/-- Exempting more queues from the suspension rules keeps the ledger. -/
theorem widen (h : Ledger W n R extra e) {W' : List Nat} (hW : ∀ x ∈ W, x ∈ W') :
    Ledger W' n R extra e :=
  { h with
    idle := fun id s hs hid => h.idle id s hs fun hm => hid (hW id hm)
    suspension := fun id s hs hid => h.suspension id s hs fun hm => hid (hW id hm) }

/-- Moving drains between the queues, the items being posted and the running drains, with the
serial queues and the shape of the workers' queues unchanged, keeps the ledger. -/
theorem of_moved (h : Ledger W n R extra e) {e' : Engine} {R' : Running} {extra' : List Item}
    (hq : ∀ x, drainCount e'.queued x + drainCount extra' x + R'.ids.count x =
      drainCount e.queued x + drainCount extra x + R.ids.count x)
    (hs : e'.serials = e.serials) (hl : e'.LanesWF) (htaken : ∀ x, R'.taken x = R.taken x)
    (hsub : ∀ x ∈ R.ids, x ∈ R'.ids) (hrun : ∀ x ∈ R'.ids, x < n) : Ledger W n R' extra' e' := by
  have hout : ∀ x, e'.outstanding R' extra' x = e.outstanding R extra x := by
    intro x; have := hq x; simp only [Engine.outstanding]; omega
  have hv : e'.validRef = e.validRef := by funext q; cases q <;> simp [Engine.validRef, hs]
  refine ⟨hl, fun id s hs' => ?_, fun id hs' => ?_, fun id s hs' => ?_, fun id s hs' => ?_,
    fun id s hs' => ?_, fun id s hs' => ?_, fun id s hs' => ?_, fun id s hs' => ?_, hrun,
    hs ▸ h.grown⟩ <;>
    rw [hs] at hs'
  · rw [hout]; exact h.drains id s hs'
  · rw [hout]; exact h.absent id hs'
  · rw [htaken]; exact h.size id s hs'
  · exact fun hW hR => h.idle id s hs' hW fun hR' => hR (hsub id hR')
  · exact h.suspension id s hs'
  · rw [hv]; exact h.target id s hs'
  · exact h.young id s hs'
  · exact h.inner id s hs'

/-- Moving drains between the queues and the items being posted, with the serial queues and
the shape of the workers' queues unchanged, keeps the ledger. -/
theorem of_queued (h : Ledger W n R extra e) {e' : Engine} {extra' : List Item}
    (hq : ∀ x, drainCount e'.queued x + drainCount extra' x = drainCount e.queued x + drainCount extra x)
    (hs : e'.serials = e.serials) (hl : e'.LanesWF) : Ledger W n R extra' e' :=
  h.of_moved (fun x => by rw [hq]) hs hl (fun _ => rfl) (fun _ hx => hx) h.running

/-- The ledger reads only the queues. -/
theorem of_eq (h : Ledger W n R extra e) {e' : Engine} (hg : e'.global = e.global)
    (hm : e'.main = e.main) (hw : e'.workers = e.workers) (hs : e'.serials = e.serials) :
    Ledger W n R extra e' :=
  h.of_queued (by simp [Engine.queued, hg, hm, hw, hs]) hs
    (fun w wk hw' => h.lanes w wk (by cases w <;> simp_all [Engine.worker?]))

/-- An item that is no drain may be dropped from those being posted. -/
theorem drop (h : Ledger W n R (it :: extra) e) (hit : it.drainOf = none) : Ledger W n R extra e :=
  h.of_queued (fun x => by simp [hit]) rfl h.lanes

/-- An item that is no drain may be posted. -/
theorem cons (h : Ledger W n R extra e) (hit : it.drainOf = none) : Ledger W n R (it :: extra) e :=
  h.of_queued (fun x => by simp [hit]) rfl h.lanes

/-- A worker changes, but not its queues. -/
theorem modifyWorker (h : Ledger W n R extra e) (w : WorkerId) {f : Worker → Worker}
    (hf : ∀ wk, (f wk).lanes = wk.lanes) : Ledger W n R extra (e.modifyWorker w f) := by
  refine h.of_queued (fun x => by rw [e.queued_modifyWorker_of_lanes w f hf]) (by cases w <;> rfl)
    fun w' wk' hw' => ?_
  rw [Engine.worker?_modifyWorker] at hw'
  split at hw'
  · obtain ⟨wk, hw, rfl⟩ := Option.map_eq_some_iff.mp hw'
    intro p; rw [hf]; exact h.lanes _ wk hw p
  · exact h.lanes w' wk' hw'

/-- A fresh serial queue, with nothing to do and no serial target, joins the engine. -/
theorem pushSerial (h : Ledger W n R extra e) {e' : Engine} {s : Serial} (hg : e'.global = e.global)
    (hm : e'.main = e.main) (hw : e'.workers = e.workers) (hs : e'.serials = e.serials.push s)
    (hempty : s.tasks.toList = []) (hsize : s.size = 0) (htr : s.triggered = false)
    (hsusp : 0 ≤ s.suspended) (htarget : ∀ t, s.target ≠ .serial t) : Ledger W n R extra e' := by
  have hq : e'.queued = e.queued := by simp [Engine.queued, hg, hm, hw, hs, hempty]
  have hout : ∀ x, e'.outstanding R extra x = e.outstanding R extra x := by
    simp [Engine.outstanding, hq]
  have hv : ∀ q, e.validRef q → e'.validRef q := by
    intro q hq'; cases q <;> simp_all [Engine.validRef]; omega
  have hget : ∀ j, e'.serials[j]? = e.serials[j]? ∨ (j = e.serials.size ∧ e'.serials[j]? = some s) := by
    intro j
    rw [hs, Array.getElem?_push]
    split
    · exact .inr ⟨by assumption, rfl⟩
    · exact .inl rfl
  have habsent : e.serials[e.serials.size]? = none := by simp
  refine ⟨?_, fun j s' hj => ?_, fun j hj => ?_, fun j s' hj => ?_, fun j s' hj => ?_,
    fun j s' hj => ?_, fun j s' hj => ?_, fun j s' hj => ?_, fun j s' hj => ?_, h.running,
    by rw [hs, Array.size_push]; exact Nat.le_succ_of_le h.grown⟩
  · intro w wk hw'; apply h.lanes w wk; cases w <;> simp_all [Engine.worker?]
  all_goals rcases hget j with hj' | ⟨rfl, hj'⟩
  all_goals first
    | (rw [hj'] at hj; obtain rfl := Option.some.inj hj)
    | (rw [hj'] at hj)
  · rw [hout]; exact h.drains j s' hj
  · rw [hout, h.absent _ habsent]; simp [Serial.pending, htr]
  · rw [hout]; exact h.absent j hj
  · simp at hj
  · exact h.size j s' hj
  · have := h.absent _ habsent
    simp only [Engine.outstanding] at this
    have hR : e.serials.size ∉ R.ids := fun hm' => by
      have := List.count_pos_iff.mpr hm'; omega
    simp [hsize, hempty, Running.taken_of_not_mem hR]
  · exact h.idle j s' hj
  · intro _ _ hp; simp [hsize] at hp
  · exact h.suspension j s' hj
  · exact fun _ => hsusp
  · exact hv _ (h.target j s' hj)
  · cases ht : s.target with
    | serial t => exact absurd ht (htarget t)
    | _ => trivial
  · exact h.young j s' hj
  · exact fun _ => htarget
  · exact h.inner j s' hj
  · simp [hempty]

/-- What a change `f` to serial queue `id`, found as `s`, must keep while the running drains go
from `R` to `R'` and the items being posted from `extra` to `extra'`: the drains in its task
list, among the items being posted and among the running ones change by as much as its trigger
flag, and the changed queue keeps the rules on size, suspension, target and nesting. -/
structure Change (W : List Nat) (n : Nat) (R : Running) (extra : List Item) (e : Engine) (id : Nat) (s : Serial)
    (f : Serial → Serial) (R' : Running) (extra' : List Item) : Prop where
  count : ∀ x, drainCount (f s).tasks.toList x + drainCount extra' x + R'.ids.count x +
      (if x = id then s.pending else 0) =
    drainCount s.tasks.toList x + drainCount extra x + R.ids.count x +
      (if x = id then (f s).pending else 0)
  taken : ∀ x, x ≠ id → R'.taken x = R.taken x
  sub : ∀ x ∈ R.ids, x ≠ id → x ∈ R'.ids
  running : ∀ x ∈ R'.ids, x < n
  size : (f s).size = (((f s).tasks.toList.length + R'.taken id : Nat) : Int)
  suspension : id ∉ W → 0 ≤ (f s).suspended
  target : e.validRef (f s).target
  young : n ≤ id → ∀ t, (f s).target ≠ .serial t
  inner : ∀ it ∈ (f s).tasks.toList, ∀ x, it.drainOf = some x → x < n

/-- One serial queue changes, and drains may start or stop running: a change that keeps the
rules of `Change`, and leaves the queue triggered if it has work, no suspension and no running
drain, keeps the ledger. -/
theorem modifyRunning (h : Ledger W n R extra e) {id : Nat} {s : Serial} {f : Serial → Serial}
    {R' : Running} {extra' : List Item} (hs : e.serials[id]? = some s)
    (hc : Change W n R extra e id s f R' extra')
    (hidle : id ∉ W → id ∉ R'.ids → 0 < (f s).size → (f s).suspended = 0 → (f s).triggered = true) :
    Ledger W n R' extra' (e.modifySerial id f) := by
  have hout : ∀ x, (e.modifySerial id f).outstanding R' extra' x + (if x = id then s.pending else 0) =
      e.outstanding R extra x + (if x = id then (f s).pending else 0) := by
    intro x
    have hq := drainCount_eq_of_perm (e.queued_modifySerial id f hs) x
    have hc := hc.count x
    simp only [drainCount_append] at hq
    simp only [Engine.outstanding]
    omega
  refine ⟨fun w wk hw => h.lanes w wk (by simpa using hw), fun j s' hj => ?_, fun j hj => ?_,
    fun j s' hj => ?_, fun j s' hj => ?_, fun j s' hj => ?_, fun j s' hj => ?_, fun j s' hj => ?_,
    fun j s' hj => ?_, hc.running, by simpa using h.grown⟩ <;>
    simp only [Engine.serials_modifySerial, Array.getElem?_modify] at hj <;>
    by_cases hij : id = j
  all_goals first
    | (subst hij; simp only [if_true, hs, Option.map_some, Option.some.injEq] at hj; subst hj)
    | simp only [hij, if_false] at hj
  · have := hout id; have := h.drains id s hs; simp only [if_true] at *; omega
  · have := hout j; have := h.drains j s' hj; simp only [Ne.symm hij, if_false] at *; omega
  · subst hij; simp [hs] at hj
  · have := hout j; have := h.absent j hj; simp only [Ne.symm hij, if_false] at *; omega
  · exact hc.size
  · rw [hc.taken j (Ne.symm hij)]; exact h.size j s' hj
  · exact hidle
  · exact fun hW hR => h.idle j s' hj hW fun hR' => hR (hc.sub j hR' (Ne.symm hij))
  · exact hc.suspension
  · exact h.suspension j s' hj
  · simpa using hc.target
  · simpa using h.target j s' hj
  · exact hc.young
  · exact h.young j s' hj
  · exact hc.inner
  · exact h.inner j s' hj

/-- One serial queue changes: the drains in its task list and among the items being posted
change by as much as its trigger flag, and the changed queue keeps the rules on size, idleness,
target and nesting. -/
theorem modifySerial (h : Ledger W n R extra e) {id : Nat} {s : Serial}
    (hs : e.serials[id]? = some s) (f : Serial → Serial) {extra' : List Item}
    (hcount : ∀ x, drainCount (f s).tasks.toList x + drainCount extra' x +
        (if x = id then s.pending else 0) =
      drainCount s.tasks.toList x + drainCount extra x + (if x = id then (f s).pending else 0))
    (hsize : (f s).size = (((f s).tasks.toList.length + R.taken id : Nat) : Int))
    (hidle : id ∉ W → id ∉ R.ids → 0 < (f s).size → (f s).suspended = 0 → (f s).triggered = true)
    (hsusp : id ∉ W → 0 ≤ (f s).suspended) (htarget : e.validRef (f s).target)
    (hyoung : n ≤ id → ∀ t, (f s).target ≠ .serial t)
    (hinner : ∀ it ∈ (f s).tasks.toList, ∀ x, it.drainOf = some x → x < n) :
    Ledger W n R extra' (e.modifySerial id f) :=
  h.modifyRunning hs ⟨fun x => by have := hcount x; omega, fun _ _ => rfl, fun _ hx _ => hx,
    h.running, hsize, hsusp, htarget, hyoung, hinner⟩ hidle

/-- Pointing a serial queue at a worker's own queue keeps the ledger. -/
theorem retarget (h : Ledger W n R extra e) {r : Serial → Serial} (hr : Retargets r) (id : Nat) :
    Ledger W n R extra (e.modifySerial id r) := by
  cases hs : e.serials[id]? with
  | none =>
    rw [e.modifySerial_of_none hs]
    exact h
  | some s =>
    obtain ⟨ht, hsz, htr, hsu, htg⟩ := hr s
    refine h.modifySerial hs r (fun x => by simp [ht, Serial.pending, htr])
      (by rw [hsz, ht]; exact h.size id s hs)
      (fun hW hR => by rw [hsz, hsu, htr]; exact h.idle id s hs hW hR) (hsu ▸ h.suspension id s hs) ?_ ?_
      (by rw [ht]; exact h.inner id s hs)
    · rcases htg with h1 | ⟨w, p, h1⟩ <;> rw [h1]
      · exact h.target id s hs
      · trivial
    · rcases htg with h1 | ⟨w, p, h1⟩ <;> rw [h1]
      · exact h.young id s hs
      · intro _ t; exact QueueRef.noConfusion

/-- Whether an item may be posted to a queue: a drain goes only to a queue that exists, and into
a serial queue only if it drains a queue older than the step. -/
def Deliverable (n : Nat) (e : Engine) (q : QueueRef) (it : Item) : Prop :=
  ∀ x, it.drainOf = some x → e.validRef q ∧ ∀ t, q = .serial t → x < n

/-- The drain of a serial queue may go to the queue's target. -/
theorem deliverable_drain (h : Ledger W n R extra e) {id : Nat} {s : Serial}
    (hs : e.serials[id]? = some s) : Deliverable n e s.target ⟨.drain id, none, none⟩ := by
  intro x hx
  simp only [Item.drainOf_mk, Option.some.injEq] at hx
  subst hx
  refine ⟨h.target id s hs, fun t ht => ?_⟩
  rcases Nat.lt_or_ge id n with hlt | hge
  · exact hlt
  · exact absurd ht (h.young id s hs hge t)

theorem pushGlobal (h : Ledger W n R (it :: extra) e) (p : Priority) :
    Ledger W n R extra (e.pushGlobal p it) :=
  h.of_queued (fun x => by simp [drainCount_eq_of_perm (e.queued_pushGlobal p it) x]; omega) rfl
    (fun w wk hw => h.lanes w wk (by simpa using hw))

theorem pushThread (h : Ledger W n R (it :: extra) e) (scope : Scope) (w : WorkerId) (p : Priority) :
    Ledger W n R extra (e.pushThread scope w p it) := by
  have hs : (e.pushThread scope w p it).serials = e.serials := by
    unfold Engine.pushThread; split
    · rfl
    · split <;> (cases w <;> rfl)
  exact h.of_queued (fun x => by
      simp [drainCount_eq_of_perm (e.queued_pushThread scope w p it h.lanes) x]; omega)
    hs (Engine.LanesWF.pushThread e h.lanes)

/-- An item joins the task list of a serial queue that needs no new drain. -/
theorem enqueue (h : Ledger W n R (it :: extra) e) {id : Nat} {s : Serial}
    (hs : e.serials[id]? = some s) (hd : Deliverable n e (.serial id) it) {it' : Item}
    (hit : it'.drainOf = it.drainOf) (hq : id ∉ R.ids → s.suspended = 0 → s.triggered = true) :
    Ledger W n R extra (e.modifySerial id fun s => { s with tasks := s.tasks.push it', size := s.size + 1 }) := by
  have hsz := h.size id s hs
  refine h.modifySerial hs _ (fun x => by simp [hit, Serial.pending]; omega) (by simp [hsz]; omega)
    (fun _ hR _ hsu => hq hR hsu) (h.suspension id s hs) (h.target id s hs) (h.young id s hs) ?_
  intro it'' hm x hx
  simp only [Linked.toList_push, List.mem_append, List.mem_singleton] at hm
  rcases hm with hm | rfl
  · exact h.inner id s hs it'' hm x hx
  · exact (hd x (hit ▸ hx)).2 id rfl

/-- An item joins the task list of an idle serial queue, which is triggered: its drain is then
being posted. -/
theorem enqueue_flag (h : Ledger W n R (it :: extra) e) {id : Nat} {s : Serial}
    (hs : e.serials[id]? = some s) (hd : Deliverable n e (.serial id) it) {it' : Item}
    (hit : it'.drainOf = it.drainOf) (ht : s.triggered = false) :
    Ledger W n R (⟨.drain id, none, none⟩ :: extra)
      ((e.modifySerial id fun s => { s with tasks := s.tasks.push it', size := s.size + 1 }).modifySerial
        id fun s => { s with triggered := true }) := by
  have hsz := h.size id s hs
  rw [Engine.modifySerial_modifySerial]
  refine h.modifySerial hs _ (fun x => ?_) (by simp [hsz]; omega) (fun _ _ _ _ => rfl)
    (h.suspension id s hs) (h.target id s hs) (h.young id s hs) ?_
  · by_cases hx : x = id
    · subst hx; simp [hit, Serial.pending, ht]; omega
    · simp [hit, hx, Ne.symm hx]; omega
  · intro it'' hm x hx
    simp only [Function.comp, Linked.toList_push, List.mem_append, List.mem_singleton] at hm
    rcases hm with hm | rfl
    · exact h.inner id s hs it'' hm x hx
    · exact (hd x (hit ▸ hx)).2 id rfl

end Ledger

end Courier.Dispatch
