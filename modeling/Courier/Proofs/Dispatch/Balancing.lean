import Courier.Dispatch.Balancer.Probe

/-!
# What a balancer's trackers record, when a context moves, and its periodic passes

A tracker is shown every request for its context's work, with the balancer's running flag and
the context's owner at that moment. A request counts when the balancer runs and it comes from a
context other than the tracked one. The tracker keeps the counted requests in one of two records:
while all came from one source, that source and a count; from the first request of a second
source on, a count per source, the first source's count carried over. Both stand for the same
thing, the sources counted along the history (`Tracker.Records`), and every request keeps that
link; a closed tracker ignores every request.

The tracked context follows its caller exactly while one source was counted: on a counted
request from the first source counted, none other counted before it, made on a dispatcher that
does not own the context.

A balancer with a scheduler asks for its first periodic pass when it starts, and each pass that
finds it running asks for the next. Stopping cancels no pass already asked for, so a Start after
a Stop, with a pass still waiting, begins a second chain of passes beside the first.

- `Tracker.Request`, `Tracker.countedAlong`, `Tracker.feed`: requests as a tracker sees them,
  the sources counted along a history, and a tracker shown a history;
- `Tracker.Records`, `Tracker.records_feed`: the link between a tracker and its history;
- `Tracker.callers_eq_counted`: the counts a tracker reports are its history's;
- `Tracker.Follows`, `Tracker.observe_follows_iff`: the requests on which the context moves;
- `BalancerProbe.request_migrates`: on those and on no others, the balancer moves the context to
  the caller, counts the move and reports it;
- `BalancerProbe.runPasses_running`, `BalancerProbe.pending_passes`: what running the waiting
  passes does, and at most one pass waiting while no Start restarts a chain.
-/

set_option autoImplicit false

namespace Courier.Dispatch

namespace Tracker

/-- A request for a tracked context's work, as its tracker sees it: whether the balancer was
running, the context's owner, and the dispatcher and context the request came from. -/
structure Request (κ δ : Type) where
  running : Bool
  owner : Option δ
  caller : Option δ
  callerCtx : Option κ

section Definitions

variable {κ δ : Type} [BEq κ] [BEq δ]

/-- The source a request counts for: the calling context, when the balancer runs and the request
comes from a context other than the tracked one, `s`. -/
def Request.counted (s : κ) (r : Request κ δ) : Option κ :=
  if r.running then r.callerCtx.filter (· != s) else none

/-- The sources counted along a history of requests for the work of `s`, in order. -/
def countedAlong (s : κ) (h : List (Request κ δ)) : List κ := h.filterMap (Request.counted s)

/-- Shows a tracker one request. -/
def observeRequest (t : Tracker κ) (r : Request κ δ) : Tracker κ × Option δ :=
  t.observe r.running r.owner r.caller r.callerCtx

/-- Shows a tracker a history of requests, one after another. -/
def feed (t : Tracker κ) (h : List (Request κ δ)) : Tracker κ :=
  h.foldl (fun t r => (t.observeRequest r).1) t

/-- The requests after history `h` on which the context of `s` follows its caller `w`: counted,
from the first source counted, with no other source counted before, and made on a dispatcher
other than the context's owner. -/
def Follows (s : κ) (h : List (Request κ δ)) (r : Request κ δ) (w : δ) : Prop :=
  ∃ c, r.counted s = some c ∧ (countedAlong s (h ++ [r])).head? = some c ∧
    (∀ c' ∈ countedAlong s h, c' = c) ∧ r.caller = some w ∧ r.owner ≠ some w

omit [BEq δ] in
@[simp] theorem countedAlong_nil (s : κ) : countedAlong s ([] : List (Request κ δ)) = [] := rfl

omit [BEq δ] in
@[simp] theorem countedAlong_cons (s : κ) (r : Request κ δ) (h : List (Request κ δ)) :
    countedAlong s (r :: h) = (r.counted s).toList ++ countedAlong s h := by
  cases hr : r.counted s <;> simp [countedAlong, hr]

omit [BEq δ] in
@[simp] theorem countedAlong_append (s : κ) (h h' : List (Request κ δ)) :
    countedAlong s (h ++ h') = countedAlong s h ++ countedAlong s h' := by
  simp [countedAlong, List.filterMap_append]

@[simp] theorem feed_nil (t : Tracker κ) : t.feed ([] : List (Request κ δ)) = t := rfl

@[simp] theorem feed_cons (t : Tracker κ) (r : Request κ δ) (h : List (Request κ δ)) :
    t.feed (r :: h) = (t.observeRequest r).1.feed h := rfl

theorem subject_observe (t : Tracker κ) (running : Bool) (owner caller : Option δ)
    (callerCtx : Option κ) : (t.observe running owner caller callerCtx).1.subject = t.subject := by
  unfold observe
  cases callerCtx <;> cases caller <;> simp only [] <;> (repeat' split) <;> rfl

omit [BEq δ] in
/-- The entry of a key in a list of entries, read as a condition on the first entry. -/
theorem lookup_cons_ite {β : Type} (k k' : κ) (n : β) (rest : List (κ × β)) :
    ((k', n) :: rest).lookup k = if k == k' then some n else rest.lookup k := by
  cases h : k == k' <;> simp [List.lookup_cons, h]

omit [BEq κ] in
/-- A closed tracker reports no counts. -/
@[simp] theorem callers_close (t : Tracker κ) : t.close.callers = [] := by
  unfold callers close
  split
  · rfl
  · rfl

end Definitions

variable {κ δ : Type} [BEq κ] [LawfulBEq κ] [BEq δ]

omit [BEq δ] in
theorem Request.counted_eq_some {s c : κ} {r : Request κ δ} :
    r.counted s = some c ↔ r.running = true ∧ r.callerCtx = some c ∧ c ≠ s := by
  unfold Request.counted
  cases r.running <;> cases r.callerCtx <;> simp [Option.filter]
  grind

omit [BEq δ] in
theorem Request.counted_eq_none {s : κ} {r : Request κ δ} :
    r.counted s = none ↔ r.running = false ∨ r.callerCtx = none ∨ r.callerCtx = some s := by
  unfold Request.counted
  cases r.running <;> cases r.callerCtx <;> simp [Option.filter]

/-! ## What one request does -/

/-- A closed tracker, or a request that does not count, leaves the tracker as it is and moves
nothing. -/
theorem observeRequest_of_uncounted {t : Tracker κ} {r : Request κ δ}
    (h : t.closed = true ∨ r.counted t.subject = none) : t.observeRequest r = (t, none) := by
  unfold observeRequest observe
  rcases h with h | h
  · simp [h]
  · rcases Request.counted_eq_none.mp h with h | h | h <;> simp [h]

/-- While one source is counted, a request from it (or the first request that counts) is
counted once more, and the context is to move to a caller that does not own it. -/
theorem observeRequest_follow {t : Tracker κ} {r : Request κ δ} {c : κ} (hopen : t.closed = false)
    (hc : r.counted t.subject = some c) (hs : t.singleSource = true) (hsrc : t.source.getD c = c) :
    t.observeRequest r = ({ t with source := some c, sourceCalls := t.sourceCalls + 1 },
      match r.caller with
      | some w => if r.owner == some w then none else some w
      | none => none) := by
  obtain ⟨hrun, hctx, hne⟩ := Request.counted_eq_some.mp hc
  unfold observeRequest observe
  simp only [hopen, hrun, hctx, Bool.not_true, Bool.or_false, Bool.false_eq_true, if_false,
    beq_iff_eq, hne, hs, if_true, hsrc]
  cases r.caller <;> rfl

/-- A request from a second source turns the record into counts per source, the first source's
count carried over, and moves nothing. -/
theorem observeRequest_split {t : Tracker κ} {r : Request κ δ} {c c₀ : κ} (hopen : t.closed = false)
    (hc : r.counted t.subject = some c) (hs : t.singleSource = true) (hsrc : t.source = some c₀)
    (hne : c₀ ≠ c) :
    t.observeRequest r =
      ({ t with singleSource := false, source := none, calls := bump c [(c₀, t.sourceCalls)] }, none) := by
  obtain ⟨hrun, hctx, hsub⟩ := Request.counted_eq_some.mp hc
  unfold observeRequest observe
  simp [hopen, hrun, hctx, hsub, hs, hsrc, hne]

/-- Once counting per source, a request adds one to its source's count and moves nothing. -/
theorem observeRequest_count {t : Tracker κ} {r : Request κ δ} {c : κ} (hopen : t.closed = false)
    (hc : r.counted t.subject = some c) (hs : t.singleSource = false) :
    t.observeRequest r = ({ t with calls := bump c t.calls }, none) := by
  obtain ⟨hrun, hctx, hsub⟩ := Request.counted_eq_some.mp hc
  unfold observeRequest observe
  simp [hopen, hrun, hctx, hsub, hs]

/-! ## Counts per source -/

theorem lookup_bump (c k : κ) : ∀ l : List (κ × Nat),
    (bump c l).lookup k = if k == c then some ((l.lookup c).getD 0 + 1) else l.lookup k
  | [] => by simp [bump, lookup_cons_ite]
  | (k', n) :: rest => by
    have ih := lookup_bump c k rest
    by_cases hk : k' = c
    · subst hk
      by_cases hkk : k = k' <;> simp [bump, lookup_cons_ite, hkk]
    · by_cases hkk : k = k'
      · subst hkk; simp [bump, hk]
      · by_cases hkc : k = c
        · subst hkc; simp [bump, lookup_cons_ite, hk, hkk, ih]
        · simp [bump, lookup_cons_ite, hk, hkk, hkc, ih]

theorem mem_keys_bump (c k : κ) : ∀ l : List (κ × Nat),
    k ∈ (bump c l).map Prod.fst ↔ k = c ∨ k ∈ l.map Prod.fst
  | [] => by simp [bump]
  | (k', n) :: rest => by
    have ih := mem_keys_bump c k rest
    by_cases hk : k' = c
    · subst hk; simp [bump]
    · simp only [bump, beq_iff_eq, hk, if_false, List.map_cons, List.mem_cons, ih]
      exact or_left_comm

theorem keys_bump (c : κ) : ∀ l : List (κ × Nat),
    (l.map Prod.fst).Nodup → ((bump c l).map Prod.fst).Nodup
  | [] => fun _ => by simp [bump]
  | (k', n) :: rest => fun h => by
    obtain ⟨hk', hrest⟩ := List.nodup_cons.mp h
    by_cases hk : k' = c
    · subst hk; simpa [bump] using h
    · simp only [bump, beq_iff_eq, hk, if_false, List.map_cons, List.nodup_cons, mem_keys_bump]
      exact ⟨by simpa using hk', keys_bump c rest hrest⟩

omit [LawfulBEq κ] in
/-- The entry a count map holds for a count: none for zero. -/
theorem getD_of_lookup {l : List (κ × Nat)} {k : κ} {n : Nat}
    (h : l.lookup k = if n = 0 then none else some n) : (l.lookup k).getD 0 = n := by
  rw [h]
  split <;> simp_all

/-! ## The link between a tracker and its history -/

/-- How a tracker stands for the sources `cs` counted along its history: open, for `s`, holding
for every source its count and nothing for a source not counted, and, while it follows one
source, that source exactly when one was counted, with the number of counted requests. Counting
per source means two sources were counted. -/
structure Records (t : Tracker κ) (s : κ) (cs : List κ) : Prop where
  subject : t.subject = s
  opened : t.closed = false
  lookup : ∀ k, t.callers.lookup k = if cs.count k = 0 then none else some (cs.count k)
  keys : (t.callers.map Prod.fst).Nodup
  single : t.singleSource = true → t.sourceCalls = cs.length ∧ ∀ c, t.source = some c ↔ c ∈ cs
  counting : t.singleSource = false → ∃ a ∈ cs, ∃ b ∈ cs, a ≠ b

namespace Records

variable {t : Tracker κ} {s : κ} {cs : List κ}

omit [LawfulBEq κ] in
theorem create (s : κ) : Records (Tracker.create s) s [] where
  subject := rfl
  opened := rfl
  lookup k := by simp [Tracker.create, callers]
  keys := by simp [Tracker.create, callers]
  single _ := ⟨rfl, fun c => by simp [Tracker.create]⟩
  counting h := by simp [Tracker.create] at h

omit [LawfulBEq κ] in
/-- While one source is followed, every counted source is that source. -/
theorem eq_of_follow (hR : Records t s cs) (hs : t.singleSource = true) {c : κ}
    (hsrc : t.source.getD c = c) : ∀ c' ∈ cs, c' = c := by
  intro c' hc'
  have := ((hR.single hs).2 c').mpr hc'
  simpa [this] using hsrc

theorem follow (hR : Records t s cs) (hs : t.singleSource = true) {c : κ}
    (hsrc : t.source.getD c = c) :
    Records { t with source := some c, sourceCalls := t.sourceCalls + 1 } s (cs ++ [c]) := by
  have hall := hR.eq_of_follow hs hsrc
  have hcount : ∀ k, (cs ++ [c]).count k = if k == c then cs.length + 1 else 0 := by
    intro k
    by_cases hk : k = c
    · subst hk
      simp [List.count_eq_length.mpr fun b hb => (hall b hb).symm]
    · have : k ∉ cs := fun hm => hk (hall k hm)
      simp [List.count_eq_zero_of_not_mem this, hk, Ne.symm hk]
  refine ⟨hR.subject, hR.opened, fun k => ?_, by simp [callers, hs], fun _ => ⟨?_, fun c' => ?_⟩,
    fun h => by simp [hs] at h⟩
  · by_cases hk : k = c
    · subst hk; simp [callers, hs, hcount, (hR.single hs).1]
    · simp [callers, hs, hcount, hk]
  · simp [(hR.single hs).1]
  · constructor
    · rintro ⟨⟩; simp
    · intro hm
      rcases List.mem_append.mp hm with hm | hm
      · simp [hall c' hm]
      · simp_all

theorem split (hR : Records t s cs) (hs : t.singleSource = true) {c c₀ : κ}
    (hsrc : t.source = some c₀) (hne : c₀ ≠ c) :
    Records { t with singleSource := false, source := none, calls := bump c [(c₀, t.sourceCalls)] } s
      (cs ++ [c]) := by
  have hmem : c₀ ∈ cs := ((hR.single hs).2 c₀).mp hsrc
  have hall : ∀ c' ∈ cs, c' = c₀ := fun c' hc' => by
    have := ((hR.single hs).2 c').mpr hc'
    rw [hsrc] at this
    exact (Option.some.inj this).symm
  have hlen : cs.count c₀ = t.sourceCalls := by
    rw [(hR.single hs).1]; exact List.count_eq_length.mpr fun b hb => (hall b hb).symm
  have hc : c ∉ cs := fun hm => hne (hall c hm).symm
  refine ⟨hR.subject, hR.opened, fun k => ?_, ?_, fun h => by simp at h,
    fun _ => ⟨c₀, by simp [hmem], c, by simp, hne⟩⟩
  · simp only [callers, Bool.false_eq_true, if_false, lookup_bump, lookup_cons_ite, List.count_append,
      List.count_singleton]
    by_cases hk : k = c
    · subst hk; simp [List.count_eq_zero_of_not_mem hc, Ne.symm hne]
    · by_cases hk₀ : k = c₀
      · subst hk₀
        have : 0 < cs.count k := List.count_pos_iff.mpr hmem
        simp [hk, Ne.symm hk, hlen]
        omega
      · have : k ∉ cs := fun hm => hk₀ (hall k hm)
        simp [hk, Ne.symm hk, hk₀, List.count_eq_zero_of_not_mem this]
  · exact keys_bump c _ (by simp)

theorem count (hR : Records t s cs) (hs : t.singleSource = false) (c : κ) :
    Records { t with calls := bump c t.calls } s (cs ++ [c]) := by
  have hcalls : t.callers = t.calls := by simp [callers, hs]
  refine ⟨hR.subject, hR.opened, fun k => ?_, ?_, fun h => by simp [hs] at h, fun _ => ?_⟩
  · have hk := hR.lookup k
    have hc := getD_of_lookup (hR.lookup c)
    simp only [callers, hs, Bool.false_eq_true, if_false, lookup_bump, List.count_append,
      List.count_singleton]
    rw [hcalls] at hk hc
    by_cases hkc : k = c
    · subst hkc; simp [hc]
    · simp [hkc, Ne.symm hkc, hk]
  · simpa [callers, hs] using keys_bump c _ (hcalls ▸ hR.keys)
  · obtain ⟨a, ha, b, hb, hab⟩ := hR.counting hs
    exact ⟨a, by simp [ha], b, by simp [hb], hab⟩

/-- Every request keeps the link: the tracker afterwards stands for the history with the request's
source added, if it counts. -/
theorem observe (hR : Records t s cs) (r : Request κ δ) :
    Records (t.observeRequest r).1 s (cs ++ (r.counted s).toList) := by
  cases hc : r.counted s with
  | none =>
    rw [observeRequest_of_uncounted (.inr (hR.subject ▸ hc))]
    simpa using hR
  | some c =>
    rw [← hR.subject] at hc
    cases hs : t.singleSource with
    | false => rw [observeRequest_count hR.opened hc hs]; exact hR.count hs c
    | true =>
      cases hsrc : t.source with
      | none =>
        rw [observeRequest_follow hR.opened hc hs (by simp [hsrc])]
        exact hR.follow hs (by simp [hsrc])
      | some c₀ =>
        by_cases hne : c₀ = c
        · subst hne
          rw [observeRequest_follow hR.opened hc hs (by simp [hsrc])]
          exact hR.follow hs (by simp [hsrc])
        · rw [observeRequest_split hR.opened hc hs hsrc hne]
          exact hR.split hs hsrc hne

end Records

theorem records_feed_of {t : Tracker κ} {s : κ} {cs : List κ} (hR : Records t s cs) :
    ∀ h : List (Request κ δ), Records (t.feed h) s (cs ++ countedAlong s h)
  | [] => by simpa using hR
  | r :: h => by simpa using records_feed_of (hR.observe r) h

/-- A tracker stands for the sources counted along its history. -/
theorem records_feed (s : κ) (h : List (Request κ δ)) :
    Records ((Tracker.create s).feed h) s (countedAlong s h) := by
  simpa using records_feed_of (Records.create s) h

section Moves

variable [LawfulBEq δ]

omit [BEq κ] [LawfulBEq κ] in
/-- A followed request sends the context to its caller, when there is one that does not own it. -/
theorem follow_target_eq_some (caller owner : Option δ) (w : δ) :
    (match caller with
      | some w' => if owner == some w' then none else some w'
      | none => none) = some w ↔ caller = some w ∧ owner ≠ some w := by
  cases caller with
  | none => simp
  | some w' => by_cases h : owner = some w' <;> grind

/-- The requests on which the context moves, read off the tracker's link to its history: those
that count, from a source that every source counted so far agrees with, made on a dispatcher
that does not own the context. -/
theorem Records.target_iff {t : Tracker κ} {s : κ} {cs : List κ} (hR : Records t s cs)
    (r : Request κ δ) (w : δ) :
    (t.observeRequest r).2 = some w ↔
      ∃ c, r.counted s = some c ∧ (∀ c' ∈ cs, c' = c) ∧ r.caller = some w ∧ r.owner ≠ some w := by
  cases hc : r.counted s with
  | none =>
    rw [observeRequest_of_uncounted (.inr (hR.subject ▸ hc))]
    simp
  | some c =>
    simp only [Option.some.injEq, exists_eq_left']
    rw [← hR.subject] at hc
    cases hs : t.singleSource with
    | false =>
      -- counting per source: two sources disagree, and nothing moves
      rw [observeRequest_count hR.opened hc hs]
      obtain ⟨a, ha, b, hb, hab⟩ := hR.counting hs
      simp only [reduceCtorEq, false_iff, not_and]
      exact fun hall => absurd ((hall a ha).trans (hall b hb).symm) hab
    | true =>
      by_cases hsrc : t.source.getD c = c
      · rw [observeRequest_follow hR.opened hc hs hsrc, follow_target_eq_some]
        exact ⟨fun h => ⟨hR.eq_of_follow hs hsrc, h⟩, fun h => h.2⟩
      · -- a second source: the record splits, and nothing moves
        obtain ⟨c₀, hsrc₀⟩ : ∃ c₀, t.source = some c₀ := by
          cases h : t.source with
          | none => simp [h] at hsrc
          | some c₀ => exact ⟨c₀, rfl⟩
        have hne : c₀ ≠ c := fun e => hsrc (by simp [hsrc₀, e])
        have hmem : c₀ ∈ cs := ((hR.single hs).2 c₀).mp hsrc₀
        rw [observeRequest_split hR.opened hc hs hsrc₀ hne]
        simp only [reduceCtorEq, false_iff, not_and]
        exact fun hall => absurd (hall c₀ hmem) hne

omit [BEq κ] [LawfulBEq κ] in
/-- When every source counted agrees with `c`, the first source counted is `c`. -/
theorem head_of_agree {cs : List κ} {c : κ} (h : ∀ c' ∈ cs, c' = c) : (cs ++ [c]).head? = some c := by
  cases cs with
  | nil => rfl
  | cons a _ => simp [h a (by simp)]

omit [LawfulBEq κ] [BEq δ] [LawfulBEq δ] in
theorem follows_iff (s : κ) (h : List (Request κ δ)) (r : Request κ δ) (w : δ) :
    Follows s h r w ↔ ∃ c, r.counted s = some c ∧ (∀ c' ∈ countedAlong s h, c' = c) ∧
      r.caller = some w ∧ r.owner ≠ some w := by
  constructor
  · rintro ⟨c, hc, -, hall, hw, ho⟩
    exact ⟨c, hc, hall, hw, ho⟩
  · rintro ⟨c, hc, hall, hw, ho⟩
    exact ⟨c, hc, by simpa [hc] using head_of_agree hall, hall, hw, ho⟩

/-- A tracked context moves on exactly the requests that `Follows` names, to the caller. -/
theorem observe_follows_iff (s : κ) (h : List (Request κ δ)) (r : Request κ δ) (w : δ) :
    (((Tracker.create s).feed h).observeRequest r).2 = some w ↔ Follows s h r w := by
  rw [(records_feed s h).target_iff r w, follows_iff]

end Moves

end Tracker

/-- The steps that may ask for passes or run them. -/
def BalancerStep.schedules : BalancerStep → Bool
  | .start | .tick => true
  | _ => false

namespace BalancerProbe

/-! ## Sessions -/

/-- A step of a session: the probe afterwards, unchanged by a step that is refused. -/
def apply (p : BalancerProbe) (s : BalancerStep) : BalancerProbe :=
  match p.step s with
  | .ok (_, p') => p'
  | .error _ => p

/-- A session: steps one after another. -/
def runSteps (p : BalancerProbe) (ss : List BalancerStep) : BalancerProbe := ss.foldl apply p

@[simp] theorem runSteps_nil (p : BalancerProbe) : p.runSteps [] = p := rfl

@[simp] theorem runSteps_cons (p : BalancerProbe) (s : BalancerStep) (ss : List BalancerStep) :
    p.runSteps (s :: ss) = (p.apply s).runSteps ss := rfl

/-! ## Requests -/

theorem ownerOf_moves (p : BalancerProbe) (m : Array Move) : { p with moves := m }.ownerOf = p.ownerOf :=
  rfl

/-- What a request step does: it reads the tracker and the tracked context's owner, shows the
tracker the request with the balancer's running flag, and, when the tracker says so, moves the
context, counts the move and reports it. -/
theorem step_request {p p' : BalancerProbe} {reply : BalancerReply} {id : String}
    {caller callerCtx : Option String} (h : p.step (.request id caller callerCtx) = .ok (reply, p')) :
    ∃ t owner, p.trackers.lookup id = some t ∧ p.ownerOf t.subject = .ok owner ∧
      match (t.observe p.balancer.running owner caller callerCtx).2 with
      | some w => p' = { p with
          owners := setEntry t.subject (some w) p.owners
          trackers := setEntry id (t.observe p.balancer.running owner caller callerCtx).1 p.trackers
          balancer := p.balancer.noteMigration
          moves := #[(t.subject, owner, w)] }
      | none => p' = { p with
          trackers := setEntry id (t.observe p.balancer.running owner caller callerCtx).1 p.trackers
          moves := #[] } := by
  unfold step at h
  simp only [bind, Except.bind, ownerOf_moves] at h
  cases ht : p.trackers.lookup id with
  | none => simp [ht] at h
  | some t =>
    simp only [ht] at h
    -- a named calling context must be known; past that, only the tracked context's owner is read
    cases callerCtx
    all_goals
      try
        rename_i c
        cases hc : p.ownerOf c
        · simp [hc] at h
        simp only [hc] at h
    all_goals
      try simp only [] at h
      cases ho : p.ownerOf t.subject with
      | error e => simp [ho] at h
      | ok owner =>
        refine ⟨t, owner, rfl, ho, ?_⟩
        simp only [ho] at h
        -- the tracker's answer decides whether the context moves
        split <;> rename_i hw <;>
          simp only [hw, pure, Except.pure, Except.ok.injEq, Prod.mk.injEq] at h <;>
          obtain ⟨-, rfl⟩ := h <;> simp [Tracker.subject_observe]

theorem lookup_setEntry_self {β : Type} (k : String) (v : β) (xs : List (String × β)) :
    (setEntry k v xs).lookup k = some v := by
  unfold setEntry
  split
  · rename_i hany
    induction xs with
    | nil => simp at hany
    | cons e rest ih =>
      obtain ⟨k', b⟩ := e
      by_cases he : k' = k
      · subst he; simp
      · have hrest : (rest.any fun x => x.fst == k) = true := by simpa [he] using hany
        have ih' := ih hrest
        simp only [beq_iff_eq] at ih'
        simp [he, Tracker.lookup_cons_ite, Ne.symm he, ih']
  · rename_i hany
    simp only [Bool.not_eq_true, List.any_eq_false, beq_iff_eq] at hany
    have hnone : xs.lookup k = none :=
      List.lookup_eq_none_iff.mpr fun e he => bne_iff_ne.mpr (Ne.symm (hany e he))
    simp [List.lookup_append, hnone]

/-- A balancer moves a tracked context on exactly the requests its tracker's history makes it
follow. For a tracker of `s` shown history `h` while open, a request step that is taken moves
`s` to the caller, counts one move more and reports the move from the owner it had, when `s`
follows the caller on that request; on any other request the owner, the count of moves and the
reports are left alone, and once two sources were counted no request moves `s`. -/
theorem request_migrates {p p' : BalancerProbe} {reply : BalancerReply} {id s : String}
    {h : List (Tracker.Request String String)} {caller callerCtx owner : Option String}
    (ht : p.trackers.lookup id = some ((Tracker.create s).feed h)) (ho : p.ownerOf s = .ok owner)
    (hstep : p.step (.request id caller callerCtx) = .ok (reply, p')) :
    (∀ w, Tracker.Follows s h ⟨p.balancer.running, owner, caller, callerCtx⟩ w →
      p'.ownerOf s = .ok (some w) ∧ p'.balancer.migrations = p.balancer.migrations + 1 ∧
        p'.moves.toList = [(s, owner, w)]) ∧
    ((∀ w, ¬ Tracker.Follows s h ⟨p.balancer.running, owner, caller, callerCtx⟩ w) →
      p'.ownerOf s = .ok owner ∧ p'.balancer.migrations = p.balancer.migrations ∧
        p'.moves.toList = []) ∧
    ((∃ a ∈ Tracker.countedAlong s h, ∃ b ∈ Tracker.countedAlong s h, a ≠ b) →
      p'.ownerOf s = .ok owner ∧ p'.balancer.migrations = p.balancer.migrations ∧
        p'.moves.toList = []) := by
  obtain ⟨t, owner', ht', ho', hp'⟩ := step_request hstep
  rw [ht] at ht'
  obtain rfl := Option.some.inj ht'
  rw [(Tracker.records_feed s h).subject] at ho' hp'
  rw [ho] at ho'
  obtain rfl := Except.ok.inj ho'
  have hiff := Tracker.observe_follows_iff s h ⟨p.balancer.running, owner, caller, callerCtx⟩
  have hstay : (∀ w, ¬ Tracker.Follows s h ⟨p.balancer.running, owner, caller, callerCtx⟩ w) →
      p'.ownerOf s = .ok owner ∧ p'.balancer.migrations = p.balancer.migrations ∧
        p'.moves.toList = [] := by
    intro hn
    cases hw : (((Tracker.create s).feed h).observe p.balancer.running owner caller callerCtx).2 with
    | some w => exact absurd ((hiff w).mp hw) (hn w)
    | none =>
      rw [hw] at hp'
      subst hp'
      exact ⟨ho, rfl, rfl⟩
  refine ⟨fun w hf => ?_, hstay, fun ⟨a, ha, b, hb, hab⟩ => hstay fun w hf => ?_⟩
  · have hw := (hiff w).mpr hf
    simp only [Tracker.observeRequest] at hw
    rw [hw] at hp'
    subst hp'
    exact ⟨by simp [ownerOf, lookup_setEntry_self], rfl, rfl⟩
  · -- a request that moves the context finds every counted source in agreement
    obtain ⟨c, -, -, hall, -⟩ := hf
    exact hab ((hall a ha).trans (hall b hb).symm)

/-- A context owned by `d1` whose tracker has seen nothing moves to `d2` on a request from a
context on `d2`. -/
theorem request_from_single_caller_migrates :
    (((initial (.active 0 false) false).runSteps [.start, .context "B" (some "d1"),
        .context "A" none, .track "B" "b"]).apply (.request "b" (some "d2") (some "A"))).ownerOf "B" =
      .ok (some "d2") ∧
    (((initial (.active 0 false) false).runSteps [.start, .context "B" (some "d1"),
        .context "A" none, .track "B" "b"]).apply (.request "b" (some "d2") (some "A"))).moves.toList =
      [("B", some "d1", "d2")] := by
  let p := (initial (.active 0 false) false).runSteps [.start, .context "B" (some "d1"),
    .context "A" none, .track "B" "b"]
  have ht : p.trackers.lookup "b" =
      some ((Tracker.create "B").feed ([] : List (Tracker.Request String String))) := rfl
  have ho : p.ownerOf "B" = .ok (some "d1") := rfl
  have hstep : p.step (.request "b" (some "d2") (some "A")) =
      .ok (.none, p.apply (.request "b" (some "d2") (some "A"))) := rfl
  have hf : Tracker.Follows "B" ([] : List (Tracker.Request String String))
      ⟨p.balancer.running, some "d1", some "d2", some "A"⟩ "d2" :=
    ⟨"A", by decide, by decide, by simp, rfl, by decide⟩
  obtain ⟨ho', -, hmoves⟩ := (request_migrates ht ho hstep).1 "d2" hf
  exact ⟨ho', hmoves⟩

/-! ## Periodic passes -/

theorem apply_start (p : BalancerProbe) :
    p.apply .start = if p.balancer.start.2 then { p with moves := #[], balancer := p.balancer.start.1 }.arm
      else { p with moves := #[], balancer := p.balancer.start.1 } := rfl

theorem apply_tick (p : BalancerProbe) :
    p.apply .tick = runPasses { p with moves := #[] } p.queued := rfl

/-- The oldest waiting pass runs on a balancer that runs: it counts, and asks for the next pass
after the configured interval. -/
theorem runNext_running {p : BalancerProbe} (hr : p.balancer.running = true) (hq : 0 < p.queued) :
    p.runNext = some { p with balancer := p.balancer.pass.1, queued := p.queued - 1 }.arm := by
  simp [runNext, Balancer.pass, hr, Nat.pos_iff_ne_zero.mp hq]

/-- The oldest waiting pass runs on a stopped balancer: it does nothing and asks for nothing. -/
theorem runNext_stopped {p : BalancerProbe} (hr : p.balancer.running = false) (hq : 0 < p.queued) :
    p.runNext = some { p with queued := p.queued - 1 } := by
  simp [runNext, Balancer.pass, hr, Nat.pos_iff_ne_zero.mp hq]

/-- Passes that find the balancer running each count once and ask for the next pass, after the
configured interval; as many wait afterwards as before. -/
theorem runPasses_running {p : BalancerProbe} (hr : p.balancer.running = true)
    (hq : p.refuses = false) : ∀ n, n ≤ p.queued →
    (p.runPasses n).balancer.passes = p.balancer.passes + n ∧ (p.runPasses n).queued = p.queued ∧
      (p.runPasses n).delays.toList = p.delays.toList ++ List.replicate n p.balancer.interval := by
  intro n hn
  induction n generalizing p with
  | zero => simp [runPasses]
  | succ n ih =>
    -- the first pass counts and asks for the next; the others run on the probe it leaves
    let p' := { p with balancer := p.balancer.pass.1, queued := p.queued - 1 }.arm
    have hfirst : p.runPasses (n + 1) = p'.runPasses n := by
      simp only [runPasses, runNext_running hr (by omega), p']
    have hpass : p'.balancer.passes = p.balancer.passes + 1 := by simp [p', arm, Balancer.pass, hr]
    have hrun : p'.balancer.running = true := by simp [p', arm, Balancer.pass, hr]
    have hint : p'.balancer.interval = p.balancer.interval := by simp [p', arm, Balancer.pass, hr]
    have hdel : p'.delays.toList = p.delays.toList ++ [p.balancer.interval] := by
      simp [p', arm, Balancer.pass, hr]
    have hq' : p'.queued = p.queued := by simp [p', arm, hq]; omega
    obtain ⟨h₁, h₂, h₃⟩ := ih (p := p') hrun hq (by omega)
    rw [hfirst]
    refine ⟨by omega, by omega, ?_⟩
    rw [h₃, hdel, hint]
    simp [List.replicate_succ]

/-- Passes that find the balancer stopped do nothing but leave the queue. -/
theorem runPasses_stopped {p : BalancerProbe} (hr : p.balancer.running = false) :
    ∀ n, n ≤ p.queued → p.runPasses n = { p with queued := p.queued - n }
  | 0, _ => rfl
  | n + 1, hn => by
    have hrest := runPasses_stopped (p := { p with queued := p.queued - 1 }) hr n (by simp; omega)
    simp only [runPasses, runNext_stopped hr (by omega), hrest]
    congr 1
    omega

/-- A change that leaves the scheduler and the configuration alone: the passes waiting, the
delays asked for, whether the scheduler refuses, and whether the balancer is enabled, its
interval and whether it has a scheduler. -/
structure Quiet (p q : BalancerProbe) : Prop where
  queued : q.queued = p.queued
  delays : q.delays = p.delays
  refuses : q.refuses = p.refuses
  enabled : q.balancer.enabled = p.balancer.enabled
  interval : q.balancer.interval = p.balancer.interval
  schedulable : q.balancer.schedulable = p.balancer.schedulable

/-- Every step but a Start and a run of the scheduler is quiet. -/
theorem quiet_apply {p : BalancerProbe} {s : BalancerStep} (hs : s.schedules = false) :
    Quiet p (p.apply s) := by
  unfold apply
  split
  · rename_i r p' hstep
    cases s
    case request id caller callerCtx =>
      obtain ⟨t, owner, -, -, hp'⟩ := step_request hstep
      split at hp' <;> (subst hp'; exact ⟨rfl, rfl, rfl, rfl, rfl, rfl⟩)
    all_goals simp [BalancerStep.schedules] at hs
    all_goals
      simp [step, needsActive, ownerOf, pure, Except.pure, bind, Except.bind] at hstep
    -- the probe each other step gives differs from `p` in the balancer's running flag and
    -- members, the owners or the trackers only
    all_goals
      (repeat' split at hstep) <;>
        try simp only [Except.ok.injEq, Prod.mk.injEq, reduceCtorEq] at hstep
    all_goals
      obtain ⟨-, rfl⟩ := hstep
      refine ⟨rfl, rfl, rfl, ?_, ?_, ?_⟩ <;>
        simp [Balancer.stop, Balancer.memberStarted, Balancer.memberStopped, apply_ite]
  · exact ⟨rfl, rfl, rfl, rfl, rfl, rfl⟩

/-- A pass leaves the configuration alone. -/
theorem pass_fst (b : Balancer String) :
    b.pass.1.enabled = b.enabled ∧ b.pass.1.interval = b.interval ∧
      b.pass.1.schedulable = b.schedulable := by
  unfold Balancer.pass
  split <;> exact ⟨rfl, rfl, rfl⟩

theorem queued_arm_le (p : BalancerProbe) : p.arm.queued ≤ p.queued + 1 := by
  simp only [arm]
  split <;> omega

/-- A pass asks for at most one successor, so running it leaves at most as many waiting. -/
theorem queued_runNext_le {p q : BalancerProbe} (h : p.runNext = some q) : q.queued ≤ p.queued := by
  unfold runNext at h
  split at h
  · cases h
  · obtain rfl := Option.some.inj h
    split
    · exact Nat.le_trans (queued_arm_le _) (by simp; omega)
    · simp

/-- Running passes leaves at most as many waiting as it found. -/
theorem queued_runPasses_le (p : BalancerProbe) : ∀ n, (p.runPasses n).queued ≤ p.queued
  | 0 => Nat.le_refl _
  | n + 1 => by
    unfold runPasses
    cases h : p.runNext with
    | none => exact Nat.le_refl _
    | some q => exact Nat.le_trans (queued_runPasses_le q n) (queued_runNext_le h)

/-- The configuration the periodic passes need: an enabled balancer with the given interval and
a scheduler that accepts every pass. -/
structure Configured (interval : Int) (p : BalancerProbe) : Prop where
  enabled : p.balancer.enabled = true
  interval : p.balancer.interval = interval
  schedulable : p.balancer.schedulable = true
  accepts : p.refuses = false

namespace Configured

variable {interval : Int} {p : BalancerProbe}

theorem quiet {q : BalancerProbe} (h : Configured interval p) (hq : Quiet p q) :
    Configured interval q :=
  ⟨hq.enabled ▸ h.enabled, hq.interval ▸ h.interval, hq.schedulable ▸ h.schedulable,
    hq.refuses ▸ h.accepts⟩

/-- A pass keeps the configuration, and so does asking for the next. -/
theorem runNext {q : BalancerProbe} (h : Configured interval p) (hq : p.runNext = some q) :
    Configured interval q := by
  unfold BalancerProbe.runNext at hq
  split at hq
  · cases hq
  · obtain rfl := Option.some.inj hq
    obtain ⟨he, hi, hs⟩ := pass_fst p.balancer
    split <;> exact ⟨he.trans h.enabled, hi.trans h.interval, hs.trans h.schedulable, h.accepts⟩

theorem runPasses (h : Configured interval p) (n : Nat) : Configured interval (p.runPasses n) := by
  induction n generalizing p with
  | zero => exact h
  | succ n ih =>
    unfold BalancerProbe.runPasses
    cases hq : p.runNext with
    | none => exact h
    | some q => exact ih (h.runNext hq)

/-- No step changes the configuration. -/
theorem apply (h : Configured interval p) (s : BalancerStep) : Configured interval (p.apply s) := by
  cases hs : s.schedules
  · exact h.quiet (quiet_apply hs)
  · cases s
    case start =>
      rw [apply_start]
      -- starting sets the running flag alone
      have hstart : Configured interval { p with moves := #[], balancer := p.balancer.start.1 } := by
        unfold Balancer.start
        split <;> exact ⟨h.enabled, h.interval, h.schedulable, h.accepts⟩
      split
      · exact ⟨hstart.enabled, hstart.interval, hstart.schedulable, hstart.accepts⟩
      · exact hstart
    case tick =>
      rw [apply_tick]
      exact Configured.runPasses (p := { p with moves := #[] })
        ⟨h.enabled, h.interval, h.schedulable, h.accepts⟩ _
    all_goals simp [BalancerStep.schedules] at hs

theorem runSteps (h : Configured interval p) (ss : List BalancerStep) :
    Configured interval (p.runSteps ss) := by
  induction ss generalizing p with
  | nil => exact h
  | cons s ss ih => exact ih (h.apply s)

end Configured

/-- A run of the scheduler leaves at most as many passes waiting as it found. -/
theorem queued_apply_tick_le (p : BalancerProbe) : (p.apply .tick).queued ≤ p.queued := by
  rw [apply_tick]
  exact queued_runPasses_le { p with moves := #[] } p.queued

/-- A Start asks for at most one pass, and none while the balancer runs. -/
theorem queued_apply_start_le (p : BalancerProbe) :
    (p.apply .start).queued ≤ p.queued + (if p.balancer.running then 0 else 1) := by
  rw [apply_start]
  cases hr : p.balancer.running
  · split
    · exact queued_arm_le _
    · exact Nat.le_succ _
  · have : p.balancer.start.2 = false := by simp [Balancer.start, hr]
    simp [this]

/-- Whether a step is a Start that finds the balancer stopped while a pass still waits. If it
starts the balancer, that pass finds it running and asks for a successor, beside the pass this
Start asks for. -/
def restartsEarly (p : BalancerProbe) : BalancerStep → Bool
  | .start => !p.balancer.running && decide (0 < p.queued)
  | _ => false

/-- How many Starts of a session find a pass still waiting after a Stop. -/
def restarts (p : BalancerProbe) : List BalancerStep → Nat
  | [] => 0
  | s :: ss => (if p.restartsEarly s then 1 else 0) + (p.apply s).restarts ss

/-- One step adds a waiting pass beyond the first only by a Start that finds one waiting. -/
theorem queued_apply_le (p : BalancerProbe) (s : BalancerStep) :
    max (p.apply s).queued 1 ≤ max p.queued 1 + (if p.restartsEarly s then 1 else 0) := by
  cases hs : s.schedules
  · rw [(quiet_apply hs).queued]
    omega
  · cases s
    case start =>
      have := queued_apply_start_le p
      simp only [restartsEarly]
      by_cases hr : p.balancer.running = true
      · simp [hr] at this ⊢
        omega
      · -- a Start on a stopped balancer with no pass waiting leaves at most one
        simp [hr] at this ⊢
        split <;> omega
    case tick =>
      have := queued_apply_tick_le p
      simp only [restartsEarly]
      omega
    all_goals simp [BalancerStep.schedules] at hs

/-- Along a session, the passes waiting stay at one, or as many as they were, beyond one more
for each Start that finds a pass waiting after a Stop. -/
theorem queued_runSteps_le (p : BalancerProbe) (ss : List BalancerStep) :
    max (p.runSteps ss).queued 1 ≤ max p.queued 1 + p.restarts ss := by
  induction ss generalizing p with
  | nil => simp [restarts]
  | cons s ss ih =>
    have hstep := queued_apply_le p s
    have hrest := ih (p.apply s)
    simp only [runSteps_cons, restarts]
    omega

/-- A Start that finds a configured balancer stopped asks for one pass, after the interval. -/
theorem apply_start_stopped {interval : Int} {p : BalancerProbe} (hc : Configured interval p)
    (hi : 0 < interval) (hr : p.balancer.running = false) :
    (p.apply .start).queued = p.queued + 1 ∧
      (p.apply .start).delays.toList = p.delays.toList ++ [interval] := by
  have hstart : p.balancer.start = ({ p.balancer with running := true }, true) := by
    simp [Balancer.start, hc.enabled, hr, hc.interval, hi, hc.schedulable]
  simp [apply_start, hstart, arm, hc.accepts, hc.interval]

/-- A run of the scheduler while the balancer runs: each waiting pass counts once and asks for
its successor after the interval. -/
theorem apply_tick_running {p : BalancerProbe} (hr : p.balancer.running = true)
    (hq : p.refuses = false) :
    (p.apply .tick).balancer.passes = p.balancer.passes + p.queued ∧
      (p.apply .tick).queued = p.queued ∧
      (p.apply .tick).delays.toList = p.delays.toList ++ List.replicate p.queued p.balancer.interval := by
  rw [apply_tick]
  exact runPasses_running (p := { p with moves := #[] }) hr hq p.queued (Nat.le_refl _)

/-- A run of the scheduler while the balancer is stopped drops the waiting passes and counts
nothing. -/
theorem apply_tick_stopped {p : BalancerProbe} (hr : p.balancer.running = false) :
    (p.apply .tick).balancer = p.balancer ∧ (p.apply .tick).queued = 0 ∧
      (p.apply .tick).delays = p.delays := by
  rw [apply_tick, runPasses_stopped (p := { p with moves := #[] }) hr p.queued (Nat.le_refl _)]
  exact ⟨rfl, Nat.sub_self _, rfl⟩

/-- The periodic passes of a balancer with a positive interval and a scheduler that accepts
them, after any session. At most one pass waits, beyond one more for each Start that found a
pass waiting after a Stop: a Start on the stopped balancer asks for a pass, and a Stop cancels
none. A run of the scheduler while the balancer runs counts each waiting pass once and asks for
a successor of each after the interval; while it is stopped it counts nothing and asks for
nothing. -/
theorem pending_passes (interval : Int) (hi : 0 < interval) (ss : List BalancerStep) :
    let p := (initial (.active interval true) false).runSteps ss
    p.queued ≤ 1 + (initial (.active interval true) false).restarts ss ∧
    (p.balancer.running = false → (p.apply .start).queued = p.queued + 1) ∧
    (p.apply .stop).queued = p.queued ∧
    (p.balancer.running = true →
      (p.apply .tick).balancer.passes = p.balancer.passes + p.queued ∧
      (p.apply .tick).queued = p.queued ∧
      (p.apply .tick).delays.toList = p.delays.toList ++ List.replicate p.queued interval) ∧
    (p.balancer.running = false →
      (p.apply .tick).balancer.passes = p.balancer.passes ∧ (p.apply .tick).queued = 0 ∧
      (p.apply .tick).delays = p.delays) := by
  intro p
  have hc : Configured interval p :=
    Configured.runSteps (p := initial (.active interval true) false) ⟨rfl, rfl, rfl, rfl⟩ ss
  -- no pass waits at the start of the session
  have hbound : max p.queued 1 ≤ max 0 1 + (initial (.active interval true) false).restarts ss :=
    queued_runSteps_le (initial (.active interval true) false) ss
  refine ⟨?_, fun hr => (apply_start_stopped hc hi hr).1, (quiet_apply rfl).queued,
    fun hr => ?_, fun hr => ?_⟩
  · omega
  · rw [← hc.interval]
    exact apply_tick_running hr hc.accepts
  · obtain ⟨hb, hq, hd⟩ := apply_tick_stopped hr
    exact ⟨by rw [hb], hq, hd⟩

/-- After a Start and a Stop one pass still waits, and a second Start asks for another. -/
theorem second_start_after_stop :
    ((initial (.active 1000 true) false).runSteps [.start, .stop]).queued ≤ 1 ∧
      (((initial (.active 1000 true) false).runSteps [.start, .stop]).apply .start).queued = 2 := by
  have h := pending_passes 1000 (by decide) [.start, .stop]
  exact ⟨Nat.le_trans h.1 (by decide), (h.2.1 (by decide)).trans rfl⟩

/-- Start, Stop and Start again before the scheduler runs leave two passes waiting, and the run
of the scheduler then counts two passes and asks for two successors. -/
theorem restart_before_pass_leaves_two_pending :
    ((initial (.active 1000 true) false).runSteps [.start, .stop, .start]).queued = 2 ∧
      ((initial (.active 1000 true) false).runSteps [.start, .stop, .start, .tick]).queued = 2 ∧
      ((initial (.active 1000 true) false).runSteps
        [.start, .stop, .start, .tick]).balancer.passes = 2 := by
  decide

end BalancerProbe

end Courier.Dispatch
