import Courier.Proofs.Queue.Fifo

/-!
# The chunked list is a first-in first-out list along every run

A run is a sequence of calls, each a push of a value or a pop; a pop answers the value it took,
or nothing. The specification is a plain list, pushed at its end and popped at its head.

- `runCalls`, `listStep`: runs of calls on any state, and the specification's step;
  `runCalls_listStep`: along a run of the specification the values taken, followed by the values
  left, are the values first held followed by the values pushed;
- `runCalls_refines`: a state that answers each call as the specification does, through a view
  and an invariant that each call keeps, answers every run as the specification does;
- `Chunked.Rep`: the representation invariant of the chunked list, the shape `Chunked.WF` and a
  list with nothing in it holding no chunk or one rewound chunk; `Rep.push` and `Rep.pop` keep it;
- `Chunked.chunked_refines_fifo`: from the empty list, every run answers as the specification,
  holds the specification's values, counts them, and keeps the representation invariant.
-/

set_option autoImplicit false

namespace Courier.Queue

variable {α : Type}

/-- A call on a first-in first-out list. -/
inductive Call (α : Type) where
  | push (v : α)
  | pop

/-- The calls made one after another from a state, with the answer of each. -/
def runCalls {σ : Type} (step : σ → Call α → Option α × σ) : σ → List (Call α) → List (Option α) × σ
  | s, [] => ([], s)
  | s, c :: cs =>
    let r := step s c
    let r' := runCalls step r.2 cs
    (r.1 :: r'.1, r'.2)

/-- The specification: a push appends and answers nothing, a pop takes the head. -/
def listStep : List α → Call α → Option α × List α
  | l, .push v => (none, l ++ [v])
  | l, .pop => (l.head?, l.tail)

/-- The values a run of calls pushes, in order. -/
def pushed : List (Call α) → List α
  | [] => []
  | .push v :: cs => v :: pushed cs
  | .pop :: cs => pushed cs

/-- Along a run of the specification, what the pops took followed by what is left is what was
held followed by what was pushed. -/
theorem runCalls_listStep : ∀ (cs : List (Call α)) (l : List α),
    (runCalls listStep l cs).1.filterMap id ++ (runCalls listStep l cs).2 = l ++ pushed cs
  | [], l => by simp [runCalls, pushed]
  | .push v :: cs, l => by
    -- a push answers nothing and appends
    show List.filterMap id (none :: (runCalls listStep (l ++ [v]) cs).1) ++
      (runCalls listStep (l ++ [v]) cs).2 = l ++ v :: pushed cs
    rw [List.filterMap_cons_none rfl, runCalls_listStep cs (l ++ [v])]
    simp
  | .pop :: cs, [] => by
    show List.filterMap id (none :: (runCalls listStep [] cs).1) ++
      (runCalls listStep [] cs).2 = pushed cs
    rw [List.filterMap_cons_none rfl, runCalls_listStep cs []]
    rfl
  | .pop :: cs, a :: l => by
    show List.filterMap id (some a :: (runCalls listStep l cs).1) ++
      (runCalls listStep l cs).2 = a :: (l ++ pushed cs)
    rw [List.filterMap_cons_some (f := id) rfl, List.cons_append, runCalls_listStep cs l]

section Refinement

variable {σ : Type} {step : σ → Call α → Option α × σ} {view : σ → List α} {Inv : σ → Prop}

/-- A state answering each call as the specification does, through `view` and an invariant kept
by each call, answers every run of calls as the specification does. -/
theorem runCalls_refines
    (hstep : ∀ s c, Inv s → (step s c).1 = (listStep (view s) c).1 ∧
      view (step s c).2 = (listStep (view s) c).2 ∧ Inv (step s c).2) :
    ∀ (cs : List (Call α)) (s : σ), Inv s →
      (runCalls step s cs).1 = (runCalls listStep (view s) cs).1 ∧
        view (runCalls step s cs).2 = (runCalls listStep (view s) cs).2 ∧
        Inv (runCalls step s cs).2
  | [], _, h => ⟨rfl, rfl, h⟩
  | c :: cs, s, h => by
    obtain ⟨ha, hv, hi⟩ := hstep s c h
    obtain ⟨ha', hv', hi'⟩ := runCalls_refines hstep cs _ hi
    rw [hv] at ha' hv'
    exact ⟨by simp only [runCalls]; rw [ha, ha'], hv', hi'⟩

end Refinement

namespace Chunked

/-- A call on a chunked list. -/
def step (q : Chunked α) : Call α → Option α × Chunked α
  | .push v => (none, q.push v)
  | .pop => q.pop

/-- The representation invariant: the shape `WF` (every chunk but the last full, the first read
no further than written and the later ones not read at all, the count equal to the items held),
and a list holding nothing has no chunk yet or one chunk rewound to its start. -/
structure Rep (q : Chunked α) : Prop extends WF q where
  rewound : q.toList = [] → q.chunks = [] ∨ q.chunks = [⟨[], 0⟩]

theorem rep_empty : (empty : Chunked α).Rep := ⟨wf_empty, fun _ => .inl rfl⟩

/-- A list in shape that holds nothing has at most one chunk: a later chunk is written to. -/
theorem WF.tail_eq_nil {q : Chunked α} (h : q.WF) (hq : q.toList = []) : q.chunks.tail = [] := by
  cases hc : q.chunks with
  | nil => rfl
  | cons c rest =>
    cases rest with
    | nil => rfl
    | cons c' rest' =>
      have hu := h.unread c' (by simp [hc])
      have hl : c'.pending = [] := by
        have hflat : (q.chunks.map Chunk.pending).flatten = [] := hq
        simp only [hc, List.map_cons, List.flatten_cons, List.append_eq_nil_iff] at hflat
        exact hflat.2.1
      simp [Chunk.pending, hu.1, hu.2] at hl

/-- A pop leaves the list as it was, or takes the first unread slot of the first chunk left after
letting a used-up one go, rewinding that chunk when nothing is left. -/
theorem pop_snd_cases (q : Chunked α) :
    q.pop.2 = q ∨ ∃ (c : Chunk α) (rest : List (Chunk α)), q.pop.2 =
      ⟨(if q.length - 1 = 0 then ⟨[], 0⟩ else { c with readPos := c.readPos + 1 }) :: rest,
        q.length - 1⟩ := by
  unfold pop
  split
  · exact .inl rfl
  · split
    · rename_i c rest _
      split
      · exact .inr ⟨c, rest, rfl⟩
      · exact .inl rfl
    · exact .inl rfl

theorem Rep.push {q : Chunked α} (h : q.Rep) (v : α) : (q.push v).Rep := by
  refine ⟨h.toWF.push v, fun hnil => ?_⟩
  rw [toList_push q v h.toWF] at hnil
  simp at hnil

/-- Under the invariant, a pop gives the oldest item, leaves the others and keeps the invariant:
a pop that takes the last item rewinds the one chunk left. -/
theorem Rep.pop {q : Chunked α} (h : q.Rep) :
    q.pop.1 = q.toList.head? ∧ q.pop.2.toList = q.toList.tail ∧ q.pop.2.Rep := by
  obtain ⟨hd, htl, hwf⟩ := h.toWF.pop
  refine ⟨hd, htl, hwf, fun hnil => ?_⟩
  rcases pop_snd_cases q with hq | ⟨c, rest, hq⟩
  · rw [hq] at hnil ⊢
    exact h.rewound hnil
  · have hlen : q.length - 1 = 0 := by
      have := hwf.length_eq
      rw [hnil, hq] at this
      exact this
    have htail := hwf.tail_eq_nil hnil
    rw [hq] at htail ⊢
    simp only [List.tail_cons] at htail
    simp [hlen, htail]

/-- One call answers as the specification and keeps the invariant. -/
theorem Rep.step {q : Chunked α} (h : q.Rep) (c : Call α) :
    (q.step c).1 = (listStep q.toList c).1 ∧ (q.step c).2.toList = (listStep q.toList c).2 ∧
      (q.step c).2.Rep := by
  cases c with
  | push v => exact ⟨rfl, toList_push q v h.toWF, h.push v⟩
  | pop => exact h.pop

/-- The chunked list refines a first-in first-out list. Along every run of calls from the empty
list, each pop answers the oldest item left, or nothing exactly when nothing is left; the list
holds the specification's items and counts them; and the representation invariant holds. -/
theorem chunked_refines_fifo (cs : List (Call α)) :
    (runCalls step empty cs).1 = (runCalls listStep [] cs).1 ∧
      (runCalls step empty cs).2.toList = (runCalls listStep [] cs).2 ∧
      (runCalls step empty cs).2.size = (runCalls step empty cs).2.toList.length ∧
      (runCalls step empty cs).2.Rep := by
  obtain ⟨ha, hv, hi⟩ := runCalls_refines (fun q c (h : q.Rep) => h.step c) cs empty rep_empty
  exact ⟨ha, hv, hi.length_eq, hi⟩

end Chunked

end Courier.Queue
