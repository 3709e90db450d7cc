import Courier.Proofs.Queue.Fifo

/-!
# The linked queue used by one caller

A caller of the linked queue pushes, pops, reads the counter and asks whether the queue is empty;
a push and a pop report how many passes of their retry loop they took. The specification is a
plain list whose push and pop each take one pass.

- `runOps`, `runOps_refines`: runs of operations of any kind, and the simulation of a
  specification by a state that answers each operation as it does through a view, under an
  invariant that each operation keeps;
- `Linked.Rep`: the invariant of a queue with one caller, the chain from the sentinel ending at
  the tail and the counter equal to the items held; `Rep.push` and `Rep.pop` keep it, and under
  it a push and a pop each take one pass (`Rep.pushPasses`, `Rep.popPasses`): a push finds
  nothing after the tail, and a pop never finds the tail on the sentinel while an item follows;
- `Linked.one_caller_refines_fifo`: from the empty queue, every run of one caller answers as the
  specification (the oldest item or none, the number of items, whether none is left, one pass
  for each push and pop), holds the specification's items and keeps the invariant.
-/

set_option autoImplicit false

namespace Courier.Queue

variable {α : Type}

/-- Operations made one after another from a state, with the answer to each. -/
def runOps {ι ρ σ : Type} (step : σ → ι → ρ × σ) : σ → List ι → List ρ × σ
  | s, [] => ([], s)
  | s, o :: os =>
    let r := step s o
    let r' := runOps step r.2 os
    (r.1 :: r'.1, r'.2)

section Refinement

variable {ι ρ σ τ : Type} {step : σ → ι → ρ × σ} {spec : τ → ι → ρ × τ} {view : σ → τ}
  {Inv : σ → Prop}

/-- A state answering each operation as the specification does, through `view` and an invariant
kept by each operation, answers every run as the specification does. -/
theorem runOps_refines
    (hstep : ∀ s o, Inv s → (step s o).1 = (spec (view s) o).1 ∧
      view (step s o).2 = (spec (view s) o).2 ∧ Inv (step s o).2) :
    ∀ (os : List ι) (s : σ), Inv s →
      (runOps step s os).1 = (runOps spec (view s) os).1 ∧
        view (runOps step s os).2 = (runOps spec (view s) os).2 ∧ Inv (runOps step s os).2
  | [], _, h => ⟨rfl, rfl, h⟩
  | o :: os, s, h => by
    obtain ⟨ha, hv, hi⟩ := hstep s o h
    obtain ⟨ha', hv', hi'⟩ := runOps_refines hstep os _ hi
    rw [hv] at ha' hv'
    exact ⟨by simp only [runOps]; rw [ha, ha'], hv', hi'⟩

end Refinement

namespace Linked

/-- An operation of a caller of a linked queue. -/
inductive Op (α : Type) where
  | push (v : α)
  | pop
  | len
  | isEmpty

/-- The answer to an operation; a push and a pop also give the passes of the retry loop. -/
inductive Answer (α : Type) where
  | pushed (passes : Nat)
  | popped (item : Option α) (passes : Nat)
  | count (n : Nat)
  | empty (b : Bool)
  deriving DecidableEq

/-- One operation on a linked queue. -/
def step (q : Linked α) : Op α → Answer α × Linked α
  | .push v => (.pushed (q.pushPasses v), q.push v)
  | .pop => (.popped q.pop.1 q.popPasses, q.pop.2)
  | .len => (.count q.size, q)
  | .isEmpty => (.empty q.isEmpty, q)

/-- The specification: a list pushed at its end and popped at its head, a push and a pop taking
one pass each. -/
def fifoStep (l : List α) : Op α → Answer α × List α
  | .push v => (.pushed 1, l ++ [v])
  | .pop => (.popped l.head? 1, l.tail)
  | .len => (.count l.length, l)
  | .isEmpty => (.empty l.isEmpty, l)

/-! ## The invariant of one caller -/

/-- The shape a queue keeps while one caller alone uses it: the chain from the sentinel ends at
the tail, and the counter counts the items. -/
structure Rep (q : Linked α) : Prop where
  tail_last : ∃ js, q.cells.Chain q.cells.head js q.cells.tail
  counter_eq : q.cells.length = q.toList.length

theorem rep_empty : (empty : Linked α).Rep :=
  ⟨⟨[], .last (by simp [empty, Cells.init]) rfl⟩, rfl⟩

theorem Rep.push {q : Linked α} (h : q.Rep) (v : α) : (q.push v).Rep := by
  obtain ⟨js, hc⟩ := h.tail_last
  obtain ⟨-, hchain, hhead, htail, hlen, -, -⟩ := Cells.push_spec hc hc.end v
  refine ⟨⟨js ++ [q.cells.nodes.size], ?_⟩, ?_⟩
  · -- the new node ends the chain, and the tail is on it
    show (q.cells.push v).2.Chain (q.cells.push v).2.head _ (q.cells.push v).2.tail
    rw [hhead, htail]
    exact hchain
  · show (q.cells.push v).2.length = (q.push v).toList.length
    rw [toList_push, hlen, h.counter_eq, List.length_append, List.length_singleton]
    omega

/-- With the tail on the last node, a push finds nothing after it and links its node at once. -/
theorem Rep.pushPasses {q : Linked α} (h : q.Rep) (v : α) : q.pushPasses v = 1 := by
  obtain ⟨js, hc⟩ := h.tail_last
  exact (Cells.push_spec hc hc.end v).1

theorem Rep.pop {q : Linked α} (h : q.Rep) : q.pop.2.Rep := by
  obtain ⟨js, hc⟩ := h.tail_last
  cases js with
  | nil =>
    -- nothing to take: the cells stay as they are
    have he := Cells.pop_eq_nil hc
    have hnil : q.toList = [] := Cells.items_of_chain hc
    refine ⟨⟨[], ?_⟩, ?_⟩
    · show q.cells.pop.2.1.Chain q.cells.pop.2.1.head [] q.cells.pop.2.1.tail
      rw [he]
      exact hc
    · show q.cells.pop.2.1.length = q.pop.2.toList.length
      rw [toList_pop, he, h.counter_eq, hnil]
      rfl
  | cons j js =>
    -- the tail is past the node after the sentinel, so the pop leaves it where it is
    have hb := hc.bounds
    have hne : q.cells.head ≠ q.cells.tail := by
      have := hb.2.2.2 j List.mem_cons_self
      omega
    obtain ⟨v, hv⟩ := Option.isSome_iff_exists.mp (value_of_chain hc j List.mem_cons_self)
    have hlist : q.toList = v :: js.filterMap q.cells.value := by
      rw [show q.toList = q.cells.items from rfl, Cells.items_of_chain hc,
        Cells.filterMap_value_cons hv]
    have he := Cells.pop_eq_cons hc
    rw [if_neg hne, if_neg hne] at he
    cases hc with
    | cons hnext hij rest =>
      refine ⟨⟨js, ?_⟩, ?_⟩
      · show q.cells.pop.2.1.Chain q.cells.pop.2.1.head js q.cells.pop.2.1.tail
        rw [he]
        exact rest.frame (fun _ _ => Cells.next_clear) (by simp [Cells.clear])
      · show q.cells.pop.2.1.length = q.pop.2.toList.length
        rw [toList_pop, he, hlist, List.tail_cons]
        show q.cells.length - 1 = _
        rw [h.counter_eq, hlist, List.length_cons]
        omega

/-- With the tail on the last node, the sentinel is the tail only when no item follows it, so a
pop never moves the tail first. -/
theorem Rep.popPasses {q : Linked α} (h : q.Rep) : q.popPasses = 1 := by
  obtain ⟨js, hc⟩ := h.tail_last
  cases js with
  | nil => exact congrArg (·.2.2) (Cells.pop_eq_nil hc)
  | cons j js =>
    have hb := hc.bounds
    have hne : q.cells.head ≠ q.cells.tail := by
      have := hb.2.2.2 j List.mem_cons_self
      omega
    show q.cells.pop.2.2 = 1
    simp [Cells.pop_eq_cons hc, hne]

theorem Rep.size {q : Linked α} (h : q.Rep) : q.size = q.toList.length := by
  simp [Linked.size, h.counter_eq]

/-- One operation answers as the specification and keeps the invariant. -/
theorem Rep.step {q : Linked α} (h : q.Rep) (o : Op α) :
    (q.step o).1 = (fifoStep q.toList o).1 ∧ (q.step o).2.toList = (fifoStep q.toList o).2 ∧
      (q.step o).2.Rep := by
  cases o with
  | push v =>
    refine ⟨?_, toList_push q v, h.push v⟩
    simp only [Linked.step, fifoStep, h.pushPasses]
  | pop =>
    refine ⟨?_, toList_pop q, h.pop⟩
    simp only [Linked.step, fifoStep, pop_fst, h.popPasses]
  | len => exact ⟨by simp only [Linked.step, fifoStep, h.size], rfl, h⟩
  | isEmpty => exact ⟨by simp only [Linked.step, fifoStep, isEmpty_eq], rfl, h⟩

/-- The linked queue refines a first-in first-out list for one caller. Along every run of
pushes, pops, counter reads and emptiness tests from the empty queue, each pop answers the oldest
item left, or nothing exactly when nothing is left; the counter reads the number of items left;
the test holds exactly when none is left; each push and each pop takes one pass of its retry
loop; the queue holds the specification's items; and the tail stays on the last node, so the
branches that help a lagging tail are never taken. -/
theorem one_caller_refines_fifo (os : List (Op α)) :
    (runOps step empty os).1 = (runOps fifoStep [] os).1 ∧
      (runOps step empty os).2.toList = (runOps fifoStep [] os).2 ∧
      (runOps step empty os).2.Rep :=
  runOps_refines (fun q o (h : q.Rep) => h.step o) os empty rep_empty

example :
    (runOps step (empty : Linked Nat) [.push 1, .push 2, .pop, .len, .isEmpty, .pop, .pop]).1 =
    [.pushed 1, .pushed 1, .popped (some 1) 1, .count 1, .empty false, .popped (some 2) 1,
      .popped none 1] := by
  decide

end Linked

end Courier.Queue
