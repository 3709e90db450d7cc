/-!
A linked first-in first-out queue behind a sentinel node. The nodes live in an array that only
grows, since a node is never freed or reused; each holds a value and the index of the node linked
after it. The head points at the sentinel, the node last popped, whose value is cleared; the
items are the values of the nodes after it, oldest first. The tail points at the last node or
lags behind it, and a counter apart counts the items.

A push links a new node after the last one and moves the tail onto it; a pop makes the node after
the sentinel the new sentinel and takes its value. Each runs a retry loop whose passes first help
a lagging tail one node on, so each reports how many passes it took. Operations run one at a time
here, so every compare-and-swap finds the value its pass has just read.

A `Linked` queue carries the proof that its cells are a queue (`Cells.WF`): following next
pointers from the head meets nodes further and further along the array and ends, the tail is on
the way, and every node after the head holds a value.
-/

set_option autoImplicit false

namespace Courier.Queue

/-- A node: its value, cleared once the node becomes the sentinel, and the index of the node
linked after it. -/
structure Node (α : Type) where
  value : Option α
  next : Option Nat

/-- The memory of a linked queue: its nodes, the indices the head and tail pointers hold, and the
item counter. -/
structure Cells (α : Type) where
  nodes : Array (Node α)
  head : Nat
  tail : Nat
  length : Int

namespace Cells

variable {α : Type}

/-- The node linked after node `i`. -/
def next (c : Cells α) (i : Nat) : Option Nat := c.nodes[i]?.bind Node.next

/-- The value of node `i`. -/
def value (c : Cells α) (i : Nat) : Option α := c.nodes[i]?.bind Node.value

/-- The sentinel alone, both pointers on it. -/
def init : Cells α := ⟨#[⟨none, none⟩], 0, 0, 0⟩

/-- Links node `j` after node `i`. -/
def link (c : Cells α) (i j : Nat) : Cells α :=
  { c with nodes := c.nodes.modify i fun nd => { nd with next := some j } }

/-- Clears the value of node `i`. -/
def clear (c : Cells α) (i : Nat) : Cells α :=
  { c with nodes := c.nodes.modify i fun nd => { nd with value := none } }

/-- The retry loop of a push of node `n`, at most `fuel` passes. A pass that finds a node after
the tail moves the tail onto it and tries again; the pass that finds none links `n` after the
tail, moves the tail onto it and counts the item. Gives the passes taken and the cells after. -/
def pushLoop (n : Nat) : Nat → Cells α → Nat × Cells α
  | 0, c => (0, c)
  | fuel + 1, c =>
    match c.next c.tail with
    | some j =>
      let r := pushLoop n fuel { c with tail := j }
      (r.1 + 1, r.2)
    | none => (1, { c.link c.tail n with tail := n, length := c.length + 1 })

/-- Pushes `v`: a new node for it, then the retry loop, which never takes more passes than there
are nodes before the push. -/
def push (c : Cells α) (v : α) : Nat × Cells α :=
  pushLoop c.nodes.size c.nodes.size { c with nodes := c.nodes.push ⟨some v, none⟩ }

/-- The retry loop of a pop, at most `fuel` passes. A pass that finds no node after the head
finds the queue empty. One that finds the tail on the head while a node follows moves the tail
onto that node and tries again. Otherwise the node after the head becomes the sentinel: its value
is taken and cleared, and the item uncounted. Gives the item, the cells after and the passes. -/
def popLoop : Nat → Cells α → Option α × Cells α × Nat
  | 0, c => (none, c, 0)
  | fuel + 1, c =>
    match c.next c.head with
    | none => (none, c, 1)
    | some j =>
      if c.head = c.tail then
        let r := popLoop fuel { c with tail := j }
        (r.1, r.2.1, r.2.2 + 1)
      else (c.value j, { c.clear j with head := j, length := c.length - 1 }, 1)

/-- Pops: two passes always do, since a pass that moves the tail moves it off the head. -/
def pop (c : Cells α) : Option α × Cells α × Nat := popLoop 2 c

/-- The nodes met following next pointers from node `i`, at most `fuel` of them. -/
def walk (c : Cells α) (i : Nat) : Nat → List Nat
  | 0 => []
  | fuel + 1 =>
    match c.next i with
    | none => []
    | some j => j :: c.walk j fuel

/-- The items: the values of the nodes met from the sentinel on, oldest first. -/
def items (c : Cells α) : List α := (c.walk c.head c.nodes.size).filterMap c.value

/-! ## Chains of nodes -/

/-- `Chain c i js l`: following next pointers from node `i` meets the nodes `js`, each further
along the array than the one before, and ends at node `l`, which has none after it. -/
inductive Chain (c : Cells α) : Nat → List Nat → Nat → Prop
  | last {i : Nat} (hi : i < c.nodes.size) (hn : c.next i = none) : Chain c i [] i
  | cons {i j l : Nat} {js : List Nat} (hn : c.next i = some j) (hij : i < j)
      (rest : Chain c j js l) : Chain c i (j :: js) l

/-- The cells of a queue: a chain runs from the head, the tail is on it, and every node after
the head holds a value. -/
def WF (c : Cells α) : Prop :=
  ∃ js l, c.Chain c.head js l ∧ (c.tail = c.head ∨ c.tail ∈ js) ∧ ∀ j ∈ js, (c.value j).isSome

variable {c d : Cells α} {i j k l n : Nat} {js ks : List Nat}

theorem next_link_self (hi : i < c.nodes.size) : (c.link i j).next i = some j := by
  simp [next, link, Array.getElem?_modify, Array.getElem?_eq_getElem hi]

theorem next_link_of_ne (hk : k ≠ i) : (c.link i j).next k = c.next k := by
  simp [next, link, Array.getElem?_modify, Ne.symm hk]

theorem value_link : (c.link i j).value k = c.value k := by
  unfold value link
  rw [Array.getElem?_modify]
  split <;> cases c.nodes[k]? <;> rfl

theorem next_clear : (c.clear i).next k = c.next k := by
  unfold next clear
  rw [Array.getElem?_modify]
  split <;> cases c.nodes[k]? <;> rfl

theorem value_clear_of_ne (hk : k ≠ i) : (c.clear i).value k = c.value k := by
  simp [value, clear, Array.getElem?_modify, Ne.symm hk]

/-- A chain stays where next pointers stay and nodes are only added. -/
theorem Chain.frame (h : c.Chain i js l) (hn : ∀ k, k = i ∨ k ∈ js → d.next k = c.next k)
    (hs : c.nodes.size ≤ d.nodes.size) : d.Chain i js l := by
  induction h with
  | last hi hnone => exact .last (Nat.lt_of_lt_of_le hi hs) ((hn _ (.inl rfl)).trans hnone)
  | cons hnext hij _ ih =>
    refine .cons ((hn _ (.inl rfl)).trans hnext) hij (ih fun k hk => hn k (.inr ?_))
    rcases hk with rfl | hk
    · exact List.mem_cons_self
    · exact List.mem_cons_of_mem _ hk

/-- Along a chain indices ascend: each node met lies past the start, and the end past them all. -/
theorem Chain.bounds (h : c.Chain i js l) : i ≤ l ∧ js.length + i ≤ l ∧ l < c.nodes.size ∧
    ∀ k ∈ js, i < k ∧ k ≤ l := by
  induction h with
  | last hi => exact ⟨Nat.le_refl _, by simp, hi, by simp⟩
  | cons _ hij _ ih =>
    obtain ⟨h₁, h₂, h₃, h₄⟩ := ih
    refine ⟨by omega, by simp only [List.length_cons]; omega, h₃, fun k hk => ?_⟩
    rcases List.mem_cons.mp hk with rfl | hk
    · exact ⟨hij, h₁⟩
    · have := h₄ k hk
      omega

/-- The rest of a chain from one of its nodes. -/
theorem Chain.from_mem (h : c.Chain i js l) (hk : k ∈ js) :
    ∃ ks, c.Chain k ks l ∧ ks.length < js.length := by
  induction h with
  | last => simp at hk
  | cons _ _ rest ih =>
    rcases List.mem_cons.mp hk with rfl | hk
    · exact ⟨_, rest, by simp⟩
    · obtain ⟨ks, hks, hlen⟩ := ih hk
      exact ⟨ks, hks, by simp only [List.length_cons]; omega⟩

/-- A node linked after the end of a chain, with none after it, extends the chain. -/
theorem Chain.snoc (h : c.Chain i js l) (hln : l < n) (hn : n < c.nodes.size)
    (hnone : c.next n = none) : (c.link l n).Chain i (js ++ [n]) n := by
  induction h with
  | last hi _ =>
    refine .cons (next_link_self hi) hln (.last (by simpa [link] using hn) ?_)
    rw [next_link_of_ne (Nat.ne_of_gt hln)]
    exact hnone
  | cons hnext hij rest ih =>
    have hne : _ ≠ _ := Nat.ne_of_lt (Nat.lt_of_lt_of_le hij rest.bounds.1)
    exact .cons ((next_link_of_ne hne).trans hnext) hij (ih hln)

/-! ## The retry loops -/

/-- The push loop from a tail with `ks` still after it runs one pass per node it helps the tail
over and one that links the node. -/
theorem pushLoop_eq : ∀ (fuel : Nat) (c : Cells α) (ks : List Nat), c.Chain c.tail ks l →
    ks.length < fuel →
    pushLoop n fuel c = (ks.length + 1, { c.link l n with tail := n, length := c.length + 1 })
  | 0, _, _, _, hf => absurd hf (Nat.not_lt_zero _)
  | fuel + 1, c, [], h, _ => by
    cases h with
    | last _ hnone => simp only [pushLoop, hnone, List.length_nil]
  | fuel + 1, c, j :: ks, h, hf => by
    cases h with
    | cons hnext _ rest =>
      -- the tail lags: this pass moves it one node on
      have hrest : ({ c with tail := j } : Cells α).Chain j ks l := rest.frame (fun _ _ => rfl) (Nat.le_refl _)
      have ih := pushLoop_eq fuel { c with tail := j } ks hrest (by simp at hf; omega)
      simp only [pushLoop, hnext, ih, List.length_cons]
      rfl

/-- The end of a chain is a chain of its own. -/
theorem Chain.end (h : c.Chain i js l) : c.Chain l [] l := by
  induction h with
  | last hi hn => exact .last hi hn
  | cons _ _ _ ih => exact ih

/-- A tail on the chain from the head has the rest of that chain after it. -/
theorem Chain.tail_on (hc : c.Chain c.head js l) (ht : c.tail = c.head ∨ c.tail ∈ js) :
    ∃ ks, c.Chain c.tail ks l ∧ ks.length ≤ js.length := by
  rcases ht with ht | ht
  · exact ⟨js, ht ▸ hc, Nat.le_refl _⟩
  · obtain ⟨ks, hks, hlen⟩ := hc.from_mem ht
    exact ⟨ks, hks, Nat.le_of_lt hlen⟩

/-- The cells with a new node holding `v`, not yet linked. -/
theorem Chain.push (h : c.Chain i js l) (v : α) :
    ({ c with nodes := c.nodes.push ⟨some v, none⟩ } : Cells α).Chain i js l := by
  have hb := h.bounds
  refine h.frame (fun k hk => ?_) (by simp)
  -- the nodes already there keep their next pointers
  have hlt : k < c.nodes.size := by
    rcases hk with rfl | hk
    · exact Nat.lt_of_le_of_lt hb.1 hb.2.2.1
    · exact Nat.lt_of_le_of_lt (hb.2.2.2 k hk).2 hb.2.2.1
  simp [next, Array.getElem?_push, Nat.ne_of_lt hlt]

/-- A push from a tail with `ks` still after it: one pass per node the tail lags behind and one
more, which links the new node after the last and moves the tail onto it. -/
theorem push_eq (hks : c.Chain c.tail ks l) (v : α) :
    c.push v = (ks.length + 1,
      { ({ c with nodes := c.nodes.push ⟨some v, none⟩ } : Cells α).link l c.nodes.size with
        tail := c.nodes.size, length := c.length + 1 }) :=
  pushLoop_eq _ _ ks (hks.push v) (by have := hks.bounds; omega)

/-- What a push does to the cells of a queue: the chain from the head gains the new node, which
holds the value pushed, and the tail lands on it; the item is counted, and the nodes there before
keep their values. -/
theorem push_spec (hc : c.Chain c.head js l) (hks : c.Chain c.tail ks l) (v : α) :
    (c.push v).1 = ks.length + 1 ∧ (c.push v).2.Chain c.head (js ++ [c.nodes.size]) c.nodes.size ∧
      (c.push v).2.head = c.head ∧ (c.push v).2.tail = c.nodes.size ∧
      (c.push v).2.length = c.length + 1 ∧ (c.push v).2.value c.nodes.size = some v ∧
      ∀ k < c.nodes.size, (c.push v).2.value k = c.value k := by
  rw [push_eq hks]
  have hb := hc.bounds
  -- the node pushed sits past every node of the chain, with nothing after it
  have hsnoc := (hc.push v).snoc (n := c.nodes.size) (by omega) (by simp) (by simp [next])
  refine ⟨rfl, hsnoc.frame (fun _ _ => rfl) (Nat.le_refl _), rfl, rfl, rfl, ?_, fun k hk => ?_⟩
  · show (Cells.link _ _ _).value _ = _
    rw [value_link]
    simp [value]
  · show (Cells.link _ _ _).value _ = _
    rw [value_link]
    simp [value, Array.getElem?_push, Nat.ne_of_lt hk]

/-- A push keeps the cells a queue: the chain gains the new node at its end, and the tail lands
on it. -/
theorem WF.push (hc : c.WF) (v : α) : (c.push v).2.WF := by
  obtain ⟨js, l, hch, ht, hval⟩ := hc
  obtain ⟨ks, hks, -⟩ := hch.tail_on ht
  obtain ⟨-, hchain, hhead, htail, -, hnew, hold⟩ := push_spec hch hks v
  have hb := hch.bounds
  refine ⟨js ++ [c.nodes.size], c.nodes.size, hhead ▸ hchain, .inr (by simp [htail]), fun k hk => ?_⟩
  rcases List.mem_append.mp hk with hk | hk
  · rw [hold k (Nat.lt_of_le_of_lt (hb.2.2.2 k hk).2 hb.2.2.1)]
    exact hval k hk
  · obtain rfl := List.mem_singleton.mp hk
    simp [hnew]

/-- What a pop does to the cells of a queue with a node after the head: that node becomes the
sentinel, its value taken and cleared, the item uncounted; the tail, if it was on the head, is
moved onto it first, at the cost of a second pass. -/
theorem pop_eq_cons (hc : c.Chain c.head (j :: js) l) :
    c.pop = (c.value j, { ({ c with tail := if c.head = c.tail then j else c.tail } : Cells α).clear j
      with head := j, length := c.length - 1 }, if c.head = c.tail then 2 else 1) := by
  cases hc with
  | cons hnext hij _ =>
    by_cases ht : c.head = c.tail
    · -- the first pass moves the tail off the head, the second takes the node
      have hne : c.head ≠ j := Nat.ne_of_lt hij
      have hnext' : ({ c with tail := j } : Cells α).next c.head = some j := hnext
      simp only [pop, popLoop, hnext, if_pos ht]
      simp only [hnext', if_neg hne]
      rfl
    · simp only [pop, popLoop, hnext, if_neg ht]

theorem pop_eq_nil (hc : c.Chain c.head [] l) : c.pop = (none, c, 1) := by
  cases hc with
  | last _ hnone => simp only [pop, popLoop, hnone]

/-- A pop keeps the cells a queue: the chain loses its first node, which is the new head. -/
theorem WF.pop (hc : c.WF) : c.pop.2.1.WF := by
  obtain ⟨js, l, hch, ht, hval⟩ := hc
  cases js with
  | nil => rw [pop_eq_nil hch]; exact ⟨[], l, hch, ht, hval⟩
  | cons j js =>
    rw [pop_eq_cons hch]
    cases hch with
    | cons _ hij rest =>
      have hb := rest.bounds
      refine ⟨js, l, rest.frame (fun _ _ => next_clear) (by simp [clear]), ?_, fun k hk => ?_⟩
      · -- the tail is on the new head or further on
        show (if c.head = c.tail then j else c.tail) = j ∨ (if c.head = c.tail then j else c.tail) ∈ js
        by_cases h : c.head = c.tail
        · exact .inl (if_pos h)
        · rw [if_neg h]
          rcases ht with ht | ht
          · exact absurd ht.symm h
          · exact List.mem_cons.mp ht
      · have hne : k ≠ j := Nat.ne_of_gt (hb.2.2.2 k hk).1
        show ((({ c with tail := _ } : Cells α).clear j).value k).isSome
        rw [value_clear_of_ne hne]
        exact hval k (List.mem_cons_of_mem _ hk)

theorem WF.init : (init : Cells α).WF :=
  ⟨[], 0, .last (by simp [Cells.init]) rfl, .inl rfl, by simp⟩

end Cells

/-- A linked queue: cells that are a queue. -/
structure Linked (α : Type) where
  cells : Cells α
  wf : cells.WF

namespace Linked

variable {α : Type}

/-- A queue of the sentinel alone, both pointers on it. -/
def empty : Linked α := ⟨Cells.init, Cells.WF.init⟩

/-- Links a new node after the last one. -/
def push (q : Linked α) (v : α) : Linked α := ⟨(q.cells.push v).2, q.wf.push v⟩

/-- The passes a push takes. -/
def pushPasses (q : Linked α) (v : α) : Nat := (q.cells.push v).1

/-- Takes the oldest item; none when only the sentinel is left. -/
def pop (q : Linked α) : Option α × Linked α := (q.cells.pop.1, ⟨q.cells.pop.2.1, q.wf.pop⟩)

/-- The passes a pop takes. -/
def popPasses (q : Linked α) : Nat := q.cells.pop.2.2

/-- The item counter, read as a count: zero when it reads below zero. -/
def size (q : Linked α) : Nat := q.cells.length.toNat

/-- Whether no node follows the sentinel. -/
def isEmpty (q : Linked α) : Bool := (q.cells.next q.cells.head).isNone

/-- The items, oldest first. -/
def toList (q : Linked α) : List α := q.cells.items

end Linked

end Courier.Queue
