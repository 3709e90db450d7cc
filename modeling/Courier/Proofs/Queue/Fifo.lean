import Courier.Queue.Chunked
import Courier.Queue.Linked

/-!
# Both queues are first-in first-out

- `Linked`: the items are the values of the nodes on the chain from the sentinel
  (`Cells.items_of_chain`); pushing appends to them and popping takes their head, whatever the
  lag of the tail (`Linked.toList_push`, `Linked.pop_fst`, `Linked.toList_pop`).
- `Chunked`: the shape `Chunked.WF` (every chunk read no further than written and at most
  `chunkSize` long, only the first chunk read from, every chunk but the last full, the count equal
  to the items held) holds of the empty list and is kept by `push` and `pop` (`Chunked.WF.push`,
  `Chunked.WF.pop`); under it `push` appends and `pop` takes the head of `toList`.
-/

set_option autoImplicit false

namespace Courier.Queue

namespace Cells

variable {α : Type} {c d : Cells α} {i j l : Nat} {js : List Nat} {x : α}

/-- Walking a chain with enough fuel meets exactly its nodes. -/
theorem Chain.walk_eq (h : c.Chain i js l) : ∀ fuel, js.length ≤ fuel → c.walk i fuel = js := by
  induction h with
  | last _ hn =>
    intro fuel _
    cases fuel <;> simp [walk, hn]
  | cons hn _ _ ih =>
    intro fuel hf
    cases fuel with
    | zero => simp at hf
    | succ fuel =>
      simp only [walk, hn]
      rw [ih fuel (by simp at hf; omega)]

/-- The items of cells whose head starts a chain are the values of the chain's nodes. -/
theorem items_of_chain (h : c.Chain c.head js l) : c.items = js.filterMap c.value := by
  unfold items
  rw [h.walk_eq _ (by have := h.bounds; omega)]

/-- A chain of nodes that all hold values reads as their values, the first one first. -/
theorem filterMap_value_cons (hv : c.value j = some x) :
    (j :: js).filterMap c.value = x :: js.filterMap c.value := by
  simp [hv]

/-- Next pointers lead one way: two chains from one node are the same chain. -/
theorem Chain.unique {js' : List Nat} {l' : Nat} (h : c.Chain i js l) (h' : c.Chain i js' l') :
    js = js' ∧ l = l' := by
  induction h generalizing js' with
  | last _ hn =>
    cases h' with
    | last => exact ⟨rfl, rfl⟩
    | cons hn' => rw [hn] at hn'; cases hn'
  | cons hn _ _ ih =>
    cases h' with
    | last _ hn' => rw [hn] at hn'; cases hn'
    | cons hn' _ rest' =>
      rw [hn] at hn'
      cases hn'
      obtain ⟨rfl, rfl⟩ := ih rest'
      exact ⟨rfl, rfl⟩

/-- Nodes that keep their values read alike. -/
theorem filterMap_value_congr (h : ∀ k ∈ js, d.value k = c.value k) :
    js.filterMap d.value = js.filterMap c.value := by
  induction js with
  | nil => rfl
  | cons k ks ih =>
    simp only [List.filterMap_cons, h k List.mem_cons_self,
      ih fun k' hk => h k' (List.mem_cons_of_mem _ hk)]

end Cells

namespace Linked

variable {α : Type}

@[simp] theorem toList_empty : (empty : Linked α).toList = [] := rfl

/-- Every node on the chain from the sentinel of a queue holds a value. -/
theorem value_of_chain {q : Linked α} {js : List Nat} {l : Nat}
    (hc : q.cells.Chain q.cells.head js l) : ∀ k ∈ js, (q.cells.value k).isSome := by
  obtain ⟨js', l', hc', -, hval⟩ := q.wf
  obtain ⟨rfl, -⟩ := hc.unique hc'
  exact hval

/-- A push appends its value to the items. -/
@[simp] theorem toList_push (q : Linked α) (v : α) : (q.push v).toList = q.toList ++ [v] := by
  obtain ⟨js, l, hc, ht, -⟩ := q.wf
  obtain ⟨ks, hks, -⟩ := hc.tail_on ht
  obtain ⟨-, hchain, hhead, -, -, hnew, hold⟩ := Cells.push_spec hc hks v
  have hb := hc.bounds
  have hchain' : (q.cells.push v).2.Chain (q.cells.push v).2.head (js ++ [q.cells.nodes.size])
      q.cells.nodes.size := by
    rw [hhead]
    exact hchain
  show (q.cells.push v).2.items = q.cells.items ++ [v]
  rw [Cells.items_of_chain hchain', Cells.items_of_chain hc, List.filterMap_append]
  -- the nodes there before keep their values, and the new one holds `v`
  congr 1
  · exact Cells.filterMap_value_congr fun k hk => hold k (Nat.lt_of_le_of_lt (hb.2.2.2 k hk).2 hb.2.2.1)
  · simp [hnew]

/-- A pop gives the oldest item. -/
theorem pop_fst (q : Linked α) : q.pop.1 = q.toList.head? := by
  obtain ⟨js, l, hc, -, hval⟩ := q.wf
  show q.cells.pop.1 = q.cells.items.head?
  rw [Cells.items_of_chain hc]
  cases js with
  | nil => rw [Cells.pop_eq_nil hc]; rfl
  | cons j js =>
    obtain ⟨v, hv⟩ := Option.isSome_iff_exists.mp (hval j List.mem_cons_self)
    rw [Cells.pop_eq_cons hc, Cells.filterMap_value_cons hv]
    exact hv

/-- A pop leaves the items after the oldest. -/
@[simp] theorem toList_pop (q : Linked α) : q.pop.2.toList = q.toList.tail := by
  obtain ⟨js, l, hc, -, hval⟩ := q.wf
  show q.cells.pop.2.1.items = q.cells.items.tail
  rw [Cells.items_of_chain hc]
  cases js with
  | nil => rw [Cells.pop_eq_nil hc, Cells.items_of_chain hc]; rfl
  | cons j js =>
    obtain ⟨v, hv⟩ := Option.isSome_iff_exists.mp (hval j List.mem_cons_self)
    cases hc with
    | cons hnext hij rest =>
      have hb := rest.bounds
      -- the new sentinel starts the rest of the chain, whose nodes keep their values
      have hchain : (q.cells.pop.2.1).Chain (q.cells.pop.2.1).head js l := by
        rw [Cells.pop_eq_cons (.cons hnext hij rest)]
        exact rest.frame (fun _ _ => Cells.next_clear) (by simp [Cells.clear])
      rw [Cells.items_of_chain hchain, Cells.filterMap_value_cons hv, List.tail_cons]
      refine Cells.filterMap_value_congr fun k hk => ?_
      rw [Cells.pop_eq_cons (.cons hnext hij rest)]
      exact Cells.value_clear_of_ne (Nat.ne_of_gt (hb.2.2.2 k hk).1)

/-- A queue is empty exactly when no item is left. -/
theorem isEmpty_eq (q : Linked α) : q.isEmpty = q.toList.isEmpty := by
  obtain ⟨js, l, hc, -, hval⟩ := q.wf
  show (q.cells.next q.cells.head).isNone = q.cells.items.isEmpty
  rw [Cells.items_of_chain hc]
  cases hc with
  | last _ hn => simp [hn]
  | cons hn _ _ =>
    obtain ⟨v, hv⟩ := Option.isSome_iff_exists.mp (hval _ List.mem_cons_self)
    simp [hn, hv]

end Linked

namespace Chunked

variable {α : Type}

/-- The shape that `push` and `pop` keep. -/
structure WF (q : Chunked α) : Prop where
  length_eq : q.length = q.toList.length
  bounded : ∀ c ∈ q.chunks, c.readPos ≤ c.slots.length ∧ c.slots.length ≤ chunkSize
  /-- Only the first chunk has been read from, and no later chunk is empty. -/
  unread : ∀ c ∈ q.chunks.tail, c.readPos = 0 ∧ c.slots ≠ []
  full : ∀ c ∈ q.chunks.dropLast, c.slots.length = chunkSize

@[simp] theorem toList_empty : (empty : Chunked α).toList = [] := rfl

theorem wf_empty : (empty : Chunked α).WF :=
  ⟨rfl, by simp [empty], by simp [empty], by simp [empty]⟩

theorem toList_mk (cs : List (Chunk α)) (n : Nat) :
    (⟨cs, n⟩ : Chunked α).toList = (cs.map Chunk.pending).flatten := rfl

/-- Pushing onto a list whose last chunk is not full writes the next slot of that chunk. -/
theorem pending_append {c : Chunk α} {v : α} (h : c.readPos ≤ c.slots.length) :
    ({ c with slots := c.slots ++ [v] } : Chunk α).pending = c.pending ++ [v] := by
  simp [Chunk.pending, List.drop_append_of_le_length h]

@[simp] theorem toList_push (q : Chunked α) (v : α) (h : q.WF) :
    (q.push v).toList = q.toList ++ [v] := by
  unfold push
  cases hl : q.chunks.getLast? with
  | none =>
    have hq : q.chunks = [] := List.getLast?_eq_none_iff.mp hl
    simp [toList, hq, Chunk.pending]
  | some last =>
    obtain ⟨ys, hys⟩ := List.getLast?_eq_some_iff.mp hl
    have hb := (h.bounded last (by simp [hys])).1
    simp only
    split
    · simp [toList, Chunk.pending]
    · simp [toList, hys, pending_append hb]

theorem WF.push {q : Chunked α} (h : q.WF) (v : α) : (q.push v).WF := by
  have hlist := toList_push q v h
  unfold Chunked.push at hlist ⊢
  cases hl : q.chunks.getLast? with
  | none =>
    have hq : q.chunks = [] := List.getLast?_eq_none_iff.mp hl
    simp only [hl] at hlist ⊢
    refine ⟨?_, ?_, by simp, by simp⟩
    · rw [hlist, List.length_append, ← h.length_eq]; rfl
    · simp [chunkSize]
  | some last =>
    obtain ⟨ys, hys⟩ := List.getLast?_eq_some_iff.mp hl
    have hlast := h.bounded last (by simp [hys])
    simp only [hl] at hlist ⊢
    split
    · rename_i hfull
      simp only [hfull, ite_true] at hlist
      refine ⟨?_, ?_, ?_, ?_⟩
      · rw [hlist, List.length_append, ← h.length_eq]; rfl
      · intro c hc
        rcases List.mem_append.mp hc with hc | hc
        · exact h.bounded c hc
        · simp at hc; subst hc; simp [chunkSize]
      · intro c hc
        rw [List.tail_append_of_ne_nil (by simp [hys])] at hc
        rcases List.mem_append.mp hc with hc | hc
        · exact h.unread c hc
        · simp at hc; subst hc; simp
      · intro c hc
        simp only [List.dropLast_concat] at hc
        rw [hys] at hc
        rcases List.mem_append.mp hc with hc | hc
        · exact h.full c (by simp [hys, hc])
        · simp at hc; subst hc; exact hfull
    · rename_i hfull
      simp only [hfull, ite_false] at hlist
      rw [hys, List.dropLast_concat] at hlist ⊢
      refine ⟨?_, ?_, ?_, ?_⟩
      · rw [hlist, List.length_append, ← h.length_eq]; rfl
      · intro c hc
        rcases List.mem_append.mp hc with hc | hc
        · exact h.bounded c (by simp [hys, hc])
        · simp at hc; subst hc; simp; omega
      · intro c hc
        have hu : ∀ c ∈ (ys ++ [last]).tail, c.readPos = 0 ∧ c.slots ≠ [] := hys ▸ h.unread
        rcases ys with _ | ⟨y, ys⟩
        · simp at hc
        · simp only [List.cons_append, List.tail_cons] at hc hu
          rcases List.mem_append.mp hc with hc | hc
          · exact hu c (by simp [hc])
          · simp at hc; subst hc
            exact ⟨(hu last (by simp)).1, by simp⟩
      · intro c hc
        simp only [List.dropLast_concat] at hc
        exact h.full c (by simp [hys, hc])

/-- Letting go of a used-up first chunk keeps the shape and the items, and leaves a first chunk
that is not used up. -/
theorem WF.advance {q : Chunked α} (h : q.WF) :
    (⟨advance q.chunks, q.length⟩ : Chunked α).WF ∧
      (⟨advance q.chunks, q.length⟩ : Chunked α).toList = q.toList ∧
      ∀ c rest, advance q.chunks = c :: rest → c.readPos ≠ chunkSize := by
  obtain ⟨q, n⟩ := q
  cases q with
  | nil => exact ⟨h, rfl, by simp [Chunked.advance]⟩
  | cons c0 rest0 =>
    by_cases hr : c0.readPos = chunkSize
    · have hc0 := h.bounded c0 (by simp)
      have hpend : c0.pending = [] := List.drop_eq_nil_of_le (by omega)
      have hlist : (⟨rest0, n⟩ : Chunked α).toList = (⟨c0 :: rest0, n⟩ : Chunked α).toList := by
        simp [toList_mk, hpend]
      simp only [Chunked.advance, hr, ite_true]
      refine ⟨⟨?_, ?_, ?_, ?_⟩, hlist, ?_⟩
      · rw [hlist]; exact h.length_eq
      · intro c hc; exact h.bounded c (by simp [hc])
      · intro c hc; exact h.unread c (by cases rest0 <;> simp_all)
      · intro c hc
        exact h.full c (by cases rest0 <;> simp_all [List.dropLast_cons_of_ne_nil])
      · intro c rest hc
        have := (h.unread c (by simp_all)).1
        simp [this, chunkSize]
    · rw [show Chunked.advance (c0 :: rest0) = c0 :: rest0 from if_neg hr]
      exact ⟨h, rfl, by rintro c rest ⟨rfl, rfl⟩; exact hr⟩

/-- A first chunk that is not used up holds the oldest item, unless the list is empty. -/
theorem WF.readPos_lt {q : Chunked α} (h : q.WF) {c : Chunk α} {rest : List (Chunk α)}
    (hq : q.chunks = c :: rest) (hr : c.readPos ≠ chunkSize) (hne : q.toList ≠ []) :
    c.readPos < c.slots.length := by
  have hc := h.bounded c (by simp [hq])
  refine Nat.lt_of_le_of_ne hc.1 fun heq => hne ?_
  have hlast : rest = [] := by
    cases rest with
    | nil => rfl
    | cons c' rest' =>
      have := h.full c (by simp [hq])
      omega
  simp [toList, hq, hlast, Chunk.pending, heq]

/-- Under the shape, a pop gives the oldest item, leaves the others and keeps the shape. -/
theorem WF.pop {q : Chunked α} (h : q.WF) :
    q.pop.1 = q.toList.head? ∧ q.pop.2.toList = q.toList.tail ∧ q.pop.2.WF := by
  by_cases hn : q.length = 0
  · have hnil : q.toList = [] := List.eq_nil_of_length_eq_zero (h.length_eq ▸ hn)
    simp [Chunked.pop, hn, hnil, h]
  have hne : q.toList ≠ [] := fun hnil => hn (by rw [h.length_eq, hnil]; rfl)
  obtain ⟨ha, hal, hfirst⟩ := h.advance
  cases hadv : Chunked.advance q.chunks with
  | nil => exact absurd (by rw [← hal, hadv]; rfl) hne
  | cons c rest =>
    rw [hadv] at ha hal
    have hlt := ha.readPos_lt rfl (hfirst c rest hadv) (by rw [hal]; exact hne)
    have hq : q.toList = c.slots[c.readPos] :: (c.slots.drop (c.readPos + 1) ++
        (rest.map Chunk.pending).flatten) := by
      rw [← hal, toList_mk, List.map_cons, List.flatten_cons, Chunk.pending,
        List.drop_eq_getElem_cons hlt, List.cons_append]
    have hlen := h.length_eq
    rw [hq, List.length_cons] at hlen
    simp only [Chunked.pop, hn, ite_false, hadv, List.getElem?_eq_getElem hlt]
    refine ⟨by rw [hq]; rfl, ?_, ?_⟩
    · split
      · rename_i hleft
        have hrest : c.slots.drop (c.readPos + 1) ++ (rest.map Chunk.pending).flatten = [] :=
          List.eq_nil_of_length_eq_zero (by omega)
        rw [hq, List.tail_cons, hrest]
        simpa [toList_mk, Chunk.pending] using (List.append_eq_nil_iff.mp hrest).2
      · rw [hq, List.tail_cons]; rfl
    · have hrest : rest ≠ [] → 2 ≤ q.length := by
        intro hr
        obtain ⟨c', rest', rfl⟩ := List.exists_cons_of_ne_nil hr
        have hu := ha.unread c' (by simp)
        have hc' : c'.pending.length ≠ 0 := by simp [Chunk.pending, hu.1, hu.2]
        simp only [List.map_cons, List.flatten_cons, List.length_append] at hlen
        omega
      refine ⟨?_, ?_, ?_, ?_⟩
      · split
        · simp_all [toList_mk, Chunk.pending]
        · simp only [toList_mk, List.map_cons, List.flatten_cons, List.length_append,
            Chunk.pending, List.length_drop]
          simp only [List.length_append, List.length_drop] at hlen
          omega
      · intro x hx
        rcases List.mem_cons.mp hx with rfl | hx
        · have hc := ha.bounded c (by simp)
          split
          · simp
          · exact ⟨hlt, hc.2⟩
        · exact ha.bounded x (by simp [hx])
      · intro x hx; exact ha.unread x hx
      · intro x hx
        cases rest with
        | nil => simp at hx
        | cons c' rest' =>
          rw [List.dropLast_cons_of_ne_nil (by simp)] at hx
          rcases List.mem_cons.mp hx with rfl | hx
          · have := hrest (by simp)
            rw [if_neg (by omega)]
            exact ha.full c (by simp)
          · exact ha.full x (by simp [List.dropLast_cons_of_ne_nil, hx])

end Chunked

end Courier.Queue
