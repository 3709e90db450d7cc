/-!
A first-in first-out list kept in fixed-size chunks. Pushing writes the next slot of the last
chunk and opens a new chunk when that one is full; popping reads the next slot of the first
chunk, moves to the following chunk only when the first is used up, and rewinds the one
remaining chunk to its start whenever the list becomes empty. The items are the unread slots
of the first chunk followed by the written slots of every later chunk.
-/

set_option autoImplicit false

namespace Courier.Queue

/-- The number of slots in every chunk. -/
def chunkSize : Nat := 128

/-- A chunk: the slots written so far, of which the first `readPos` were taken. -/
structure Chunk (α : Type) where
  slots : List α
  readPos : Nat

/-- The slots of a chunk not yet taken. -/
def Chunk.pending {α : Type} (c : Chunk α) : List α := c.slots.drop c.readPos

/-- A list of chunks, first to last, with the count of items they hold. -/
structure Chunked (α : Type) where
  chunks : List (Chunk α)
  length : Nat

namespace Chunked

variable {α : Type}

/-- The list before anything was pushed: no chunk at all. -/
def empty : Chunked α := ⟨[], 0⟩

/-- The items, oldest first. -/
def toList (q : Chunked α) : List α := (q.chunks.map Chunk.pending).flatten

/-- Appends an item, opening a chunk when there is none or the last one is full. -/
def push (q : Chunked α) (v : α) : Chunked α :=
  match q.chunks.getLast? with
  | some last =>
    if last.slots.length = chunkSize then ⟨q.chunks ++ [⟨[v], 0⟩], q.length + 1⟩
    else ⟨q.chunks.dropLast ++ [{ last with slots := last.slots ++ [v] }], q.length + 1⟩
  | none => ⟨[⟨[v], 0⟩], q.length + 1⟩

/-- The chunks once a used-up first chunk has been let go. -/
def advance : List (Chunk α) → List (Chunk α)
  | c :: rest => if c.readPos = chunkSize then rest else c :: rest
  | [] => []

/-- Takes the oldest item; none when the list is empty. The last item taken rewinds the
remaining chunk. -/
def pop (q : Chunked α) : Option α × Chunked α :=
  if q.length = 0 then (none, q)
  else
    match advance q.chunks with
    | c :: rest =>
      match c.slots[c.readPos]? with
      | some v =>
        let left := q.length - 1
        let c := if left = 0 then ⟨[], 0⟩ else { c with readPos := c.readPos + 1 }
        (some v, ⟨c :: rest, left⟩)
      | none => (none, q)
    | [] => (none, q)

/-- The number of items held. -/
def size (q : Chunked α) : Nat := q.length

end Chunked

end Courier.Queue
