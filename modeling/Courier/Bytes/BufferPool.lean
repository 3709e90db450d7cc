/-!
Growable byte buffers and a pool that keeps them for reuse. A buffer has a length and a
capacity; writing past the capacity reallocates. The first block of a buffer that never had
storage holds 64 bytes; otherwise the new capacity is at least twice the old one and at least
what is needed, rounded up to the allocator's next size: a size class below 32 KiB, whole 8 KiB
pages above. The pool keeps one spare buffer and a stack of others; taking one prefers the spare,
then the most recent; a buffer larger than the pool's limit is not kept.
-/

set_option autoImplicit false

namespace Courier.Bytes

/-- Object sizes the allocator hands out for requests up to 32 KiB. -/
def sizeClasses : List Nat :=
  [0, 8, 16, 24, 32, 48, 64, 80, 96, 112, 128, 144, 160, 176, 192, 208, 224, 240, 256, 288, 320, 352,
   384, 416, 448, 480, 512, 576, 640, 704, 768, 896, 1024, 1152, 1280, 1408, 1536, 1792, 2048, 2304,
   2688, 3072, 3200, 3456, 4096, 4864, 5376, 6144, 6528, 6784, 6912, 8192, 9472, 9728, 10240, 10880,
   12288, 13568, 14336, 16384, 18432, 19072, 20480, 21760, 24576, 27264, 28672, 32768]

/-- The page size of large allocations. -/
def pageSize : Nat := 8192

/-- The size the allocator really gives for a request of `n` bytes. -/
def allocationSize (n : Nat) : Nat :=
  match sizeClasses.find? (n ≤ ·) with
  | some c => c
  | none => (n + pageSize - 1) / pageSize * pageSize

/-- The first block of a buffer that never had storage. -/
def firstBlock : Nat := 64

/-- A buffer: bytes held, room for them, and whether storage was ever allocated. -/
structure Buffer where
  length : Nat
  capacity : Nat
  backed : Bool

/-- A buffer without storage. -/
def Buffer.empty : Buffer := ⟨0, 0, false⟩

/-- An empty buffer with storage of exactly `cap` bytes. -/
def Buffer.withCapacity (cap : Nat) : Buffer := ⟨0, cap, true⟩

/-- The capacity after making room for `n` more bytes. -/
def Buffer.grownCapacity (b : Buffer) (n : Nat) : Nat :=
  if n ≤ b.capacity - b.length then b.capacity
  else if !b.backed && n ≤ firstBlock then firstBlock
  else allocationSize (max (b.length + n) (2 * b.capacity))

/-- Appends `n` bytes. -/
def Buffer.write (b : Buffer) (n : Nat) : Buffer :=
  ⟨b.length + n, b.grownCapacity n, b.backed || 0 < n⟩

/-- Empties a buffer, keeping its storage. -/
def Buffer.reset (b : Buffer) : Buffer := { b with length := 0 }

/-- A pool of buffers with a limit on the capacity of those it keeps. -/
structure Pool where
  limit : Int
  spare : Option Buffer
  stack : List Buffer

/-- The limit of the shared pool. -/
def defaultLimit : Nat := 64 * 1024

/-- An empty pool. -/
def Pool.create (limit : Int) : Pool := ⟨limit, none, []⟩

/-- Takes a buffer, emptied: the spare, else the most recent, else a new one. -/
def Pool.take (p : Pool) : Buffer × Pool :=
  match p.spare, p.stack with
  | some b, _ => (b.reset, { p with spare := none })
  | none, b :: rest => (b.reset, { p with stack := rest })
  | none, [] => (Buffer.empty, p)

/-- Gives a buffer back; says whether the pool kept it. -/
def Pool.give (p : Pool) (b : Buffer) : Bool × Pool :=
  if p.limit < b.capacity then (false, p)
  else
    match p.spare with
    | none => (true, { p with spare := some b })
    | some _ => (true, { p with stack := b :: p.stack })

end Courier.Bytes
