/-!
Numbers as big-endian bytes: the most significant byte first, a fixed count of bytes, the
number taken modulo the range that many bytes hold. Bytes are appended to a list, or put in place
into an array by shifting a machine word.
-/

set_option autoImplicit false

namespace Courier.Bytes

/-- The low `width` bytes of `x`, most significant first. -/
def bigEndian : Nat → Nat → List UInt8
  | 0, _ => []
  | width + 1, x => (x / Nat.pow 256 width % 256).toUInt8 :: bigEndian width x

/-- The number that big-endian bytes stand for. -/
def ofBigEndian (bs : List UInt8) : Nat :=
  bs.foldl (fun acc b => acc * 256 + b.toNat) 0

/-- Writes a 32-bit number into the four bytes of `b` from `i` on, most significant first, by
shifting each byte down. -/
def putUInt32 (b : Array UInt8) (i : Nat) (v : UInt32) : Array UInt8 :=
  let b := b.set! i (v >>> 24).toUInt8
  let b := b.set! (i + 1) (v >>> 16).toUInt8
  let b := b.set! (i + 2) (v >>> 8).toUInt8
  b.set! (i + 3) v.toUInt8

/-- Writes a 16-bit number into the two bytes of `b` from `i` on, most significant first. -/
def putUInt16 (b : Array UInt8) (i : Nat) (v : UInt16) : Array UInt8 :=
  let b := b.set! i (v >>> 8).toUInt8
  b.set! (i + 1) v.toUInt8

@[simp] theorem length_bigEndian (width x : Nat) : (bigEndian width x).length = width := by
  induction width with
  | zero => rfl
  | succ w ih => simp [bigEndian, ih]

end Courier.Bytes
