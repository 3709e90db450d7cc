import Courier.Amqp.Encode
import Mathlib.Tactic.Ring
import Mathlib.Tactic.Positivity

/-!
# Numbers as big-endian bytes

The fixed-width fields of the codec hold a number as its big-endian bytes, and a signed number
as the bytes of its two's complement. Reading the bytes back gives the number modulo the range
the width holds, so every integer of a machine type written at its own width reads back as
itself, and so does a small integer written in one byte.

- `ofBigEndian_bigEndian`: the bytes of a number read back as the number modulo the width;
- `ofBigEndian_lt`: bytes stand for a number their width holds;
- `ofBigEndian_twos`: two's complement bytes read back as the integer modulo the width;
- `Int8.ofNat_ofBigEndian_twos` and its siblings: each signed type reads back what it wrote.
-/

set_option autoImplicit false

namespace Courier.Bytes

/-- Reading on after some bytes scales what was read so far by the bytes still to come. -/
theorem foldl_digits (a : Nat) (l : List UInt8) :
    l.foldl (fun acc b => acc * 256 + b.toNat) a = a * 256 ^ l.length + ofBigEndian l := by
  induction l generalizing a with
  | nil => simp [ofBigEndian]
  | cons b l ih =>
    simp only [List.foldl_cons, ofBigEndian, List.length_cons]
    rw [ih, ih (0 * 256 + b.toNat), Nat.pow_succ]
    ring

theorem ofBigEndian_singleton (b : UInt8) : ofBigEndian [b] = b.toNat := by
  simp [ofBigEndian]

/-- The bytes of a number read back as the number modulo the range of the width. -/
@[simp] theorem ofBigEndian_bigEndian (w x : Nat) : ofBigEndian (bigEndian w x) = x % 256 ^ w := by
  induction w with
  | zero => simp [bigEndian, ofBigEndian, Nat.mod_one]
  | succ w ih =>
    have byte : (x / 256 ^ w % 256).toUInt8.toNat = x / 256 ^ w % 256 := by simp [Nat.toUInt8]
    rw [ofBigEndian, bigEndian, List.foldl_cons, Nat.zero_mul, Nat.zero_add, foldl_digits,
      length_bigEndian, ih, Nat.pow_eq, byte, Nat.pow_succ, Nat.mod_mul]
    ring

theorem ofBigEndian_bigEndian_of_lt {w x : Nat} (h : x < 256 ^ w) :
    ofBigEndian (bigEndian w x) = x := by
  rw [ofBigEndian_bigEndian, Nat.mod_eq_of_lt h]

/-- Bytes stand for a number below the range their count holds. -/
theorem ofBigEndian_lt (l : List UInt8) : ofBigEndian l < 256 ^ l.length := by
  induction l with
  | nil => simp [ofBigEndian]
  | cons b l ih =>
    have hb : b.toNat < 256 := b.toNat_lt
    rw [ofBigEndian, List.foldl_cons, Nat.zero_mul, Nat.zero_add, foldl_digits, List.length_cons,
      Nat.pow_succ]
    calc b.toNat * 256 ^ l.length + ofBigEndian l
        < b.toNat * 256 ^ l.length + 256 ^ l.length := Nat.add_lt_add_left ih _
      _ = (b.toNat + 1) * 256 ^ l.length := by ring
      _ ≤ 256 ^ l.length * 256 := by rw [Nat.mul_comm]; exact Nat.mul_le_mul_left _ hb

end Courier.Bytes

namespace Courier.Amqp

open Courier.Bytes

@[simp] theorem length_twos (w : Nat) (i : Int) : (twos w i).length = w := by
  simp [twos]

/-- Two's complement bytes read back as the integer modulo the range of the width. -/
theorem ofBigEndian_twos (w : Nat) (i : Int) :
    (ofBigEndian (twos w i) : Int) = i % ((256 ^ w : Nat) : Int) := by
  have hpow : Int.pow 2 (8 * w) = ((256 ^ w : Nat) : Int) := by
    show (2 : Int) ^ (8 * w) = _
    rw [pow_mul]; norm_num
  have hM : (0 : Int) < ((256 ^ w : Nat) : Int) := by positivity
  have h0 := Int.emod_nonneg i hM.ne'
  have h1 := Int.emod_lt_of_pos i hM
  rw [twos, ofBigEndian_bigEndian, hpow, Nat.mod_eq_of_lt (by omega), Int.toNat_of_nonneg h0]

/-- An integer in the signed range of the width reads back as itself. -/
theorem bmod_ofBigEndian_twos (w : Nat) (i : Int) (h1 : -(((256 ^ w : Nat) : Int) / 2) ≤ i)
    (h2 : i < (((256 ^ w : Nat) : Int) + 1) / 2) :
    (ofBigEndian (twos w i) : Int).bmod (256 ^ w) = i := by
  rw [ofBigEndian_twos, Int.emod_bmod, Int.bmod_eq_of_le h1 h2]

@[simp] theorem Int8.ofNat_ofBigEndian_twos (n : Int8) : Int8.ofNat (ofBigEndian (twos 1 n.toInt)) = n := by
  apply Int8.toInt_inj.mp
  have := bmod_ofBigEndian_twos 1 n.toInt (by have := n.le_toInt; simp at *; omega)
    (by have := n.toInt_lt; simp at *; omega)
  simpa using this

@[simp] theorem Int16.ofNat_ofBigEndian_twos (n : Int16) : Int16.ofNat (ofBigEndian (twos 2 n.toInt)) = n := by
  apply Int16.toInt_inj.mp
  have := bmod_ofBigEndian_twos 2 n.toInt (by have := n.le_toInt; simp at *; omega)
    (by have := n.toInt_lt; simp at *; omega)
  simpa using this

@[simp] theorem Int32.ofNat_ofBigEndian_twos (n : Int32) : Int32.ofNat (ofBigEndian (twos 4 n.toInt)) = n := by
  apply Int32.toInt_inj.mp
  have := bmod_ofBigEndian_twos 4 n.toInt (by have := n.le_toInt; simp at *; omega)
    (by have := n.toInt_lt; simp at *; omega)
  simpa using this

@[simp] theorem Int64.ofNat_ofBigEndian_twos (n : Int64) : Int64.ofNat (ofBigEndian (twos 8 n.toInt)) = n := by
  apply Int64.toInt_inj.mp
  have := bmod_ofBigEndian_twos 8 n.toInt (by have := n.le_toInt; simp at *; omega)
    (by have := n.toInt_lt; simp at *; omega)
  simpa using this

/-- A 32-bit integer in the range of one signed byte reads back from that byte. -/
theorem Int32.ofNat_ofBigEndian_twos_small {n : Int32} (h1 : -128 ≤ n.toInt) (h2 : n.toInt ≤ 127) :
    (Int8.ofNat (ofBigEndian (twos 1 n.toInt))).toInt32 = n := by
  apply Int32.toInt_inj.mp
  have := bmod_ofBigEndian_twos 1 n.toInt (by simp; omega) (by simp; omega)
  simpa using this

/-- A 64-bit integer in the range of one signed byte reads back from that byte. -/
theorem Int64.ofNat_ofBigEndian_twos_small {n : Int64} (h1 : -128 ≤ n.toInt) (h2 : n.toInt ≤ 127) :
    (Int8.ofNat (ofBigEndian (twos 1 n.toInt))).toInt64 = n := by
  apply Int64.toInt_inj.mp
  have := bmod_ofBigEndian_twos 1 n.toInt (by simp; omega) (by simp; omega)
  simpa using this

end Courier.Amqp
