/-!
Timestamps as the host's clock library keeps them. A timestamp is made from milliseconds since
the epoch and read back as milliseconds. Made, it is an instant: whole seconds since the start of
year 1 and nanoseconds within the second. The milliseconds are split by truncating division, and
a negative remainder borrows one second so that the nanoseconds are never negative. Read back,
the seconds since the epoch are multiplied by a thousand and the whole milliseconds of the
nanoseconds added, all in 64-bit arithmetic that wraps around.
-/

set_option autoImplicit false

namespace Courier.Amqp

/-- Nanoseconds in a second. -/
def nanosPerSecond : Int64 := 1000000000

/-- Seconds from the start of year 1 to the epoch. -/
def unixToInternal : Int64 := 62135596800

/-- Seconds from the epoch back to the start of year 1. -/
def internalToUnix : Int64 := -unixToInternal

theorem toInt_nanosPerSecond : nanosPerSecond.toInt = 1000000000 := by decide

theorem toInt_zero_int64 : (0 : Int64).toInt = 0 := rfl

/-- The truncating remainder by a positive number lies on the side of zero of the dividend and
below the divisor in size; quotient and remainder give the dividend back. -/
theorem tdiv_tmod_bounds (x : Int) {d : Int} (hd : 0 < d) :
    x.tdiv d * d + x.tmod d = x ∧ (0 ≤ x → 0 ≤ x.tmod d ∧ x.tmod d < d) ∧
      (x ≤ 0 → -d < x.tmod d ∧ x.tmod d ≤ 0) := by
  refine ⟨Int.tdiv_mul_add_tmod x d, fun h => ⟨Int.tmod_nonneg d h, Int.tmod_lt_of_pos x hd⟩,
    fun h => ⟨Int.lt_tmod_of_pos x hd, ?_⟩⟩
  have := Int.tmod_nonneg d (Int.neg_nonneg_of_nonpos h)
  rw [Int.neg_tmod] at this
  omega

/-- The whole seconds in a count of nanoseconds lie between the count and zero. -/
theorem tdiv_mul_between (x : Int) :
    min x 0 ≤ x.tdiv 1000000000 * 1000000000 ∧ x.tdiv 1000000000 * 1000000000 ≤ max x 0 := by
  obtain ⟨hsum, hpos, hneg⟩ := tdiv_tmod_bounds x (d := 1000000000) (by decide)
  by_cases h : 0 ≤ x
  · have := hpos h; omega
  · have := hneg (by omega); omega

/-- The whole seconds of a count of nanoseconds, as nanoseconds: no wrap-around, since they are
no larger than the count. -/
theorem toInt_div_mul_nanos (nsec : Int64) :
    (nsec / nanosPerSecond * nanosPerSecond).toInt = nsec.toInt.tdiv 1000000000 * 1000000000 := by
  have hlo := nsec.le_toInt
  have hhi := nsec.toInt_lt
  have hb := tdiv_mul_between nsec.toInt
  rw [Int64.toInt_mul, Int64.toInt_div_of_ne_right _ _ (by decide), toInt_nanosPerSecond]
  exact Int.bmod_eq_of_le (by omega) (by omega)

/-- What is left of a count of nanoseconds once its whole seconds are taken out is its truncating
remainder. -/
theorem toInt_sub_div_mul_nanos (nsec : Int64) :
    (nsec - nsec / nanosPerSecond * nanosPerSecond).toInt = nsec.toInt.tmod 1000000000 := by
  have hsum := Int.tdiv_mul_add_tmod nsec.toInt 1000000000
  have hlo := Int.lt_tmod_of_pos nsec.toInt (b := 1000000000) (by decide)
  have hhi := Int.tmod_lt_of_pos nsec.toInt (b := 1000000000) (by decide)
  rw [Int64.toInt_sub, toInt_div_mul_nanos,
    show nsec.toInt - nsec.toInt.tdiv 1000000000 * 1000000000 = nsec.toInt.tmod 1000000000 by omega]
  exact Int.bmod_eq_of_le (by omega) (by omega)

/-- Nanoseconds that came out negative borrow one second. -/
def borrow (sec nsec : Int64) : Int64 × Int64 :=
  if nsec < 0 then (sec - 1, nsec + nanosPerSecond) else (sec, nsec)

/-- Seconds and nanoseconds with the nanoseconds brought into `[0, 10⁹)`: whole seconds move out
of the nanoseconds by truncating division, and one more when what is left is negative. -/
def normalize (sec nsec : Int64) : Int64 × Int64 :=
  if nsec < 0 || nanosPerSecond ≤ nsec then
    borrow (sec + nsec / nanosPerSecond) (nsec - nsec / nanosPerSecond * nanosPerSecond)
  else (sec, nsec)

theorem borrow_range (sec : Int64) {nsec : Int64} (h1 : -1000000000 < nsec.toInt)
    (h2 : nsec.toInt < 1000000000) :
    0 ≤ (borrow sec nsec).2.toInt ∧ (borrow sec nsec).2.toInt < 1000000000 := by
  unfold borrow
  split
  · rename_i hlt
    rw [Int64.lt_iff_toInt_lt, toInt_zero_int64] at hlt
    show 0 ≤ (nsec + nanosPerSecond).toInt ∧ (nsec + nanosPerSecond).toInt < 1000000000
    rw [Int64.toInt_add, toInt_nanosPerSecond, Int.bmod_eq_of_le] <;> omega
  · rename_i hge
    rw [Int64.lt_iff_toInt_lt, toInt_zero_int64] at hge
    show 0 ≤ nsec.toInt ∧ nsec.toInt < 1000000000
    omega

/-- The nanoseconds come out of `normalize` in `[0, 10⁹)`, whatever they went in as. -/
theorem normalize_range (sec nsec : Int64) :
    0 ≤ (normalize sec nsec).2.toInt ∧ (normalize sec nsec).2.toInt < 1000000000 := by
  unfold normalize
  split
  · refine borrow_range _ ?_ ?_ <;> rw [toInt_sub_div_mul_nanos]
    · exact Int.lt_tmod_of_pos _ (by decide)
    · exact Int.tmod_lt_of_pos _ (by decide)
  · rename_i hin
    simp only [Bool.or_eq_true, decide_eq_true_eq, not_or, Int64.not_lt, Int64.not_le] at hin
    rw [Int64.le_iff_toInt_le, Int64.lt_iff_toInt_lt, toInt_nanosPerSecond, toInt_zero_int64] at hin
    omega

/-- An instant as the clock library keeps one made from seconds since the epoch: whole seconds
since the start of year 1, and nanoseconds within the second. -/
structure Instant where
  sec : Int64
  nsec : Int32
  nsec_range : 0 ≤ nsec.toInt ∧ nsec.toInt < 1000000000

namespace Instant

/-- The instant `sec` seconds and `nsec` nanoseconds after the epoch. -/
def unix (sec nsec : Int64) : Instant :=
  ⟨(normalize sec nsec).1 + unixToInternal, (normalize sec nsec).2.toInt32, by
    have h := normalize_range sec nsec
    rw [Int64.toInt_toInt32, Int.bmod_eq_of_le (by omega) (by omega)]
    exact h⟩

@[simp] theorem unix_sec (sec nsec : Int64) :
    (unix sec nsec).sec = (normalize sec nsec).1 + unixToInternal := rfl

@[simp] theorem unix_nsec (sec nsec : Int64) :
    (unix sec nsec).nsec = (normalize sec nsec).2.toInt32 := rfl

/-- The instant a count of milliseconds since the epoch stands for. -/
def ofUnixMilli (ms : Int64) : Instant := unix (ms / 1000) (ms % 1000 * 1000000)

/-- The milliseconds since the epoch of an instant: its seconds since the epoch times a thousand,
plus the whole milliseconds of its nanoseconds. -/
def unixMilli (t : Instant) : Int64 := (t.sec + internalToUnix) * 1000 + t.nsec.toInt64 / 1000000

end Instant

end Courier.Amqp
