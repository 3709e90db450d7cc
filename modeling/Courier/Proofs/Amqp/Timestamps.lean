import Courier.Amqp.Timestamp

/-!
# Timestamps keep their milliseconds

A timestamp value of the codec carries milliseconds since the epoch; the clock library turns
them into an instant and back. The milliseconds are split by truncating division into seconds and
a remainder that is negative for negative counts not a multiple of a thousand; the remainder, as
nanoseconds, then borrows one second. Read back, seconds times a thousand plus the whole
milliseconds of the nanoseconds give the count again, in 64-bit arithmetic that wraps around: at
the most negative counts the seconds times a thousand leave the 64-bit range, and the added
milliseconds bring the sum back.

- `Instant.normalize_of_range`, `Instant.normalize_of_neg`: nanoseconds already in range stay,
  and nanoseconds in `(-10⁹, 0)` borrow one second;
- `Instant.ofUnixMilli_parts`: the instant of a count holds seconds since the epoch `s` and
  nanoseconds whose whole milliseconds, added to `s` thousands, give the count back;
- `Instant.unixMilli_ofUnixMilli`: every count of milliseconds, the extremes included, reads
  back as itself.
-/

set_option autoImplicit false

namespace Courier.Amqp

/-- Division of a 64-bit count by a positive constant truncates; it never wraps. -/
theorem toInt_div_of_pos (x c : Int64) (hc : 0 < c.toInt) : (x / c).toInt = x.toInt.tdiv c.toInt :=
  Int64.toInt_div_of_ne_right x c fun h => by rw [h] at hc; exact absurd hc (by decide)

theorem toInt_thousand : (1000 : Int64).toInt = 1000 := by decide

/-- A count between `-2⁶³` and `2⁶³` is kept by the wrap-around of 64-bit arithmetic. -/
theorem bmod_int64 {x : Int} (h1 : -9223372036854775808 ≤ x) (h2 : x < 9223372036854775808) :
    x.bmod 18446744073709551616 = x :=
  Int.bmod_eq_of_le (by omega) (by omega)

/-- Quotient and remainder by a thousand give a 64-bit count back, wrap-around included. -/
theorem div_thousand_add_mod (ms : Int64) : ms / 1000 * 1000 + ms % 1000 = ms := by
  apply Int64.toInt_inj.mp
  have hms := Int.tdiv_mul_add_tmod ms.toInt 1000
  rw [Int64.toInt_add, Int64.toInt_mul, toInt_div_of_pos _ _ (by decide), Int64.toInt_mod,
    toInt_thousand, Int.bmod_add_bmod, hms]
  exact bmod_int64 ms.le_toInt ms.toInt_lt

namespace Instant

/-- A 64-bit count of nanoseconds in range is kept by the 32-bit field of an instant. -/
theorem toInt64_toInt32 (x : Int64) (h1 : 0 ≤ x.toInt) (h2 : x.toInt < 1000000000) :
    x.toInt32.toInt64 = x := by
  apply Int64.toInt_inj.mp
  rw [Int32.toInt_toInt64, Int64.toInt_toInt32]
  exact Int.bmod_eq_of_le (by omega) (by omega)

/-- Nanoseconds already in `[0, 10⁹)` are left as they are. -/
theorem normalize_of_range (sec nsec : Int64) (h1 : 0 ≤ nsec.toInt)
    (h2 : nsec.toInt < 1000000000) : normalize sec nsec = (sec, nsec) := by
  unfold normalize
  rw [if_neg]
  simp only [Bool.or_eq_true, decide_eq_true_eq, not_or, Int64.le_iff_toInt_le,
    Int64.lt_iff_toInt_lt, toInt_zero_int64, toInt_nanosPerSecond]
  omega

/-- Nanoseconds in `(-10⁹, 0)` hold no whole second and borrow one. -/
theorem normalize_of_neg (sec nsec : Int64) (h1 : -1000000000 < nsec.toInt)
    (h2 : nsec.toInt < 0) : normalize sec nsec = (sec - 1, nsec + nanosPerSecond) := by
  have hlt : nsec < 0 := by rw [Int64.lt_iff_toInt_lt, toInt_zero_int64]; exact h2
  -- no whole second: the truncating quotient of the nanoseconds is zero
  have hzero : nsec / nanosPerSecond = 0 := by
    apply Int64.toInt_inj.mp
    have hb := tdiv_mul_between nsec.toInt
    rw [toInt_div_of_pos _ _ (by decide), toInt_nanosPerSecond, toInt_zero_int64]
    omega
  unfold normalize borrow
  rw [if_pos (by simp [hlt]), hzero]
  simp [hlt]

/-- The instant of a count of milliseconds holds seconds since the epoch `s`, and nanoseconds
whose whole milliseconds added to `s` thousands give the count back. -/
theorem ofUnixMilli_parts (ms : Int64) :
    ∃ s : Int64, (ofUnixMilli ms).sec = s + unixToInternal ∧
      s * 1000 + (ofUnixMilli ms).nsec.toInt64 / 1000000 = ms := by
  have hr : (ms % 1000).toInt = ms.toInt.tmod 1000 := by rw [Int64.toInt_mod]; rfl
  have hlo := Int.lt_tmod_of_pos ms.toInt (b := 1000) (by decide)
  have hhi := Int.tmod_lt_of_pos ms.toInt (b := 1000) (by decide)
  have hmillion : (1000000 : Int64).toInt = 1000000 := by decide
  -- the remainder as nanoseconds: no wrap-around
  have hns : (ms % 1000 * 1000000).toInt = ms.toInt.tmod 1000 * 1000000 := by
    rw [Int64.toInt_mul, hr, hmillion]
    exact bmod_int64 (by omega) (by omega)
  rw [ofUnixMilli, unix_sec, unix_nsec]
  by_cases hsign : 0 ≤ ms.toInt.tmod 1000
  · -- a remainder of no sign: seconds and nanoseconds as the division gave them
    rw [normalize_of_range _ (ms % 1000 * 1000000) (by omega) (by omega)]
    refine ⟨ms / 1000, rfl, ?_⟩
    rw [toInt64_toInt32 (ms % 1000 * 1000000) (by omega) (by omega)]
    have hdiv : ms % 1000 * 1000000 / 1000000 = ms % 1000 := by
      apply Int64.toInt_inj.mp
      rw [toInt_div_of_pos _ _ (by decide), hns, hmillion, hr]
      exact Int.mul_tdiv_cancel _ (by decide)
    rw [hdiv]
    exact div_thousand_add_mod ms
  · -- a negative remainder borrows a second: one second fewer, a second more of nanoseconds
    rw [normalize_of_neg _ (ms % 1000 * 1000000) (by omega) (by omega)]
    refine ⟨ms / 1000 - 1, rfl, ?_⟩
    have hns' : (ms % 1000 * 1000000 + nanosPerSecond).toInt =
        (ms.toInt.tmod 1000 + 1000) * 1000000 := by
      rw [Int64.toInt_add, hns, toInt_nanosPerSecond]
      rw [bmod_int64 (by omega) (by omega)]
      omega
    rw [toInt64_toInt32 (ms % 1000 * 1000000 + nanosPerSecond) (by omega) (by omega)]
    have hdiv : (ms % 1000 * 1000000 + nanosPerSecond) / 1000000 = ms % 1000 + 1000 := by
      apply Int64.toInt_inj.mp
      rw [toInt_div_of_pos _ _ (by decide), hns', hmillion, Int.mul_tdiv_cancel _ (by decide),
        Int64.toInt_add, hr, toInt_thousand, bmod_int64 (by omega) (by omega)]
    rw [hdiv]
    calc (ms / 1000 - 1) * 1000 + (ms % 1000 + 1000) = ms / 1000 * 1000 + ms % 1000 := by grind
      _ = ms := div_thousand_add_mod ms

/-- Timestamps keep their milliseconds. For every 64-bit count of milliseconds since the epoch,
including the most negative and most positive and negative counts that are not whole seconds,
the instant the count stands for reads back as the same count. -/
theorem unixMilli_ofUnixMilli (ms : Int64) : (ofUnixMilli ms).unixMilli = ms := by
  obtain ⟨s, hs, hms⟩ := ofUnixMilli_parts ms
  unfold unixMilli
  rw [hs, show s + unixToInternal + internalToUnix = s by unfold internalToUnix; grind]
  exact hms

end Instant

end Courier.Amqp
