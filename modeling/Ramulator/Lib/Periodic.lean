/-
# Ramulator.Lib.Periodic — counters that run ahead by a period.

Something that happens at an offset and then once in each period can keep the next time at which it is due,
and move that on by a period when it comes (`next`). For a clock that advances by one it is then due
(`Due`) exactly once in every stretch of a period's length.
-/
import Mathlib.Algebra.Order.Ring.Int
import Mathlib.Tactic.Linarith
import Mathlib.Tactic.Ring

namespace Ramulator.Lib.Periodic

/-- Time `t` is a number of periods away from the offset. -/
def Due (period offset t : Int) : Prop := (t - offset) % period = 0

instance (period offset t : Int) : Decidable (Due period offset t) := inferInstanceAs (Decidable (_ = _))

/-- The first such time after `t`. -/
def next (period offset t : Int) : Int := t - (t - offset) % period + period

variable {period offset t : Int}

theorem succ_emod (hperiod : 0 < period) (x : Int) :
    (x + 1) % period = if x % period + 1 = period then 0 else x % period + 1 := by
  have hdiv := Int.mul_ediv_add_emod x period
  have hnonneg := Int.emod_nonneg x hperiod.ne'
  have hlt := Int.emod_lt_of_pos x hperiod
  split
  · rename_i hlast
    rw [show x + 1 = period * (x / period + 1) by rw [mul_add, mul_one]; omega]
    exact Int.mul_emod_right ..
  · rename_i hnot
    rw [show x + 1 = x % period + 1 + period * (x / period) by omega, Int.add_mul_emod_self_left]
    exact Int.emod_eq_of_lt (by omega) (by omega)

theorem due_succ_iff (hperiod : 0 < period) (offset t : Int) : Due period offset (t + 1) ↔ t + 1 = next period offset t := by
  unfold Due next
  have hnonneg := Int.emod_nonneg (t - offset) hperiod.ne'
  rw [show t + 1 - offset = t - offset + 1 by ring, succ_emod hperiod]
  split <;> omega

theorem next_succ (hperiod : 0 < period) (offset t : Int) :
    next period offset (t + 1) =
      if t + 1 = next period offset t then next period offset t + period else next period offset t := by
  unfold next
  rw [show t + 1 - offset = t - offset + 1 by ring, succ_emod hperiod]
  split_ifs <;> omega

/-- At the start an offset within the first period is due next. -/
theorem next_zero (hpos : 0 < offset) (hle : offset ≤ period) : next period offset 0 = offset := by
  unfold next
  rcases hle.lt_or_eq with hlt | rfl
  · rw [show (0 : Int) - offset = period - offset + period * (-1) by ring, Int.add_mul_emod_self_left,
      Int.emod_eq_of_lt (by omega) (by omega)]
    ring
  · rw [show (0 : Int) - offset = offset * (-1) by ring, Int.mul_emod_right]
    ring

theorem lt_next (hperiod : 0 < period) : t < next period offset t := by
  have hlt := Int.emod_lt_of_pos (t - offset) hperiod
  unfold next
  omega

theorem next_le (hperiod : 0 < period) : next period offset t ≤ t + period := by
  have hnonneg := Int.emod_nonneg (t - offset) hperiod.ne'
  unfold next
  omega

theorem due_next (period offset t : Int) : Due period offset (next period offset t) := by
  have hdiv := Int.mul_ediv_add_emod (t - offset) period
  unfold Due next
  rw [show t - (t - offset) % period + period - offset = period * ((t - offset) / period + 1) by
    rw [mul_add, mul_one]
    omega]
  exact Int.mul_emod_right ..

/-- Two times at which the same is due are whole periods apart. -/
theorem Due.dvd_sub {u : Int} (ht : Due period offset t) (hu : Due period offset u) : period ∣ t - u := by
  rw [show t - u = (t - offset) - (u - offset) by ring]
  exact Int.dvd_sub (Int.dvd_of_emod_eq_zero ht) (Int.dvd_of_emod_eq_zero hu)

/-- A stretch of a period holds one time, the next one. -/
theorem Due.eq_next (hperiod : 0 < period) {u : Int} (hu : Due period offset u) (hlt : t < u)
    (hle : u ≤ t + period) : u = next period offset t := by
  have hgap := hu.dvd_sub (due_next period offset t)
  have hfirst : t < next period offset t := lt_next hperiod
  have hlast : next period offset t ≤ t + period := next_le hperiod
  have hzero : u - next period offset t = 0 := Int.eq_zero_of_abs_lt_dvd hgap (by rw [abs_lt]; omega)
  omega

/-- Offsets that are spread over a period keep their distance from each other at all times. -/
theorem spread_le {interval : Int} {n i j : Nat} {u : Int} (hinterval : 0 < interval)
    (hfits : interval * n ≤ period) (hi : i < n) (hj : j < n) (ht : Due period ((i + 1) * interval) t)
    (hu : Due period ((j + 1) * interval) u) (hne : i ≠ j ∨ t ≠ u) : interval ≤ |t - u| := by
  obtain ⟨p, hp⟩ := Int.dvd_of_emod_eq_zero ht
  obtain ⟨q, hq⟩ := Int.dvd_of_emod_eq_zero hu
  have hstep : ∀ {c x y : Int}, 0 < c → x < y → c * x + c ≤ c * y := by
    intro c x y hc hxy
    have hmul : c * (x + 1) ≤ c * y := mul_le_mul_of_nonneg_left hxy hc.le
    rwa [mul_add, mul_one] at hmul
  have hi0 : 0 ≤ interval * (i : Int) := mul_nonneg hinterval.le (Int.natCast_nonneg i)
  have hj0 : 0 ≤ interval * (j : Int) := mul_nonneg hinterval.le (Int.natCast_nonneg j)
  have hin := hstep hinterval (Int.ofNat_lt.mpr hi)
  have hjn := hstep hinterval (Int.ofNat_lt.mpr hj)
  have hperiod : 0 < period := by linarith
  have hsub : t - u = period * p - period * q + (interval * i - interval * j) := by linarith
  rcases lt_trichotomy p q with hpq | rfl | hpq
  · have hfar := hstep hperiod hpq
    exact le_abs.mpr (.inr (by linarith))
  · -- in one period the offsets are an interval apart
    rcases lt_trichotomy i j with hij | rfl | hij
    · have hapart := hstep hinterval (Int.ofNat_lt.mpr hij)
      exact le_abs.mpr (.inr (by linarith))
    · have heq : t = u := by linarith
      exact absurd heq (hne.resolve_left fun h => h rfl)
    · have hapart := hstep hinterval (Int.ofNat_lt.mpr hij)
      exact le_abs.mpr (.inl (by linarith))
  · have hfar := hstep hperiod hpq
    exact le_abs.mpr (.inl (by linarith))

end Ramulator.Lib.Periodic
