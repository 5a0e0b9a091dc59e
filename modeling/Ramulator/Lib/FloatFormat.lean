/-
# Ramulator.Lib.FloatFormat — binary floating-point numbers and their shortest decimals.

A format is a precision and a range of exponents. A magnitude is rounded to the nearest number of a
format, to the even one where two are equally near. The shortest decimal of a number is the one that a
language prints: with the fewest digits among those that round back to the number, and of these the
nearest.

Rounding keeps the order, `nearest_mono`. Printing and reading is the identity for every number,
`ofRat_shortest`. Nothing is shown of how many digits are needed: where the search ends without an answer,
the exact decimal takes its place.
-/
import Mathlib.Data.Int.Log
import Mathlib.Data.Rat.Floor
import Mathlib.Algebra.Order.Field.Rat
import Mathlib.Algebra.Order.Field.Power
import Mathlib.Tactic.Ring
import Mathlib.Tactic.Linarith
import Mathlib.Tactic.Positivity
import Mathlib.Tactic.FieldSimp

namespace Ramulator.Lib

/-! ## Numbers of a format -/

/-- Significands of `precision` bits, and the exponents of their last bit. -/
structure FloatFormat where
  precision : Nat
  emin : Int
  emax : Int
  precision_pos : 0 < precision
  emin_le_emax : emin ≤ emax

/-- The format of double precision. -/
def binary64 : FloatFormat where
  precision := 53
  emin := -1074
  emax := 971
  precision_pos := Nat.succ_pos 52
  emin_le_emax := by decide

/-- The format of single precision. -/
def binary32 : FloatFormat where
  precision := 24
  emin := -149
  emax := 104
  precision_pos := Nat.succ_pos 23
  emin_le_emax := by decide

namespace FloatFormat

/-- A finite number. Its significand is as long as it can be, unless the exponent is the least one. -/
structure Finite (fmt : FloatFormat) where
  neg : Bool
  significand : Nat
  exponent : Int
  significand_lt : significand < 2 ^ fmt.precision
  emin_le : fmt.emin ≤ exponent
  le_emax : exponent ≤ fmt.emax
  normal : exponent = fmt.emin ∨ 2 ^ (fmt.precision - 1) ≤ significand
  deriving DecidableEq

inductive Value (fmt : FloatFormat) where
  | finite (x : fmt.Finite)
  | infinite (neg : Bool)
  | nan
  deriving DecidableEq

variable {fmt : FloatFormat}

/-- The value without its sign. -/
def Finite.magnitude (x : fmt.Finite) : ℚ := x.significand * 2 ^ x.exponent

/-- The value. -/
def Finite.toRat (x : fmt.Finite) : ℚ := if x.neg then -x.magnitude else x.magnitude

/-! ## Rounding -/

/-- The natural number next to `x`, the even one of two. -/
def halfEven (x : ℚ) : Nat :=
  let q := ⌊x⌋₊
  if x - q < 1 / 2 then q
  else if 1 / 2 < x - q then q + 1
  else if q % 2 = 0 then q else q + 1

/-- The exponent of the last bit that a magnitude keeps. -/
def lastBit (fmt : FloatFormat) (x : ℚ) : Int := max fmt.emin (Int.log 2 x - (fmt.precision - 1 : Nat))

/-- The significand of a magnitude, before a carry. -/
def rounded (fmt : FloatFormat) (x : ℚ) : Nat := halfEven (x / 2 ^ fmt.lastBit x)

theorem halfEven_natCast (n : Nat) : halfEven n = n := by
  unfold halfEven
  simp

theorem halfEven_le {x : ℚ} {n : Nat} (h : x < n) : halfEven x ≤ n := by
  have hfloor : ⌊x⌋₊ < n ∨ x < 0 := by
    rcases lt_or_ge x 0 with hneg | hpos
    · exact .inr hneg
    · exact .inl ((Nat.floor_lt hpos).mpr h)
  unfold halfEven
  rcases hfloor with hfloor | hneg
  · dsimp only
    split_ifs <;> omega
  · have hzero : ⌊x⌋₊ = 0 := Nat.floor_of_nonpos hneg.le
    rw [hzero]
    dsimp only
    rw [if_pos (by push_cast; linarith)]
    exact Nat.zero_le n

theorem le_halfEven {x : ℚ} {n : Nat} (h : n ≤ x) : n ≤ halfEven x := by
  have hfloor : n ≤ ⌊x⌋₊ := Nat.le_floor h
  unfold halfEven
  dsimp only
  split_ifs <;> omega

theorem scaled_lt (fmt : FloatFormat) {x : ℚ} :
    x / 2 ^ fmt.lastBit x < (2 ^ fmt.precision : Nat) := by
  have hlog : x < 2 ^ (Int.log 2 x + 1) := by
    exact_mod_cast Int.lt_zpow_succ_log_self (b := 2) (by decide) x
  have hle : Int.log 2 x + 1 ≤ fmt.precision + fmt.lastBit x := by
    have hpos := fmt.precision_pos
    unfold lastBit
    omega
  rw [div_lt_iff₀ (by positivity)]
  calc x < 2 ^ (Int.log 2 x + 1) := hlog
    _ ≤ 2 ^ ((fmt.precision : Int) + fmt.lastBit x) := zpow_le_zpow_right₀ (by norm_num) hle
    _ = (2 ^ fmt.precision : Nat) * 2 ^ fmt.lastBit x := by
        rw [zpow_add₀ (by norm_num), zpow_natCast]
        push_cast
        rfl

theorem le_scaled (fmt : FloatFormat) {x : ℚ} (hx : 0 < x) (h : fmt.lastBit x ≠ fmt.emin) :
    (2 ^ (fmt.precision - 1) : Nat) ≤ x / 2 ^ fmt.lastBit x := by
  have hlog : (2 : ℚ) ^ Int.log 2 x ≤ x := by
    exact_mod_cast Int.zpow_log_le_self (b := 2) (by decide) hx
  have heq : ((fmt.precision - 1 : Nat) : Int) + fmt.lastBit x = Int.log 2 x := by
    unfold lastBit at h ⊢
    omega
  rw [le_div_iff₀ (by positivity)]
  calc ((2 ^ (fmt.precision - 1) : Nat) : ℚ) * 2 ^ fmt.lastBit x
      = 2 ^ (((fmt.precision - 1 : Nat) : Int) + fmt.lastBit x) := by
        rw [zpow_add₀ (by norm_num), zpow_natCast]
        push_cast
        rfl
    _ = 2 ^ Int.log 2 x := by rw [heq]
    _ ≤ x := hlog

theorem rounded_le (fmt : FloatFormat) (x : ℚ) : fmt.rounded x ≤ 2 ^ fmt.precision :=
  halfEven_le (scaled_lt fmt)

theorem normal_rounded (fmt : FloatFormat) {x : ℚ} (hx : 0 < x) :
    fmt.lastBit x = fmt.emin ∨ 2 ^ (fmt.precision - 1) ≤ fmt.rounded x := by
  rcases eq_or_ne (fmt.lastBit x) fmt.emin with h | h
  · exact .inl h
  · exact .inr (le_halfEven (le_scaled fmt hx h))

/-- Zero, with a sign. -/
def zero (fmt : FloatFormat) (neg : Bool) : fmt.Finite where
  neg := neg
  significand := 0
  exponent := fmt.emin
  significand_lt := Nat.two_pow_pos _
  emin_le := Int.le_refl _
  le_emax := fmt.emin_le_emax
  normal := .inl rfl

/-- A magnitude rounded to the format. A significand that fills up carries into the exponent, and what
is beyond the greatest exponent is infinite. -/
def ofRat (fmt : FloatFormat) (neg : Bool) (x : ℚ) : fmt.Value :=
  if hx : 0 < x then
    if hcarry : fmt.rounded x < 2 ^ fmt.precision then
      if hmax : fmt.lastBit x ≤ fmt.emax then
        .finite ⟨neg, fmt.rounded x, fmt.lastBit x, hcarry, Int.le_max_left _ _, hmax,
          fmt.normal_rounded hx⟩
      else .infinite neg
    else
      if hmax : fmt.lastBit x + 1 ≤ fmt.emax then
        .finite ⟨neg, 2 ^ (fmt.precision - 1), fmt.lastBit x + 1,
          Nat.pow_lt_pow_right (by decide) (Nat.sub_lt fmt.precision_pos Nat.one_pos),
          Int.le_trans (Int.le_max_left _ _) (Int.le_add_one (Int.le_refl _)), hmax,
          .inr (Nat.le_refl _)⟩
      else .infinite neg
  else .finite (fmt.zero neg)

/-- The sum, rounded. A sum that is zero has a sign only if both summands have it. -/
def Value.add : fmt.Value → fmt.Value → fmt.Value
  | .finite x, .finite y =>
      let r := x.toRat + y.toRat
      if r = 0 then .finite (fmt.zero (x.neg && y.neg)) else fmt.ofRat (r < 0) |r|
  | .infinite a, .infinite b => if a = b then .infinite a else .nan
  | .infinite a, .finite _ => .infinite a
  | .finite _, .infinite b => .infinite b
  | .nan, _ => .nan
  | _, .nan => .nan

/-- The last bit of a number is that of its significand. -/
theorem Finite.lastBit_magnitude (x : fmt.Finite) (hx : x.significand ≠ 0) :
    fmt.lastBit x.magnitude = x.exponent := by
  have hpos : (0 : ℚ) < x.significand := by exact_mod_cast Nat.pos_of_ne_zero hx
  have hmag : 0 < x.magnitude := by
    unfold Finite.magnitude
    positivity
  have hprec := fmt.precision_pos
  have hmin := x.emin_le
  -- the significand has at most `precision` bits
  have hupper : Int.log 2 x.magnitude < fmt.precision + x.exponent := by
    rw [← Int.lt_zpow_iff_log_lt (by decide) hmag]
    have hlt : (x.significand : ℚ) < 2 ^ fmt.precision := by exact_mod_cast x.significand_lt
    push_cast
    rw [zpow_add₀ (by norm_num), zpow_natCast]
    exact mul_lt_mul_of_pos_right hlt (by positivity)
  rcases x.normal with hsub | hnormal
  · unfold lastBit
    omega
  · have hlower : ((fmt.precision - 1 : Nat) : Int) + x.exponent ≤ Int.log 2 x.magnitude := by
      rw [← Int.zpow_le_iff_le_log (by decide) hmag]
      have hle : (2 : ℚ) ^ (fmt.precision - 1) ≤ x.significand := by exact_mod_cast hnormal
      push_cast
      rw [zpow_add₀ (by norm_num), zpow_natCast]
      exact mul_le_mul_of_nonneg_right hle (by positivity)
    unfold lastBit
    omega

/-- A number rounds to itself. -/
theorem Finite.ofRat_magnitude (x : fmt.Finite) : fmt.ofRat x.neg x.magnitude = .finite x := by
  by_cases hx : x.significand = 0
  · have hexp : x.exponent = fmt.emin := by
      rcases x.normal with h | h
      · exact h
      · rw [hx] at h
        exact absurd h (Nat.not_le.mpr (Nat.two_pow_pos _))
    have hzero : x.magnitude = 0 := by
      unfold Finite.magnitude
      rw [hx, Nat.cast_zero, zero_mul]
    have hself : x = fmt.zero x.neg := by
      obtain ⟨neg, significand, exponent, _, _, _, _⟩ := x
      simp only at hx hexp
      subst hx hexp
      rfl
    unfold ofRat
    rw [hzero, dif_neg (lt_irrefl 0), ← hself]
  · have hlast := x.lastBit_magnitude hx
    have hround : fmt.rounded x.magnitude = x.significand := by
      unfold rounded
      rw [hlast]
      unfold Finite.magnitude
      rw [mul_div_assoc, div_self (by positivity), mul_one, halfEven_natCast]
    have hpos : 0 < x.magnitude := by
      have : (0 : ℚ) < x.significand := by exact_mod_cast Nat.pos_of_ne_zero hx
      unfold Finite.magnitude
      positivity
    unfold ofRat
    rw [dif_pos hpos, dif_pos (by rw [hround]; exact x.significand_lt),
      dif_pos (by rw [hlast]; exact x.le_emax)]
    simp only [hround, hlast]

/-! ## Decimals -/

/-- A decimal magnitude: digits, and the exponent of the last one. -/
structure Decimal where
  digits : Nat
  exponent : Int
  deriving DecidableEq

def Decimal.toRat (d : Decimal) : ℚ := d.digits * 10 ^ d.exponent

/-- The two decimals of `n` digits about a magnitude, the nearer one first. -/
def Decimal.about (x : ℚ) (n : Nat) : List Decimal :=
  let e := Int.log 10 x + 1 - n
  let q := ⌊x / 10 ^ e⌋₊
  let below : Decimal := ⟨q, e⟩
  -- the one above may have a digit more, which is a zero
  let above : Decimal := if q + 1 = 10 ^ n then ⟨1, e + n⟩ else ⟨q + 1, e⟩
  if x - below.toRat ≤ above.toRat - x then [below, above] else [above, below]

/-- The decimal that has the value of a number. -/
def Finite.exact (x : fmt.Finite) : Decimal :=
  if 0 ≤ x.exponent then ⟨x.significand * 2 ^ x.exponent.toNat, 0⟩
  else ⟨x.significand * 5 ^ (-x.exponent).toNat, x.exponent⟩

/-- The shortest decimal that rounds to a number, tried with up to `limit` digits. -/
def Finite.shortest (limit : Nat) (x : fmt.Finite) : Decimal :=
  (((List.range limit).flatMap fun n => Decimal.about x.magnitude (n + 1)).find? fun d =>
    decide (fmt.ofRat x.neg d.toRat = .finite x)).getD x.exact

theorem Finite.toRat_exact (x : fmt.Finite) : x.exact.toRat = x.magnitude := by
  unfold Finite.exact Finite.magnitude Decimal.toRat
  split_ifs with h
  · obtain ⟨e, he⟩ := Int.eq_ofNat_of_zero_le h
    rw [he]
    push_cast
    rw [Int.toNat_natCast, zpow_natCast, mul_one]
  · obtain ⟨e, he⟩ := Int.eq_ofNat_of_zero_le (show 0 ≤ -x.exponent by omega)
    have hexp : x.exponent = -(e : Int) := by omega
    rw [hexp, neg_neg, Int.toNat_natCast]
    push_cast
    rw [zpow_neg, zpow_neg, zpow_natCast, zpow_natCast, show (10 : ℚ) = 5 * 2 by norm_num, mul_pow]
    field_simp

/-- The shortest decimal of a number rounds to it. -/
theorem Finite.ofRat_shortest (limit : Nat) (x : fmt.Finite) :
    fmt.ofRat x.neg (x.shortest limit).toRat = .finite x := by
  unfold Finite.shortest
  cases hfind : ((List.range limit).flatMap fun n => Decimal.about x.magnitude (n + 1)).find? fun d =>
      decide (fmt.ofRat x.neg d.toRat = .finite x) with
  | none =>
      show fmt.ofRat x.neg x.exact.toRat = .finite x
      rw [x.toRat_exact, x.ofRat_magnitude]
  | some d =>
      have hround := List.find?_some hfind
      exact of_decide_eq_true hround

/-! ## Rounding keeps the order -/

theorem halfEven_mono {x y : ℚ} (h : x ≤ y) : halfEven x ≤ halfEven y := by
  have hfloor : ⌊x⌋₊ ≤ ⌊y⌋₊ := Nat.floor_mono h
  rcases Nat.lt_or_eq_of_le hfloor with hlt | heq
  · calc halfEven x ≤ ⌊x⌋₊ + 1 := by
          unfold halfEven
          dsimp only
          split_ifs <;> omega
      _ ≤ ⌊y⌋₊ := hlt
      _ ≤ halfEven y := by
          unfold halfEven
          dsimp only
          split_ifs <;> omega
  · unfold halfEven
    rw [← heq]
    dsimp only
    -- with one floor, the fractions decide, and they are in order
    split_ifs with hx hy hy' heven hx' hy hy' heven hy hy' heven <;> first | omega | linarith

theorem lastBit_mono {x y : ℚ} (hx : 0 < x) (h : x ≤ y) : fmt.lastBit x ≤ fmt.lastBit y :=
  max_le_max le_rfl (Int.sub_le_sub_right (Int.log_mono_right hx h) _)

/-- A magnitude, rounded. Its greatest exponent is of no concern here. -/
def nearestAbs (fmt : FloatFormat) (x : ℚ) : ℚ := fmt.rounded x * 2 ^ fmt.lastBit x

theorem nearestAbs_nonneg (x : ℚ) : 0 ≤ fmt.nearestAbs x := by
  unfold nearestAbs
  positivity

theorem nearestAbs_mono {x y : ℚ} (hx : 0 < x) (h : x ≤ y) : fmt.nearestAbs x ≤ fmt.nearestAbs y := by
  unfold nearestAbs
  rcases (@lastBit_mono fmt x y hx h).lt_or_eq with hlt | heq
  · -- the larger one has a full significand, above all that the smaller one can carry to
    have hnormal : (2 ^ (fmt.precision - 1) : Nat) ≤ fmt.rounded y :=
      (fmt.normal_rounded (hx.trans_le h)).resolve_left
        (ne_of_gt ((le_max_left _ _ : fmt.emin ≤ fmt.lastBit x).trans_lt hlt))
    have hprecision : fmt.precision - 1 + 1 = fmt.precision := Nat.sub_add_cancel fmt.precision_pos
    calc (fmt.rounded x : ℚ) * 2 ^ fmt.lastBit x
        ≤ (2 ^ fmt.precision : Nat) * 2 ^ fmt.lastBit x := by
          gcongr
          exact_mod_cast fmt.rounded_le x
      _ = (2 ^ (fmt.precision - 1) : Nat) * 2 ^ (fmt.lastBit x + 1) := by
          rw [zpow_add_one₀ (by norm_num), ← hprecision, Nat.add_sub_cancel, pow_succ]
          push_cast
          ring
      _ ≤ fmt.rounded y * 2 ^ fmt.lastBit y := by
          gcongr
          · norm_num
          · omega
  · rw [← heq]
    have hscaled : x / 2 ^ fmt.lastBit x ≤ y / 2 ^ fmt.lastBit y := by
      rw [← heq]
      gcongr
    gcongr
    exact halfEven_mono hscaled

/-- A number rounded to the format, sign and all. -/
def nearest (fmt : FloatFormat) (x : ℚ) : ℚ := if x < 0 then -fmt.nearestAbs (-x) else fmt.nearestAbs x

theorem nearestAbs_zero : fmt.nearestAbs 0 = 0 := by
  have hzero : fmt.rounded 0 = 0 := by
    unfold rounded
    rw [zero_div]
    exact_mod_cast halfEven_natCast 0
  unfold nearestAbs
  rw [hzero, Nat.cast_zero, zero_mul]

theorem nearest_mono (fmt : FloatFormat) : Monotone fmt.nearest := by
  intro x y h
  unfold nearest
  split_ifs with hx hy hy
  · exact neg_le_neg (nearestAbs_mono (by linarith) (by linarith))
  · exact (neg_nonpos.mpr (nearestAbs_nonneg _)).trans (nearestAbs_nonneg _)
  · exact absurd (h.trans_lt hy) hx
  · rcases (not_lt.mp hx).lt_or_eq with hpos | hzero
    · exact nearestAbs_mono hpos h
    · rw [← hzero, nearestAbs_zero]
      exact nearestAbs_nonneg _

theorem nearest_nonneg {x : ℚ} (h : 0 ≤ x) : 0 ≤ fmt.nearest x := by
  unfold nearest
  rw [if_neg (not_lt.mpr h)]
  exact nearestAbs_nonneg x

end FloatFormat

end Ramulator.Lib
