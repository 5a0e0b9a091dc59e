/-
# Ramulator.Lib.MixedRadix — numbers whose places have radices of their own.

A list of radices, lowest place first, says how a number is cut into digits. `digits` cuts and `value` puts
together; below the volume of the radices they are inverse to each other, so that digits within their radices
stand for each number once. `position` is the value of digits that are listed from the highest place down.
-/
import Mathlib.Data.List.Basic
import Mathlib.Data.List.Forall2
import Mathlib.Data.Nat.ModEq
import Mathlib.Data.Set.Function
import Mathlib.Order.Interval.Finset.Nat
import Mathlib.Tactic.Common

namespace Ramulator.Lib.MixedRadix

/-- How many numbers there are. -/
def volume : List Nat → Nat
  | [] => 1
  | r :: rs => r * volume rs

/-- Each digit is below its radix. -/
def Within (rs ds : List Nat) : Prop := List.Forall₂ (fun r d => d < r) rs ds

def digits : List Nat → Nat → List Nat
  | [], _ => []
  | r :: rs, x => x % r :: digits rs (x / r)

def value : List Nat → List Nat → Nat
  | r :: rs, d :: ds => d + r * value rs ds
  | _, _ => 0

variable {r x : Nat} {rs rs' ds ds' : List Nat}

theorem volume_pos (h : ∀ r ∈ rs, 0 < r) : 0 < volume rs := by
  induction rs with
  | nil => exact Nat.zero_lt_one
  | cons r rs ih =>
      exact Nat.mul_pos (h r List.mem_cons_self) (ih fun r' hr' => h r' (List.mem_cons_of_mem _ hr'))

theorem volume_eq_zero (h : 0 ∈ rs) : volume rs = 0 := by
  induction rs with
  | nil => cases h
  | cons r rs ih =>
      show r * volume rs = 0
      rcases List.mem_cons.mp h with hr | hr
      · rw [← hr, Nat.zero_mul]
      · rw [ih hr, Nat.mul_zero]

theorem volume_append (rs rs' : List Nat) : volume (rs ++ rs') = volume rs * volume rs' := by
  induction rs with
  | nil => exact (Nat.one_mul _).symm
  | cons r rs ih =>
      show r * volume (rs ++ rs') = _
      rw [ih, ← Nat.mul_assoc]
      rfl

/-- The order of the places does not matter for the volume. -/
theorem volume_perm (h : rs.Perm rs') : volume rs = volume rs' := by
  induction h with
  | nil => rfl
  | cons r _ ih => exact congrArg (r * ·) ih
  | swap r r' rs => exact Nat.mul_left_comm r' r (volume rs)
  | trans _ _ ih ih' => exact ih.trans ih'

theorem length_digits (rs : List Nat) (x : Nat) : (digits rs x).length = rs.length := by
  induction rs generalizing x with
  | nil => rfl
  | cons r rs ih => exact congrArg Nat.succ (ih _)

theorem within_digits (h : ∀ r ∈ rs, 0 < r) (x : Nat) : Within rs (digits rs x) := by
  induction rs generalizing x with
  | nil => exact .nil
  | cons r rs ih =>
      exact .cons (Nat.mod_lt _ (h r List.mem_cons_self)) (ih (fun r' hr' => h r' (List.mem_cons_of_mem _ hr')) _)

/-- Cutting a number and putting it together again. -/
theorem value_digits (h : x < volume rs) : value rs (digits rs x) = x := by
  induction rs generalizing x with
  | nil =>
      have hzero : x = 0 := Nat.lt_one_iff.mp h
      rw [hzero]
      rfl
  | cons r rs ih =>
      show x % r + r * value rs (digits rs (x / r)) = x
      rw [ih (Nat.div_lt_of_lt_mul h)]
      exact Nat.mod_add_div x r

theorem value_lt (h : Within rs ds) : value rs ds < volume rs := by
  induction h with
  | nil => exact Nat.zero_lt_one
  | @cons r d rs ds hd _ ih =>
      show d + r * value rs ds < r * volume rs
      calc d + r * value rs ds < r + r * value rs ds := Nat.add_lt_add_right hd _
        _ = r * (value rs ds + 1) := (Nat.add_comm _ _).trans (Nat.mul_succ _ _).symm
        _ ≤ r * volume rs := Nat.mul_le_mul_left r ih

/-- Putting digits together and cutting the number again. -/
theorem digits_value (h : Within rs ds) : digits rs (value rs ds) = ds := by
  induction h with
  | nil => rfl
  | @cons r d rs ds hd _ ih =>
      have hpos : 0 < r := Nat.zero_lt_of_lt hd
      show (d + r * value rs ds) % r :: digits rs ((d + r * value rs ds) / r) = d :: ds
      rw [Nat.add_mul_mod_self_left, Nat.mod_eq_of_lt hd, Nat.add_mul_div_left _ _ hpos, Nat.div_eq_of_lt hd,
        Nat.zero_add, ih]

theorem Within.length_eq (h : Within rs ds) : ds.length = rs.length := (List.Forall₂.length_eq h).symm

/-- More places above. -/
theorem value_append (hlen : ds.length = rs.length) :
    value (rs ++ rs') (ds ++ ds') = value rs ds + volume rs * value rs' ds' := by
  induction rs generalizing ds with
  | nil =>
      obtain rfl := List.length_eq_zero_iff.mp hlen
      show value rs' ds' = 0 + 1 * value rs' ds'
      rw [Nat.zero_add, Nat.one_mul]
  | cons r rs ih =>
      cases ds with
      | nil => cases hlen
      | cons d ds =>
          show d + r * value (rs ++ rs') (ds ++ ds') = d + r * value rs ds + r * volume rs * value rs' ds'
          rw [ih (Nat.succ.inj hlen), Nat.mul_add, Nat.mul_assoc, Nat.add_assoc]

/-- The value of one place. -/
theorem value_singleton (r d : Nat) : value [r] [d] = d := by
  show d + r * 0 = d
  rw [Nat.mul_zero, Nat.add_zero]

theorem digits_append (rs rs' : List Nat) (x : Nat) :
    digits (rs ++ rs') x = digits rs x ++ digits rs' (x / volume rs) := by
  induction rs generalizing x with
  | nil =>
      show digits rs' x = digits rs' (x / 1)
      rw [Nat.div_one]
  | cons r rs ih =>
      show x % r :: digits (rs ++ rs') (x / r) = x % r :: (digits rs (x / r) ++ digits rs' (x / (r * volume rs)))
      rw [ih, Nat.div_div_eq_div_mul]

/-- What lies above the places does not show in their digits. -/
theorem digits_mod_volume (rs : List Nat) (x : Nat) : digits rs (x % volume rs) = digits rs x := by
  induction rs generalizing x with
  | nil => rfl
  | cons r rs ih =>
      show x % (r * volume rs) % r :: digits rs (x % (r * volume rs) / r) = x % r :: digits rs (x / r)
      rw [Nat.mod_mul_right_mod, Nat.mod_mul_right_div_self, ih]

/-! ## Digits from the highest place down -/

/-- The number that digits stand for when the highest place is listed first. -/
def position (rs ds : List Nat) : Nat := value rs.reverse ds.reverse

theorem within_reverse : Within rs.reverse ds.reverse ↔ Within rs ds := List.forall₂_reverse_iff

/-- One more place below. -/
theorem position_concat (rs ds : List Nat) (r d : Nat) :
    position (rs ++ [r]) (ds ++ [d]) = d + r * position rs ds := by
  unfold position
  rw [List.reverse_append, List.reverse_append]
  rfl

/-- One more place above. -/
theorem position_cons (h : ds.length = rs.length) (r d : Nat) :
    position (r :: rs) (d :: ds) = position rs ds + volume rs * d := by
  unfold position
  have hlen : ds.reverse.length = rs.reverse.length := by
    rw [List.length_reverse, List.length_reverse]
    exact h
  rw [List.reverse_cons, List.reverse_cons, value_append hlen, value_singleton,
    volume_perm (List.reverse_perm rs)]

theorem position_lt (h : Within rs ds) : position rs ds < volume rs := by
  rw [← volume_perm (List.reverse_perm rs)]
  exact value_lt (within_reverse.mpr h)

/-- Digits within their radices stand for each number below the volume once. -/
theorem position_bijOn (rs : List Nat) :
    Set.BijOn (position rs) {ds | Within rs ds} {x | x < volume rs} := by
  refine ⟨fun ds hds => position_lt hds, fun ds hds ds' hds' heq => ?_, fun x hx => ?_⟩
  · have hrev : ds.reverse = ds'.reverse := by
      rw [← digits_value (within_reverse.mpr hds), ← digits_value (within_reverse.mpr hds')]
      exact congrArg _ heq
    exact List.reverse_injective hrev
  · have hvolume : x < volume rs.reverse := by
      rw [volume_perm (List.reverse_perm rs)]
      exact hx
    have hpos : ∀ r ∈ rs.reverse, 0 < r := by
      intro r hr
      by_contra hzero
      obtain rfl : r = 0 := by omega
      rw [volume_eq_zero hr] at hvolume
      exact absurd hvolume (Nat.not_lt_zero x)
    refine ⟨(digits rs.reverse x).reverse, ?_, ?_⟩
    · have hwithin := within_digits hpos x
      rw [← List.reverse_reverse (digits rs.reverse x)] at hwithin
      exact within_reverse.mp hwithin
    · unfold position
      rw [List.reverse_reverse]
      exact value_digits hvolume

/-! ## Two places exchanged -/

/-- The lowest two places, of radices `r` and `s`, in the other order. -/
def swapPlaces (r s x : Nat) : Nat := x / r % s + s * (x % r + r * (x / r / s))

theorem swapPlaces_swapPlaces {r s : Nat} (hr : 0 < r) (hs : 0 < s) (x : Nat) :
    swapPlaces s r (swapPlaces r s x) = x := by
  have hlow : swapPlaces r s x % s = x / r % s := by
    unfold swapPlaces
    rw [Nat.add_mul_mod_self_left, Nat.mod_mod]
  have hhigh : swapPlaces r s x / s = x % r + r * (x / r / s) := by
    unfold swapPlaces
    rw [Nat.add_mul_div_left _ _ hs, Nat.div_eq_of_lt (Nat.mod_lt _ hs), Nat.zero_add]
  rw [swapPlaces, hlow, hhigh, Nat.add_mul_mod_self_left, Nat.mod_mod, Nat.add_mul_div_left _ _ hr,
    Nat.div_eq_of_lt (Nat.mod_lt _ hr), Nat.zero_add, Nat.mod_add_div, Nat.mod_add_div]

theorem swapPlaces_lt {r s t x : Nat} (hr : 0 < r) (hs : 0 < s) (h : x < r * (s * t)) :
    swapPlaces r s x < s * (r * t) := by
  have hhigh : x / r / s < t := Nat.div_lt_of_lt_mul (Nat.div_lt_of_lt_mul h)
  have hinner : x % r + r * (x / r / s) < r * t := by
    calc x % r + r * (x / r / s) < r + r * (x / r / s) := Nat.add_lt_add_right (Nat.mod_lt _ hr) _
      _ = r * (x / r / s + 1) := (Nat.add_comm _ _).trans (Nat.mul_succ _ _).symm
      _ ≤ r * t := Nat.mul_le_mul_left r hhigh
  calc swapPlaces r s x < s + s * (x % r + r * (x / r / s)) := Nat.add_lt_add_right (Nat.mod_lt _ hs) _
    _ = s * (x % r + r * (x / r / s) + 1) := (Nat.add_comm _ _).trans (Nat.mul_succ _ _).symm
    _ ≤ s * (r * t) := Nat.mul_le_mul_left s hinner

theorem swapPlaces_bijOn {r s : Nat} (hr : 0 < r) (hs : 0 < s) (t : Nat) :
    Set.BijOn (swapPlaces r s) {x | x < r * (s * t)} {x | x < s * (r * t)} := by
  have hinv : Set.InvOn (swapPlaces s r) (swapPlaces r s) {x | x < r * (s * t)} {x | x < s * (r * t)} :=
    ⟨fun x _ => swapPlaces_swapPlaces hr hs x, fun x _ => swapPlaces_swapPlaces hs hr x⟩
  exact hinv.bijOn (fun x hx => swapPlaces_lt hr hs hx) fun x hx => swapPlaces_lt hs hr hx

/-! ## Windows of numbers -/

/-- In `n` consecutive numbers each remainder occurs once. -/
theorem mod_bijOn_window {n : Nat} (hn : 0 < n) (s : Nat) :
    Set.BijOn (fun x => x % n) {x | s ≤ x ∧ x < s + n} {x | x < n} := by
  refine ⟨fun x _ => Nat.mod_lt x hn, fun x hx y hy heq => ?_, fun x hx => ?_⟩
  · exact Nat.mod_injOn_Ico s n (Finset.coe_Ico s (s + n) ▸ hx) (Finset.coe_Ico s (s + n) ▸ hy) heq
  · have himage : x ∈ (Finset.Ico s (s + n)).image (· % n) := by
      rw [Nat.image_Ico_mod]
      exact Finset.mem_range.mpr hx
    obtain ⟨y, hy, hxy⟩ := Finset.mem_image.mp himage
    exact ⟨y, Finset.mem_Ico.mp hy, hxy⟩

/-- The lowest place of radix `r`, and what is above it modulo `n`, moved on by an offset `g` of the lowest place. -/
def skew (r n : Nat) (g : Nat → Nat) (x : Nat) : Nat × Nat := (x % r, (x / r + g (x % r)) % n)

/-- Whatever the offsets, in `r * n` consecutive numbers each pair occurs once. -/
theorem skew_bijOn_window {r n : Nat} (hr : 0 < r) (hn : 0 < n) (g : Nat → Nat) (s : Nat) :
    Set.BijOn (skew r n g) {x | s ≤ x ∧ x < s + r * n} {p | p.1 < r ∧ p.2 < n} := by
  have hwindow := mod_bijOn_window (Nat.mul_pos hr hn) s
  refine ⟨fun x _ => ⟨Nat.mod_lt _ hr, Nat.mod_lt _ hn⟩, fun x hx y hy heq => ?_, fun p hp => ?_⟩
  · have hlow : x % r = y % r := congrArg Prod.fst heq
    have hhigh : (x / r + g (x % r)) % n = (y / r + g (y % r)) % n := congrArg Prod.snd heq
    rw [hlow] at hhigh
    -- the offset is the same on both sides, as the lowest places are
    have hmod : x / r % n = y / r % n := Nat.ModEq.add_right_cancel' (g (y % r)) hhigh
    refine hwindow.injOn hx hy ?_
    show x % (r * n) = y % (r * n)
    rw [Nat.mod_mul, Nat.mod_mul, hlow, hmod]
  · obtain ⟨hlow, hhigh⟩ := hp
    -- the quotient that the offset of this place brings to `p.2`
    have hoffset : g p.1 % n < n := Nat.mod_lt _ hn
    have hquotient : (p.2 + (n - g p.1 % n)) % n < n := Nat.mod_lt _ hn
    have htarget : p.1 + r * ((p.2 + (n - g p.1 % n)) % n) < r * n := by
      calc p.1 + r * ((p.2 + (n - g p.1 % n)) % n) < r + r * ((p.2 + (n - g p.1 % n)) % n) := Nat.add_lt_add_right hlow _
        _ = r * ((p.2 + (n - g p.1 % n)) % n + 1) := (Nat.add_comm _ _).trans (Nat.mul_succ _ _).symm
        _ ≤ r * n := Nat.mul_le_mul_left r hquotient
    obtain ⟨x, hx, hxmod⟩ := hwindow.surjOn htarget
    have hxmod : x % (r * n) = p.1 + r * ((p.2 + (n - g p.1 % n)) % n) := hxmod
    have hxlow : x % r = p.1 := by
      rw [← Nat.mod_mul_right_mod x r n, hxmod, Nat.add_mul_mod_self_left, Nat.mod_eq_of_lt hlow]
    have hxhigh : x / r % n = (p.2 + (n - g p.1 % n)) % n := by
      rw [← Nat.mod_mul_right_div_self, hxmod, Nat.add_mul_div_left _ _ hr, Nat.div_eq_of_lt hlow, Nat.zero_add]
    refine ⟨x, hx, Prod.ext hxlow ?_⟩
    show (x / r + g (x % r)) % n = p.2
    calc (x / r + g (x % r)) % n = (x / r % n + g p.1 % n) % n := by rw [hxlow, Nat.add_mod]
      _ = ((p.2 + (n - g p.1 % n)) % n + g p.1 % n) % n := by rw [hxhigh]
      _ = (p.2 + (n - g p.1 % n) + g p.1 % n) % n := Nat.mod_add_mod _ _ _
      _ = (p.2 + n) % n := by rw [Nat.add_assoc, Nat.sub_add_cancel hoffset.le]
      _ = p.2 := by rw [Nat.add_mod_right, Nat.mod_eq_of_lt hhigh]

end Ramulator.Lib.MixedRadix
