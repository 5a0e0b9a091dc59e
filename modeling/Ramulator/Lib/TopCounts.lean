/-
# Ramulator.Lib.TopCounts — counts of which the highest starts again.

Keys are counted, and from time to time a key with the highest count starts again at zero, perhaps with
others. If at most `pace` keys are counted between two such moments, no count grows beyond a bound that
is harmonic in the number of keys. What carries the proof is a bound for sets of keys: the counts of any
`j` keys add up to at most `share n pace j`, and what was counted since the last moment (`Within`). The
key that starts again takes with it at least the average of the `j + 1` keys it belonged to.
-/
import Mathlib.Algebra.BigOperators.Group.Finset.Basic
import Mathlib.Algebra.Order.BigOperators.Group.Finset
import Mathlib.NumberTheory.Harmonic.Defs
import Mathlib.Tactic.FieldSimp
import Mathlib.Tactic.Linarith
import Mathlib.Tactic.Positivity
import Mathlib.Tactic.Ring

namespace Ramulator.Lib.TopCounts

/-- How much the counts of `j` of the `n` keys may add up to right after a key started again. -/
def share (n pace j : Nat) : ℚ := j * (pace * (1 + harmonic (n - 1) - harmonic j))

variable {n pace recent j : Nat}

/-- One key more: the average falls by what it may have been given since. -/
theorem share_succ (n pace j : Nat) :
    share n pace j * (j + 1) = j * (share n pace (j + 1) + pace) := by
  have hj : (j : ℚ) + 1 ≠ 0 := by positivity
  unfold share
  rw [harmonic_succ]
  push_cast
  field_simp
  ring

theorem harmonic_mono {i j : Nat} (h : i ≤ j) : harmonic i ≤ harmonic j := by
  induction j, h using Nat.le_induction with
  | base => exact le_rfl
  | succ j _ ih =>
      rw [harmonic_succ]
      have hpos : (0 : ℚ) ≤ (↑(j + 1))⁻¹ := by positivity
      linarith

theorem share_le_succ (hj : j < n) : share n pace j ≤ share n pace (j + 1) := by
  have hharmonic : harmonic j ≤ harmonic (n - 1) := harmonic_mono (by omega)
  have hstep : share n pace (j + 1) = share n pace j + pace * (harmonic (n - 1) - harmonic j) := by
    have hj' : (j : ℚ) + 1 ≠ 0 := by positivity
    unfold share
    rw [harmonic_succ]
    push_cast
    field_simp
    ring
  have hgap : (0 : ℚ) ≤ pace * (harmonic (n - 1) - harmonic j) :=
    mul_nonneg (Nat.cast_nonneg _) (sub_nonneg.mpr hharmonic)
  linarith

theorem share_nonneg (hj : j ≤ n) : 0 ≤ share n pace j := by
  induction j with
  | zero => simp [share]
  | succ j ih => exact (ih (by omega)).trans (share_le_succ hj)

variable {α : Type} {keys : Finset α} {count count' : α → Nat} {k : α}

/-- The counts of every set of keys stay within its share, and the `recent` ones. -/
def Within (keys : Finset α) (pace recent : Nat) (count : α → Nat) : Prop :=
  ∀ s ⊆ keys, ∑ k ∈ s, (count k : ℚ) ≤ share keys.card pace s.card + recent

namespace Within

theorem zero (keys : Finset α) (pace : Nat) (h : ∀ k ∈ keys, count k = 0) : Within keys pace 0 count := by
  intro s hs
  rw [Finset.sum_eq_zero fun k hk => by rw [h k (hs hk), Nat.cast_zero], Nat.cast_zero, add_zero]
  exact share_nonneg (Finset.card_le_card hs)

/-- What a single count can be. -/
theorem le_count (h : Within keys pace recent count) (hk : k ∈ keys) :
    (count k : ℚ) ≤ pace * harmonic (keys.card - 1) + recent := by
  have hone := h {k} (Finset.singleton_subset_iff.mpr hk)
  rw [Finset.sum_singleton, Finset.card_singleton, share, harmonic_succ, harmonic_zero] at hone
  push_cast at hone
  linarith

variable [DecidableEq α]

/-- A key is counted. -/
theorem see (h : Within keys pace recent count) (k : α) :
    Within keys pace (recent + 1) (Function.update count k (count k + 1)) := by
  intro s hs
  have hold := h s hs
  have hsum : ∑ x ∈ s, (Function.update count k (count k + 1) x : ℚ) ≤ ∑ x ∈ s, (count x : ℚ) + 1 := by
    by_cases hk : k ∈ s
    · rw [← Finset.add_sum_erase s _ hk, ← Finset.add_sum_erase s (fun x => (count x : ℚ)) hk]
      have hrest : ∑ x ∈ s.erase k, (Function.update count k (count k + 1) x : ℚ) =
          ∑ x ∈ s.erase k, (count x : ℚ) :=
        Finset.sum_congr rfl fun x hx => by rw [Function.update_of_ne (Finset.ne_of_mem_erase hx)]
      rw [hrest, Function.update_self]
      push_cast
      linarith
    · have hsame : ∑ x ∈ s, (Function.update count k (count k + 1) x : ℚ) = ∑ x ∈ s, (count x : ℚ) :=
        Finset.sum_congr rfl fun x hx => by
          rw [Function.update_of_ne]
          rintro rfl
          exact hk hx
      rw [hsame]
      linarith
  push_cast
  linarith

/-- A key with the highest count starts again, and no other count grows. -/
theorem clear (h : Within keys pace recent count) (hpace : recent ≤ pace) (hk : k ∈ keys)
    (htop : ∀ x ∈ keys, count x ≤ count k) (hzero : count' k = 0) (hle : ∀ x, count' x ≤ count x) :
    Within keys pace 0 count' := by
  intro s hs
  have herase : s.erase k ⊆ keys := (Finset.erase_subset k s).trans hs
  have hwith : insert k (s.erase k) ⊆ keys := Finset.insert_subset hk herase
  have hnot : k ∉ s.erase k := Finset.notMem_erase k s
  -- the key adds nothing, the others no more than they had
  have hsum : ∑ x ∈ s, (count' x : ℚ) ≤ ∑ x ∈ s.erase k, (count x : ℚ) := by
    have hothers : ∑ x ∈ s.erase k, (count' x : ℚ) ≤ ∑ x ∈ s.erase k, (count x : ℚ) :=
      Finset.sum_le_sum fun x _ => by exact_mod_cast hle x
    rw [← Finset.sum_erase (f := fun x => (count' x : ℚ)) s (a := k) (by rw [hzero, Nat.cast_zero])]
    exact hothers
  -- no average is above the highest count
  have hmax : ∑ x ∈ s.erase k, (count x : ℚ) ≤ (s.erase k).card * count k := by
    have hcard := Finset.sum_le_card_nsmul (s.erase k) (fun x => (count x : ℚ)) (count k : ℚ)
      fun x hx => by exact_mod_cast htop x (herase hx)
    rwa [nsmul_eq_mul] at hcard
  have hall := h _ hwith
  rw [Finset.sum_insert hnot, Finset.card_insert_of_notMem hnot] at hall
  have hrecent : (recent : ℚ) ≤ pace := by exact_mod_cast hpace
  have hshare := share_succ keys.card pace (s.erase k).card
  have hcards : share keys.card pace (s.erase k).card ≤ share keys.card pace s.card := by
    by_cases hks : k ∈ s
    · have hcard : (s.erase k).card + 1 = s.card := Finset.card_erase_add_one hks
      have hlt : (s.erase k).card < keys.card := by
        have := Finset.card_le_card hs
        omega
      rw [← hcard]
      exact share_le_succ hlt
    · rw [Finset.erase_eq_of_notMem hks]
  have hpos : (0 : ℚ) < (s.erase k).card + 1 := by positivity
  have hsize : (0 : ℚ) ≤ (s.erase k).card := Nat.cast_nonneg _
  have hbound : (∑ x ∈ s.erase k, (count x : ℚ)) * ((s.erase k).card + 1) ≤
      share keys.card pace (s.erase k).card * ((s.erase k).card + 1) := by
    rw [hshare]
    nlinarith [mul_le_mul_of_nonneg_left hall hsize]
  have hrest := le_of_mul_le_mul_right hbound hpos
  rw [Nat.cast_zero, add_zero]
  linarith

end Within

end Ramulator.Lib.TopCounts
