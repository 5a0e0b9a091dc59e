/-
# Ramulator.Lib.Loop — loops that end by a break, and faster loops that simulate them.

A loop body maps a state either to the next state or out of the loop. `iterate` runs a number of
iterations, `run` is the loop with a bound on their number. A faster body is compared with a slower
one by `Simulates`: each of its iterations is one or more iterations of the slower body, up to a
relation between the states. The rules below carry that from one iteration to whole runs, in both
directions: what the fast loop reaches, the slow one reaches, and the fast loop ends whenever the
slow one does.
-/
import Mathlib.Order.Basic
import Mathlib.Tactic.Common

namespace Ramulator.Lib.Loop

variable {S T R Q : Type}

/-! ## Loops -/

/-- The result of one iteration: go on from a state, or leave the loop with a result. -/
inductive Outcome (S R : Type) where
  | running (s : S)
  | done (r : R)
  deriving DecidableEq, Repr

/-- At most `n` iterations of the body; a finished loop stays finished. -/
def iterate (step : S → Outcome S R) : Nat → S → Outcome S R
  | 0, s => .running s
  | n + 1, s =>
      match step s with
      | .running s' => iterate step n s'
      | .done r => .done r

/-- The loop, when it ends within `fuel` iterations. -/
def run (step : S → Outcome S R) (fuel : Nat) (s : S) : Option R :=
  match iterate step fuel s with
  | .running _ => none
  | .done r => some r

variable {step : S → Outcome S R}

@[simp] theorem iterate_zero (s : S) : iterate step 0 s = .running s := rfl

theorem iterate_succ_running {n : Nat} {s s' : S} (h : step s = .running s') :
    iterate step (n + 1) s = iterate step n s' := by
  simp only [iterate, h]

theorem iterate_succ_done {n : Nat} {s : S} {r : R} (h : step s = .done r) :
    iterate step (n + 1) s = .done r := by
  simp only [iterate, h]

theorem iterate_one (s : S) : iterate step 1 s = step s := by
  cases h : step s with
  | running s' => rw [iterate_succ_running h, iterate_zero]
  | done r => rw [iterate_succ_done h]

theorem iterate_add_running {m n : Nat} {s s' : S} (h : iterate step m s = .running s') :
    iterate step (m + n) s = iterate step n s' := by
  induction m generalizing s with
  | zero =>
      cases h
      rw [Nat.zero_add]
  | succ m ih =>
      rw [Nat.add_right_comm]
      cases hs : step s with
      | running s₁ =>
          rw [iterate_succ_running hs] at h
          rw [iterate_succ_running hs, ih h]
      | done r => simp only [iterate, hs, reduceCtorEq] at h

theorem iterate_add_done {m : Nat} (n : Nat) {s : S} {r : R} (h : iterate step m s = .done r) :
    iterate step (m + n) s = .done r := by
  induction m generalizing s with
  | zero => cases h
  | succ m ih =>
      rw [Nat.add_right_comm]
      cases hs : step s with
      | running s₁ =>
          rw [iterate_succ_running hs] at h
          rw [iterate_succ_running hs, ih h]
      | done r' =>
          rw [iterate_succ_done hs] at h ⊢
          exact h

theorem iterate_done_mono {m n : Nat} (hmn : m ≤ n) {s : S} {r : R}
    (h : iterate step m s = .done r) : iterate step n s = .done r := by
  obtain ⟨k, rfl⟩ := Nat.exists_eq_add_of_le hmn
  exact iterate_add_done k h

/-- The result of a loop does not depend on how long it may run. -/
theorem iterate_done_unique {m n : Nat} {s : S} {r r' : R} (h : iterate step m s = .done r)
    (h' : iterate step n s = .done r') : r = r' := by
  rcases Nat.le_total m n with hmn | hmn
  · simpa [iterate_done_mono hmn h] using h'
  · simpa [iterate_done_mono hmn h'] using h.symm

theorem run_eq_some_iff {fuel : Nat} {s : S} {r : R} :
    run step fuel s = some r ↔ iterate step fuel s = .done r := by
  unfold run
  split <;> simp_all

theorem run_mono {m n : Nat} (hmn : m ≤ n) {s : S} {r : R} (h : run step m s = some r) :
    run step n s = some r :=
  run_eq_some_iff.mpr (iterate_done_mono hmn (run_eq_some_iff.mp h))

/-- An invariant of the body holds of every state the loop is in. -/
theorem iterate_invariant {Inv : S → Prop}
    (hstep : ∀ s s', Inv s → step s = .running s' → Inv s') {n : Nat} {s s' : S} (hs : Inv s)
    (h : iterate step n s = .running s') : Inv s' := by
  induction n generalizing s with
  | zero =>
      cases h
      exact hs
  | succ n ih =>
      cases hb : step s with
      | running s₁ => exact ih (hstep s s₁ hs hb) (by rwa [iterate_succ_running hb] at h)
      | done r => simp [iterate_succ_done hb] at h

/-- A loop ends if each iteration keeps an invariant and goes down in a well-founded relation. -/
theorem run_of_wellFounded {rel : S → S → Prop} (hwf : WellFounded rel) {Inv : S → Prop} {post : R → Prop}
    (hstep : ∀ s, Inv s → (∃ r, step s = .done r ∧ post r) ∨ ∃ s', step s = .running s' ∧ Inv s' ∧ rel s' s)
    {s : S} (hs : Inv s) : ∃ fuel r, run step fuel s = some r ∧ post r := by
  induction s using hwf.induction with
  | _ s ih =>
      rcases hstep s hs with ⟨r, hdone, hr⟩ | ⟨s', hrunning, hs', hrel⟩
      · exact ⟨1, r, run_eq_some_iff.mpr (iterate_succ_done hdone), hr⟩
      · obtain ⟨fuel, r, hrun, hr⟩ := ih s' hrel hs'
        refine ⟨fuel + 1, r, run_eq_some_iff.mpr ?_, hr⟩
        rw [iterate_succ_running hrunning]
        exact run_eq_some_iff.mp hrun

/-- It ends within as many iterations as a measure that goes down allows. -/
theorem run_of_measure {measure : S → Nat} {Inv : S → Prop} {post : R → Prop}
    (hstep : ∀ s, Inv s → (∃ r, step s = .done r ∧ post r) ∨
      ∃ s', step s = .running s' ∧ Inv s' ∧ measure s' < measure s)
    {s : S} (hs : Inv s) {fuel : Nat} (hfuel : measure s < fuel) : ∃ r, run step fuel s = some r ∧ post r := by
  induction fuel generalizing s with
  | zero => exact absurd hfuel (Nat.not_lt_zero _)
  | succ fuel ih =>
      rcases hstep s hs with ⟨r, hdone, hr⟩ | ⟨s', hrunning, hs', hless⟩
      · exact ⟨r, run_eq_some_iff.mpr (iterate_succ_done hdone), hr⟩
      · obtain ⟨r, hrun, hr⟩ := ih hs' (Nat.lt_of_lt_of_le hless (Nat.lt_succ_iff.mp hfuel))
        refine ⟨r, run_eq_some_iff.mpr ?_, hr⟩
        rw [iterate_succ_running hrunning]
        exact run_eq_some_iff.mp hrun

/-- A stretch of iterations whose every state is described by its position. -/
theorem iterate_chain {P : Nat → S → Prop} {k : Nat}
    (hstep : ∀ i < k, ∀ s, P i s → ∃ s', step s = .running s' ∧ P (i + 1) s') {s : S} (hs : P 0 s) :
    ∃ s', iterate step k s = .running s' ∧ P k s' := by
  induction k with
  | zero => exact ⟨s, rfl, hs⟩
  | succ k ih =>
      obtain ⟨s₁, hs₁, hP⟩ := ih fun i hi => hstep i (Nat.lt_succ_of_lt hi)
      obtain ⟨s', hs', hP'⟩ := hstep k (Nat.lt_succ_self k) s₁ hP
      exact ⟨s', by rw [iterate_add_running hs₁, iterate_one, hs'], hP'⟩

/-! ## Faster loops -/

/-- One iteration of the `fast` body is at least one iteration of the `slow` body. Results that are
not `Kept` (a run that failed, say) need no counterpart. -/
structure Simulates (Rel : S → T → Prop) (Kept : R → Prop) (RelDone : R → Q → Prop)
    (fast : S → Outcome S R) (slow : T → Outcome T Q) : Prop where
  running : ∀ s t s', Rel s t → fast s = .running s' →
    ∃ k t', iterate slow (k + 1) t = .running t' ∧ Rel s' t'
  done : ∀ s t r, Rel s t → fast s = .done r → Kept r →
    ∃ k q, iterate slow (k + 1) t = .done q ∧ RelDone r q

variable {Rel : S → T → Prop} {Kept : R → Prop} {RelDone : R → Q → Prop}
  {fast : S → Outcome S R} {slow : T → Outcome T Q}

/-- A state the fast loop reaches is related to one the slow loop reaches, no earlier. -/
theorem Simulates.iterate_running (h : Simulates Rel Kept RelDone fast slow) {n : Nat} {s s' : S}
    {t : T} (hrel : Rel s t) (hrun : iterate fast n s = .running s') :
    ∃ N t', n ≤ N ∧ iterate slow N t = .running t' ∧ Rel s' t' := by
  induction n generalizing s t with
  | zero =>
      cases hrun
      exact ⟨0, t, Nat.le_refl 0, rfl, hrel⟩
  | succ n ih =>
      cases hs : fast s with
      | done r => simp [iterate_succ_done hs] at hrun
      | running s₁ =>
          rw [iterate_succ_running hs] at hrun
          obtain ⟨k, t₁, ht₁, hrel₁⟩ := h.running s t s₁ hrel hs
          obtain ⟨N, t', hN, ht', hrel'⟩ := ih hrel₁ hrun
          refine ⟨k + 1 + N, t', by omega, ?_, hrel'⟩
          rw [iterate_add_running ht₁, ht']

/-- A result of the fast loop is related to the result of the slow loop. -/
theorem Simulates.iterate_done (h : Simulates Rel Kept RelDone fast slow) {n : Nat} {s : S} {t : T}
    {r : R} (hrel : Rel s t) (hrun : iterate fast n s = .done r) (hkept : Kept r) :
    ∃ N q, iterate slow N t = .done q ∧ RelDone r q := by
  induction n generalizing s t with
  | zero => cases hrun
  | succ n ih =>
      cases hs : fast s with
      | done r' =>
          obtain rfl : r' = r := by simpa [iterate_succ_done hs] using hrun
          obtain ⟨k, q, hq, hdone⟩ := h.done s t r' hrel hs hkept
          exact ⟨k + 1, q, hq, hdone⟩
      | running s₁ =>
          rw [iterate_succ_running hs] at hrun
          obtain ⟨k, t₁, ht₁, hrel₁⟩ := h.running s t s₁ hrel hs
          obtain ⟨N, q, hq, hdone⟩ := ih hrel₁ hrun
          exact ⟨k + 1 + N, q, by rw [iterate_add_running ht₁, hq], hdone⟩

/-- The fast loop ends whenever the slow one does, with a related result. -/
theorem Simulates.done_of_slow_done (h : Simulates Rel Kept RelDone fast slow)
    (hkept : ∀ r, Kept r) {n : Nat} {s : S} {t : T} {q : Q} (hrel : Rel s t)
    (hrun : iterate slow n t = .done q) : ∃ r, iterate fast n s = .done r ∧ RelDone r q := by
  cases hf : iterate fast n s with
  | running s' =>
      obtain ⟨N, t', hN, ht', -⟩ := h.iterate_running hrel hf
      simp [iterate_done_mono hN hrun] at ht'
  | done r =>
      obtain ⟨N, q', hq', hdone⟩ := h.iterate_done hrel hf (hkept r)
      obtain rfl := iterate_done_unique hrun hq'
      exact ⟨r, rfl, hdone⟩

end Ramulator.Lib.Loop
