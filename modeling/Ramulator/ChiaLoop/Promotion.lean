/-
# Ramulator.ChiaLoop.Promotion — the rule by which a candidate takes the place of the incumbent.

`should_promote` (`framework/scoring.py`) asks that the candidate's pair of objectives dominates the
incumbent's (`pareto.py`), and, where validation is a gate, that neither validation objective is worse. It
raises where a report that it compares is not of the kind it compares; a report that `aggregate` makes and
calls eligible is of that kind.
-/
import Ramulator.ChiaLoop.Agreement
import Mathlib.Order.Lattice.Nat
import Mathlib.Order.Basic

namespace Ramulator.ChiaLoop.Scoring

open Ramulator.Lib

/-- A report as it is recorded. -/
structure Summary where
  report : Report
  precision : String

/-- `report["precision"]`. -/
def unrounded : String := "unrounded_binary64"

/-- `objectives`, where both are numbers. -/
def Summary.objectives (s : Summary) : Option (ℚ × ℚ) :=
  s.report.requestMacroMaeOverL.map fun r => (s.report.cycleMacroMaePct, r)

/-- `dominates`. -/
def dominates (left right : ℚ × ℚ) : Bool :=
  (decide (left.1 ≤ right.1) && decide (left.2 ≤ right.2)) && (decide (left.1 < right.1) || decide (left.2 < right.2))

/-- `valid_objectives`. -/
def validObjectives (s : Summary) (stage : Stage) : Except Message (ℚ × ℚ) := do
  raiseIf (s.report.eligibleForPromotion = false ∨ s.precision ≠ unrounded ∨ s.report.stage ≠ stage)
    "selection requires eligible, unrounded training measurements"
  match s.objectives with
  | none => .error "selection objectives must be finite nonnegative numbers"
  | some v => do
      raiseIf (v.1 < 0 ∨ v.2 < 0) "selection objectives must be finite nonnegative numbers"
      pure v

/-- The last part of `should_promote`: the gate, where there is one. -/
def passesGate (candidateValidation incumbentValidation : Option Summary) : Except Message Bool :=
  match incumbentValidation, candidateValidation with
  | some _, none => .ok false
  | some incumbent, some candidate =>
      if candidate.report.eligibleForPromotion = false then .ok false
      else do
        let new ← validObjectives candidate .validation
        let old ← validObjectives incumbent .validation
        pure (decide (new.1 ≤ old.1) && decide (new.2 ≤ old.2))
  | none, some _ => .error "validation gating needs the incumbent's validation measurements"
  | none, none => .ok true

/-- `should_promote`. -/
def shouldPromote (candidate incumbent : Summary) (mechanicallyValid : Bool)
    (candidateValidation incumbentValidation : Option Summary) : Except Message Bool := do
  let incumbentValues ← validObjectives incumbent .training
  if mechanicallyValid = false ∨ candidate.report.eligibleForPromotion = false then pure false
  else do
    let values ← validObjectives candidate .training
    if dominates values incumbentValues = false then pure false
    else passesGate candidateValidation incumbentValidation

/-! ## Dominance is the strict order of pairs -/

theorem dominates_iff {left right : ℚ × ℚ} : dominates left right = true ↔ left < right := by
  rw [Prod.lt_iff, dominates]
  simp only [Bool.and_eq_true, Bool.or_eq_true, decide_eq_true_iff]
  constructor
  · rintro ⟨⟨h1, h2⟩, hlt | hlt⟩
    · exact .inl ⟨hlt, h2⟩
    · exact .inr ⟨h1, hlt⟩
  · rintro (⟨hlt, h2⟩ | ⟨h1, hlt⟩)
    · exact ⟨⟨hlt.le, h2⟩, .inl hlt⟩
    · exact ⟨⟨h1, hlt.le⟩, .inr hlt⟩

/-! ## Valid reports -/

/-- A report can be compared at a stage. -/
def Summary.Valid (s : Summary) (stage : Stage) (v : ℚ × ℚ) : Prop := validObjectives s stage = .ok v

/-- What a report that can be compared has. -/
theorem Summary.Valid.parts {s : Summary} {stage : Stage} {v : ℚ × ℚ} (h : s.Valid stage v) :
    s.objectives = some v ∧ 0 ≤ v.1 ∧ 0 ≤ v.2 := by
  obtain ⟨_, -, h⟩ := except_bind_eq_ok.mp h
  cases hv : s.objectives with
  | none =>
      rw [hv] at h
      cases h
  | some u =>
      rw [hv] at h
      obtain ⟨_, hneg, h⟩ := except_bind_eq_ok.mp h
      obtain rfl := Except.ok.inj h
      obtain ⟨h1, h2⟩ := not_or.mp (raiseIf_eq_ok.mp hneg)
      exact ⟨rfl, not_lt.mp h1, not_lt.mp h2⟩

theorem Summary.Valid.objectives_eq {s : Summary} {stage : Stage} {v : ℚ × ℚ} (h : s.Valid stage v) :
    s.objectives = some v := h.parts.1

theorem Summary.Valid.stage_eq {s : Summary} {stage : Stage} {v : ℚ × ℚ} (h : s.Valid stage v) :
    s.report.stage = stage := by
  obtain ⟨_, hkind, -⟩ := except_bind_eq_ok.mp h
  exact not_not.mp (not_or.mp (not_or.mp (raiseIf_eq_ok.mp hkind)).2).2

theorem valid_of_report {s : Summary} {stage : Stage} {v : ℚ × ℚ} (heligible : s.report.eligibleForPromotion = true)
    (hprecision : s.precision = unrounded) (hstage : s.report.stage = stage) (hv : s.objectives = some v)
    (h1 : 0 ≤ v.1) (h2 : 0 ≤ v.2) : s.Valid stage v := by
  refine except_bind_eq_ok.mpr ⟨⟨⟩, raiseIf_eq_ok.mpr ?_, ?_⟩
  · rintro (h | h | h)
    · rw [heligible] at h
      cases h
    · exact h hprecision
    · exact h hstage
  · rw [hv]
    refine except_bind_eq_ok.mpr ⟨⟨⟩, raiseIf_eq_ok.mpr ?_, rfl⟩
    rintro (h | h)
    · exact absurd h1 (not_le.mpr h)
    · exact absurd h2 (not_le.mpr h)

theorem summarize_nonneg {rows : Named WorkloadRow} {s : RequestSummary} (h : summarize rows = .ok s) :
    0 ≤ s.meanMae := by
  unfold summarize at h
  split at h
  · next requests _ =>
    have h := except_mapError_eq_ok.mp h
    obtain ⟨_, -, h⟩ := except_bind_eq_ok.mp h
    obtain ⟨_, hchecks, h⟩ := except_bind_eq_ok.mp h
    obtain rfl := Except.ok.inj h
    refine mean_nonneg fun x hx => ?_
    obtain ⟨e, he, rfl⟩ := List.mem_map.mp hx
    obtain ⟨m, hm, rfl⟩ := List.mem_map.mp he
    have hcheck := forM_ok.mp hchecks m hm
    obtain ⟨_, -, hcheck⟩ := except_bind_eq_ok.mp hcheck
    obtain ⟨_, hmae, -⟩ := except_bind_eq_ok.mp hcheck
    exact not_lt.mp (raiseIf_eq_ok.mp hmae)
  · cases h

/-- What `aggregate` calls eligible can be compared at its stage. -/
theorem aggregate_valid {workloads : Dict String WorkloadRow} {expected : List String} {stage : Stage}
    {objective : RequestObjective} {report : Report} (h : aggregate workloads expected stage objective = .ok report)
    (heligible : report.eligibleForPromotion = true) : ∃ v, Summary.Valid ⟨report, unrounded⟩ stage v := by
  unfold aggregate at h
  obtain ⟨_, -, h⟩ := except_bind_eq_ok.mp h
  obtain ⟨_, -, h⟩ := except_bind_eq_ok.mp h
  obtain ⟨_, -, h⟩ := except_bind_eq_ok.mp h
  split at h
  · cases h
  unfold aggregateRows at h
  obtain ⟨_, -, h⟩ := except_bind_eq_ok.mp h
  obtain ⟨_, hcycles, h⟩ := except_bind_eq_ok.mp h
  obtain ⟨requests, hrequests, h⟩ := except_bind_eq_ok.mp h
  obtain ⟨_, -, h⟩ := except_bind_eq_ok.mp h
  obtain rfl := Except.ok.inj h
  simp only [Bool.and_eq_true] at heligible
  unfold summarizeIf at hrequests
  rw [if_pos heligible.1] at hrequests
  obtain ⟨s, hs, rfl⟩ := except_map_eq_ok.mp hrequests
  refine ⟨_, valid_of_report (by simpa using heligible) rfl rfl rfl ?_ (summarize_nonneg hs)⟩
  refine mean_nonneg fun x hx => ?_
  exact not_lt.mp fun hneg => raiseIf_eq_ok.mp hcycles ⟨x, hx, hneg⟩

/-! ## The rule -/

/-- The gate opens only on validation objectives that are no worse. -/
theorem passesGate_true {candidate incumbent : Option Summary} (h : passesGate candidate incumbent = .ok true) :
    ∀ i ∈ incumbent, ∃ c new old, candidate = some c ∧ c.Valid .validation new ∧ i.Valid .validation old ∧ new ≤ old := by
  rintro i hi
  obtain rfl : incumbent = some i := hi
  cases candidate with
  | none => cases h
  | some c =>
      unfold passesGate at h
      simp only at h
      split at h
      · cases h
      · obtain ⟨new, hnew, h⟩ := except_bind_eq_ok.mp h
        obtain ⟨old, hold, h⟩ := except_bind_eq_ok.mp h
        have hle := Except.ok.inj h
        rw [Bool.and_eq_true, decide_eq_true_iff, decide_eq_true_iff] at hle
        exact ⟨c, new, old, rfl, hnew, hold, hle⟩

/-- A candidate is promoted only where its objectives dominate, and the gate opens. -/
theorem shouldPromote_true {candidate incumbent : Summary} {mechanicallyValid : Bool} {cv iv : Option Summary}
    (h : shouldPromote candidate incumbent mechanicallyValid cv iv = .ok true) :
    ∃ new old, candidate.Valid .training new ∧ incumbent.Valid .training old ∧ new < old ∧ passesGate cv iv = .ok true := by
  obtain ⟨old, hold, h⟩ := except_bind_eq_ok.mp h
  split at h
  · cases h
  · obtain ⟨new, hnew, h⟩ := except_bind_eq_ok.mp h
    split at h
    · cases h
    · next hdominates => exact ⟨new, old, hnew, hold, dominates_iff.mp (by simpa using hdominates), h⟩

/-- The rule raises nothing where the incumbent can be compared, an eligible candidate can, and a gate has both
sides in order. -/
theorem shouldPromote_ok {candidate incumbent : Summary} {mechanicallyValid : Bool} {cv iv : Option Summary}
    (hincumbent : ∃ v, incumbent.Valid .training v)
    (hcandidate : candidate.report.eligibleForPromotion = true → ∃ v, candidate.Valid .training v)
    (hgate : ∃ b, passesGate cv iv = .ok b) :
    ∃ b, shouldPromote candidate incumbent mechanicallyValid cv iv = .ok b := by
  obtain ⟨old, hold⟩ := hincumbent
  by_cases hstop : mechanicallyValid = false ∨ candidate.report.eligibleForPromotion = false
  · exact ⟨false, except_bind_eq_ok.mpr ⟨old, hold, if_pos hstop⟩⟩
  · have heligible := (not_or.mp hstop).2
    rw [Bool.not_eq_false] at heligible
    obtain ⟨new, hnew⟩ := hcandidate heligible
    by_cases hdominates : dominates new old = false
    · exact ⟨false, except_bind_eq_ok.mpr ⟨old, hold, (if_neg hstop).trans
        (except_bind_eq_ok.mpr ⟨new, hnew, if_pos hdominates⟩)⟩⟩
    · obtain ⟨b, hb⟩ := hgate
      exact ⟨b, except_bind_eq_ok.mpr ⟨old, hold, (if_neg hstop).trans
        (except_bind_eq_ok.mpr ⟨new, hnew, (if_neg hdominates).trans hb⟩)⟩⟩

theorem passesGate_ok {candidate : Option Summary} {incumbent : Summary}
    (hincumbent : ∃ v, incumbent.Valid .validation v)
    (hcandidate : ∀ c ∈ candidate, c.report.eligibleForPromotion = true → ∃ v, c.Valid .validation v) :
    ∃ b, passesGate candidate (some incumbent) = .ok b := by
  cases candidate with
  | none => exact ⟨false, rfl⟩
  | some c =>
      unfold passesGate
      simp only
      split
      · exact ⟨false, rfl⟩
      · next heligible =>
        obtain ⟨new, hnew⟩ := hcandidate c rfl (by simpa using heligible)
        obtain ⟨old, hold⟩ := hincumbent
        exact ⟨_, except_bind_eq_ok.mpr ⟨new, hnew, except_bind_eq_ok.mpr ⟨old, hold, rfl⟩⟩⟩

end Ramulator.ChiaLoop.Scoring
