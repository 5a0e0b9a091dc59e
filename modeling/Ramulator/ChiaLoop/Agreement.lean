/-
# Ramulator.ChiaLoop.Agreement — matcher, payload, validator and aggregate agree.

Four modules compute the facts of one population again: `match` counts it, `request_payload_from_match`
turns the counts into ratios, `validate_request_payload` asks for every ratio once more, and `aggregate`
decides from the payload what `score_workload` decided from the match. A result of `match` that has pairs
passes the validator, and a row of `score_workload` passes the checks of `aggregate`. `match` answers for all
frames that can be compared, and `aggregate` for every cohort of such rows.
-/
import Ramulator.ChiaLoop.Pairing
import Ramulator.ChiaLoop.Scoring
import Mathlib.Algebra.BigOperators.Group.List.Basic
import Mathlib.Algebra.Order.BigOperators.Group.List
import Mathlib.Data.List.GetD
import Mathlib.Tactic.Positivity

namespace Ramulator.ChiaLoop.Scoring

open Ramulator.Lib

/-! ## Statistics are not negative -/

theorem mean_nonneg {xs : List ℚ} (h : ∀ x ∈ xs, 0 ≤ x) : 0 ≤ mean xs :=
  div_nonneg (List.sum_nonneg h) (Nat.cast_nonneg _)

theorem getD_nonneg {xs : List ℚ} (h : ∀ x ∈ xs, 0 ≤ x) (i : Nat) {x : ℚ} (hx : 0 ≤ x) : 0 ≤ xs.getD i x := by
  by_cases hi : i < xs.length
  · rw [List.getD_eq_getElem _ _ hi]
    exact h _ (List.getElem_mem hi)
  · rw [List.getD_eq_default _ _ (by omega)]
    exact hx

theorem interpolate_nonneg {lower upper weight : ℚ} (hl : 0 ≤ lower) (hu : 0 ≤ upper) (hw : 0 ≤ weight)
    (hw' : weight ≤ 1) : 0 ≤ lower + (upper - lower) * weight := by
  calc (0 : ℚ) ≤ lower * (1 - weight) + upper * weight :=
        add_nonneg (mul_nonneg hl (by linarith)) (mul_nonneg hu hw)
    _ = lower + (upper - lower) * weight := by ring

/-- A percentile lies between two members. -/
theorem percentile_nonneg {xs : List ℚ} (h : ∀ x ∈ xs, 0 ≤ x) {q : ℚ} (hq : 0 ≤ q) (hxs : xs ≠ []) :
    0 ≤ percentile xs q := by
  have hsorted : ∀ x ∈ xs.insertionSort (· ≤ ·), 0 ≤ x := by
    intro x hx
    exact h x ((List.mem_insertionSort _).mp hx)
  have hlength : (1 : ℚ) ≤ xs.length := by
    exact_mod_cast List.length_pos_of_ne_nil hxs
  have hplace : 0 ≤ ((xs.length : ℚ) - 1) * q := mul_nonneg (by linarith) hq
  have hfloor := Nat.floor_le hplace
  have hceil := Nat.lt_floor_add_one (((xs.length : ℚ) - 1) * q)
  have hlower := getD_nonneg hsorted ⌊((xs.length : ℚ) - 1) * q⌋₊ (le_refl 0)
  apply interpolate_nonneg hlower (getD_nonneg hsorted _ hlower)
  · linarith
  · linarith

theorem abs_nonneg_of_mem {delta : List Int} {x : ℚ} (hx : x ∈ delta.map fun d => ((|d| : Int) : ℚ)) : 0 ≤ x := by
  obtain ⟨d, -, rfl⟩ := List.mem_map.mp hx
  exact_mod_cast abs_nonneg d

/-- The statistics of paired errors exist, and the two that are scored are not negative. -/
theorem pairedErrorStatistics_ok {delta : List Int} {scale : ℚ} (hdelta : delta ≠ []) (hscale : 0 < scale)
    (includeTails : Bool) :
    ∃ s, pairedErrorStatistics delta scale includeTails = .ok s ∧ 0 ≤ s.mae ∧ 0 ≤ s.tail := by
  unfold pairedErrorStatistics
  rw [if_neg (by rintro (h | h) <;> [exact hdelta h; linarith])]
  refine ⟨_, rfl, ?_, ?_⟩
  · exact div_nonneg (mean_nonneg fun x hx => abs_nonneg_of_mem hx) hscale.le
  · refine div_nonneg (percentile_nonneg (fun x hx => abs_nonneg_of_mem hx) (by norm_num) ?_) hscale.le
    simpa using hdelta

/-! ## Ratios -/

theorem isClose_refl (a : ℚ) : isClose a a := by
  unfold isClose
  rw [sub_self, abs_zero]
  norm_num

theorem requestSemantics_eq_ok {value label : String} {u : Unit} :
    requestSemantics value label = .ok u ↔ Meaningful value :=
  raiseIf_eq_ok.trans not_not

theorem positiveCount_eq_ok {value : Nat} {label : String} {u : Unit} :
    positiveCount value label = .ok u ↔ 0 < value :=
  raiseIf_eq_ok.trans Nat.not_lt

theorem requestCoverage_eq_ok {value : ℚ} {label : String} {u : Unit} :
    requestCoverage value label = .ok u ↔ 0 ≤ value ∧ value ≤ 1 :=
  raiseIf_eq_ok.trans not_not

theorem requireRatio_eq_ok {actual : ℚ} {numerator denominator : Nat} {label : String} {u : Unit} :
    requireRatio actual numerator denominator label = .ok u ↔ isClose actual (numerator / denominator) :=
  raiseIf_eq_ok.trans not_not

theorem isClose_of_eq {a b : ℚ} (h : a = b) : isClose a b := h ▸ isClose_refl a

theorem ratio_mem_unit {n d : Nat} (h : n ≤ d) : 0 ≤ (n : ℚ) / d ∧ (n : ℚ) / d ≤ 1 :=
  ⟨by positivity, div_le_one_of_le₀ (Nat.cast_le.mpr h) (Nat.cast_nonneg d)⟩

theorem share_of_pos {n d : Nat} (h : 0 < d) : share n d = (n : ℚ) / d := by
  rw [share, max_eq_left h]

theorem coverage_of_pos {n d : Nat} (h : 0 < d) : coverage n d = (n : ℚ) / d := if_pos h

/-! ## A result passes the validator -/

/-- What a result says of its mode, in the terms of the validator. -/
def MatchResult.ModeConsistent (r : MatchResult) : Prop :=
  (r.matchMode = .stableId ∧ r.legacyFallbackReason = none ∧ r.dv.length ≤ r.stableEligibleO ∧
    r.dv.length ≤ r.stableEligibleM ∧ r.stableCovO = r.dv.length / r.stableEligibleO ∧
    r.stableCovM = r.dv.length / r.stableEligibleM) ∨
  (r.matchMode = .legacyOccurrence ∧ r.legacyFallbackReason.getD "" ≠ "" ∧ r.stableCovO = 0 ∧ r.stableCovM = 0)

/-- What a result says of pairs that were filtered. -/
def MatchResult.FilterConsistent (r : MatchResult) : Prop :=
  ∃ logical mismatches : Nat, r.matchMode = .stableId ∧ r.stableLogicalPairs = some logical ∧
    r.addressMismatchPairs = some mismatches ∧ r.physicalConsistentPairs = some r.dv.length ∧
    r.physicalConsistencyRate = some ((r.dv.length : ℚ) / logical) ∧ logical = r.dv.length + mismatches

/-- A result with pairs, as the validator will compute it again. -/
structure MatchResult.Consistent (r : MatchResult) : Prop where
  ordered : r.Ordered
  schema : r.matcherSchemaVersion = Scoring.matcherSchemaVersion
  covO : r.covO = r.dv.length / r.nO
  covM : r.covM = r.dv.length / r.nM
  reads : r.allO.length = r.nO
  mode : r.ModeConsistent
  filter : r.trustedPairPolicy = .champsimExactPhysicalFilter → r.FilterConsistent

theorem matchFrames_modeConsistent {oraclePath modelPath : String} {filter : Bool}
    {oracle model : List Request × Bool} {r : MatchResult}
    (h : matchFrames oraclePath modelPath filter oracle model = .ok r) (hpairs : r.dv ≠ []) : r.ModeConsistent := by
  have hpos := List.length_pos_of_ne_nil hpairs
  have hordered := matchFrames_ordered h
  rcases matchFrames_eq_ok.mp h with ⟨⟨hso, hsm, -⟩, ho, hm, -, rfl⟩ | ⟨-, -, rfl⟩
  · left
    obtain ⟨hle, hlo, hlm⟩ := hordered.logical _ rfl
    refine ⟨rfl, rfl, hle.trans hlo, hle.trans hlm, ?_, ?_⟩
    · have heligible := hpos.trans_le (hle.trans hlo)
      simp only [matchResult, hso, if_true, Option.isSome_some, List.length_map] at heligible ⊢
      exact coverage_of_pos heligible
    · have heligible := hpos.trans_le (hle.trans hlm)
      simp only [matchResult, hsm, if_true, Option.isSome_some, List.length_map] at heligible ⊢
      exact coverage_of_pos heligible
  · right
    refine ⟨rfl, ?_, rfl, rfl⟩
    simp only [matchResult, Option.isSome_none, Bool.false_eq_true, if_false]
    split <;> decide

theorem matchFrames_filterConsistent {oraclePath modelPath : String} {filter : Bool}
    {oracle model : List Request × Bool} {r : MatchResult}
    (h : matchFrames oraclePath modelPath filter oracle model = .ok r) (hpairs : r.dv ≠ [])
    (hfilter : r.trustedPairPolicy = .champsimExactPhysicalFilter) : r.FilterConsistent := by
  have hpos := List.length_pos_of_ne_nil hpairs
  have hlogical := matchFrames_logical h
  rcases matchFrames_eq_ok.mp h with ⟨-, -, -, -, rfl⟩ | ⟨-, rfl, rfl⟩
  · have hsum := hlogical _ rfl
    refine ⟨_, _, rfl, rfl, rfl, ?_, ?_, hsum⟩
    all_goals simp only [matchResult, List.length_map, Option.map_some, Option.getD_some, Option.bind_some] at hsum hpos ⊢
    · congr 1
      omega
    · rw [if_neg (by omega)]
      congr 3
      omega
  · cases hfilter

theorem matchFrames_consistent {oraclePath modelPath : String} {filter : Bool} {oracle model : List Request × Bool}
    {r : MatchResult} (h : matchFrames oraclePath modelPath filter oracle model = .ok r) (hpairs : r.dv ≠ []) :
    r.Consistent := by
  have hpos := List.length_pos_of_ne_nil hpairs
  have hordered := matchFrames_ordered h
  have hno := hpos.trans_le hordered.oracle
  have hnm := hpos.trans_le hordered.model
  have hmode := matchFrames_modeConsistent h hpairs
  have hfilter := matchFrames_filterConsistent h hpairs
  rcases matchFrames_eq_ok.mp h with ⟨-, -, -, -, rfl⟩ | ⟨-, -, rfl⟩
  all_goals
    refine ⟨hordered, rfl, ?_, ?_, List.length_map _, hmode, hfilter⟩
    all_goals simp only [matchResult, List.length_map] at hno hnm ⊢
    · exact share_of_pos hno
    · exact share_of_pos hnm

section Validate

variable {r : MatchResult} {s : ErrorStatistics} {scope timebase : String}

theorem validateMode_payloadOf (hr : r.Consistent) (hpairs : r.dv ≠ []) (scale : ℚ) :
    validateMode (payloadOf r s scale scope timebase) = .ok () := by
  have hpos := List.length_pos_of_ne_nil hpairs
  unfold validateMode
  rcases hr.mode with ⟨hmode, hreason, hlo, hlm, hco, hcm⟩ | ⟨hmode, hreason, hco, hcm⟩
  · have hmode' : (payloadOf r s scale scope timebase).matchMode = .stableId := hmode
    rw [hmode']
    simp only [except_bind_eq_ok, raiseIf_eq_ok, requireRatio_eq_ok, exists_const]
    simp only [payloadOf]
    refine ⟨not_not.mpr hreason, ?_, ?_, isClose_of_eq hco, isClose_of_eq hcm⟩
    · omega
    · omega
  · have hmode' : (payloadOf r s scale scope timebase).matchMode = .legacyOccurrence := hmode
    rw [hmode']
    simp only [except_bind_eq_ok, raiseIf_eq_ok, exists_const]
    simp only [payloadOf]
    refine ⟨hreason, ?_⟩
    rintro (hne | hne)
    · exact hne hco
    · exact hne hcm

theorem validateFilter_payloadOf (hr : r.Consistent) (scale : ℚ) :
    validateFilter (payloadOf r s scale scope timebase) = .ok () := by
  unfold validateFilter
  split
  · next hpolicy =>
    obtain ⟨logical, mismatches, hmode, hl, hx, hp, hrate, hsum⟩ := hr.filter hpolicy
    have hle := (hr.ordered.logical logical hl).2
    have hunit : (r.dv.length : ℚ) / logical ≤ 1 := (ratio_mem_unit (by omega)).2
    simp only [payloadOf, hl, hx, hp, hrate, requestCount, except_bind_eq_ok, raiseIf_eq_ok, requestCoverage_eq_ok,
      requireRatio_eq_ok, exists_const, Except.ok.injEq, exists_eq_left']
    refine ⟨?_, ⟨by positivity, hunit⟩, isClose_refl _⟩
    rintro (h | h | h | h)
    · exact h hmode
    · omega
    · exact h hsum
    · exact h rfl
  · rfl

/-- The validator accepts the payload of a result with pairs where the two texts say something. -/
theorem validateRequestPayload_payloadOf (hr : r.Consistent) (hpairs : r.dv ≠ []) (hmean : 0 < r.meanLatency)
    (hmae : 0 ≤ s.mae) (htail : 0 ≤ s.tail) :
    validateRequestPayload (payloadOf r s r.meanLatency scope timebase) scope timebase matcherSchemaVersion = .ok () ↔
      Meaningful scope ∧ Meaningful timebase := by
  have hpos := List.length_pos_of_ne_nil hpairs
  have ho := hr.ordered
  have hstable : (0 ≤ r.stableCovO ∧ r.stableCovO ≤ 1) ∧ 0 ≤ r.stableCovM ∧ r.stableCovM ≤ 1 := by
    rcases hr.mode with ⟨-, -, hlo, hlm, hco, hcm⟩ | ⟨-, -, hco, hcm⟩
    · rw [hco, hcm]
      exact ⟨ratio_mem_unit hlo, ratio_mem_unit hlm⟩
    · rw [hco, hcm]
      exact ⟨⟨le_refl _, zero_le_one⟩, le_refl _, zero_le_one⟩
  have hcovO : 0 ≤ r.covO ∧ r.covO ≤ 1 := by
    rw [hr.covO]
    exact ratio_mem_unit ho.oracle
  have hcovM : 0 ≤ r.covM ∧ r.covM ≤ 1 := by
    rw [hr.covM]
    exact ratio_mem_unit ho.model
  have hmode : validateMode (payloadOf r s r.meanLatency scope timebase) = .ok () :=
    validateMode_payloadOf hr hpairs r.meanLatency
  have hfilter : validateFilter (payloadOf r s r.meanLatency scope timebase) = .ok () :=
    validateFilter_payloadOf hr r.meanLatency
  -- the other checks compare the payload with what it was made from
  unfold validateRequestPayload
  simp only [except_bind_eq_ok, raiseIf_eq_ok, requestSemantics_eq_ok, positiveCount_eq_ok, requestCoverage_eq_ok,
    requireRatio_eq_ok, exists_const, hmode, hfilter]
  simp only [payloadOf, ne_eq, not_true, not_false_eq_true, true_and, and_true]
  constructor
  · rintro ⟨hscope, htimebase, -⟩
    exact ⟨hscope, htimebase⟩
  · rintro ⟨hscope, htimebase⟩
    refine ⟨hscope, htimebase, not_lt.mpr hmae, not_lt.mpr htail, not_le.mpr hmean, hpos, ?_, ?_, ?_, ?_, hcovO, hcovM,
      hstable.1, hstable.2, ratio_mem_unit ho.eligibleOracle, ratio_mem_unit ho.eligibleModel, isClose_of_eq hr.covO,
      isClose_of_eq hr.covM, hcovO, not_not.mpr (isClose_refl _), isClose_refl _, isClose_refl _⟩
    · exact hpos.trans_le ho.oracle
    · exact hpos.trans_le ho.model
    · have := ho.oracle
      have := ho.model
      omega
    · have := ho.eligibleOracle
      have := ho.eligibleModel
      omega

end Validate

/-- A payload was validated, and is that of the result. -/
theorem requestPayloadFromMatch_eq_ok {r : MatchResult} {scope timebase : String} {includeTails : Bool}
    {p : RequestPayload} (h : requestPayloadFromMatch r scope timebase includeTails = .ok p) :
    ∃ s, p = payloadOf r s r.meanLatency scope timebase ∧
      validateRequestPayload p scope timebase matcherSchemaVersion = .ok () := by
  unfold requestPayloadFromMatch at h
  simp only [except_bind_eq_ok, raiseIf_eq_ok, exists_const] at h
  obtain ⟨-, -, -, -, -, s, -, _, hvalid, h⟩ := h
  obtain rfl := Except.ok.inj h
  exact ⟨s, rfl, hvalid⟩

/-- The payload of a result with pairs exists where the two texts say something. -/
theorem requestPayloadFromMatch_ok_iff {r : MatchResult} (hr : r.Consistent) (hpairs : r.dv ≠ [])
    (hmean : 0 < r.meanLatency) (scope timebase : String) (includeTails : Bool) :
    (∃ p, requestPayloadFromMatch r scope timebase includeTails = .ok p) ↔ Meaningful scope ∧ Meaningful timebase := by
  obtain ⟨s, hs, hmae, htail⟩ := pairedErrorStatistics_ok hpairs hmean includeTails
  have hpos := List.length_pos_of_ne_nil hpairs
  have ho := hr.ordered
  have hreads : r.allO ≠ [] := by
    apply List.ne_nil_of_length_pos
    rw [hr.reads]
    exact hpos.trans_le ho.oracle
  have hcounts : ¬ (r.nO = 0 ∨ r.nM = 0) := by
    have := ho.oracle
    have := ho.model
    omega
  rw [← validateRequestPayload_payloadOf hr hpairs hmean hmae htail]
  unfold requestPayloadFromMatch
  simp only [except_bind_eq_ok, raiseIf_eq_ok, exists_const, hs, Except.ok.injEq, exists_eq_left', hr.schema,
    hpairs, hreads, hcounts, not_le.mpr hmean, ne_eq, not_true, not_false_eq_true, true_and]
  constructor
  · rintro ⟨_, _, hvalid, -⟩
    exact hvalid
  · intro hvalid
    exact ⟨_, ⟨⟩, hvalid, rfl⟩

/-! ## A row passes the checks of the aggregate -/

theorem isEmpty_ineligibilityReasons (p : Populations) (ownerReads minimum : Nat) (populationVerified : Bool) :
    (ineligibilityReasons p ownerReads minimum populationVerified).isEmpty =
      (populationVerified && decide (p.matchMode = .stableId) &&
        (decide (p.dv.length ≠ 0) && allEqual [p.dv.length, p.nO, p.nM, p.stableEligibleO, p.stableEligibleM]) &&
        decide (minimum ≤ ownerReads)) := by
  rw [Bool.eq_iff_iff, List.isEmpty_iff]
  simp only [ineligibilityReasons, List.append_eq_nil_iff, ite_eq_left_iff, List.cons_ne_nil, imp_false, not_not,
    Bool.and_eq_true, decide_eq_true_iff]

/-- A row that `score_workload` returned. -/
def Scored (row : WorkloadRow) : Prop :=
  ∃ oracle model result scope timebase minimum populationVerified includeTails,
    scoreWorkload oracle model result scope timebase minimum populationVerified includeTails = .ok row

/-- The request part of a row is none where nothing was paired, and else the payload of a match. -/
theorem payloadIfPaired_eq_ok {result : RequestResult} {scope timebase : String} {includeTails : Bool}
    {request : Option RequestPayload} (h : result.payloadIfPaired scope timebase includeTails = .ok request) :
    (result.populations.dv = [] ∧ request = none) ∨
      (result.populations.dv ≠ [] ∧ ∃ r p, result = .matched r ∧ request = some p ∧
        requestPayloadFromMatch r scope timebase includeTails = .ok p) := by
  unfold RequestResult.payloadIfPaired at h
  by_cases hdv : result.populations.dv = []
  · rw [if_pos hdv] at h
    exact .inl ⟨hdv, (Except.ok.inj h).symm⟩
  · rw [if_neg hdv] at h
    obtain ⟨p, hp, rfl⟩ := except_map_eq_ok.mp h
    cases result with
    | matched r => exact .inr ⟨hdv, r, p, rfl, rfl, hp⟩
    | unmatched q => cases hp

/-- The eligibility of a row is what its payload says, so that no check of `aggregate` refuses it. -/
theorem Scored.checkRow {row : WorkloadRow} (h : Scored row) : checkRow row = .ok () := by
  obtain ⟨oracle, model, result, scope, timebase, minimum, populationVerified, includeTails, h⟩ := h
  unfold scoreWorkload at h
  simp only [except_bind_eq_ok, positiveCount_eq_ok, exists_const] at h
  obtain ⟨hminimum, ownerReads, -, cycles, -, request, hrequest, h⟩ := h
  obtain rfl := Except.ok.inj h
  unfold Scoring.checkRow
  rcases payloadIfPaired_eq_ok hrequest with ⟨hdv, rfl⟩ | ⟨hdv, r, p, rfl, rfl, hp⟩
  · refine raiseIf_eq_ok.mpr ?_
    rw [isEmpty_ineligibilityReasons, hdv]
    simp
  · obtain ⟨s, rfl, hvalid⟩ := requestPayloadFromMatch_eq_ok hp
    refine except_bind_eq_ok.mpr ⟨⟨⟩, except_mapError_eq_ok.mpr hvalid, except_bind_eq_ok.mpr ⟨⟨⟩, ?_, ?_⟩⟩
    · exact except_mapError_eq_ok.mpr (positiveCount_eq_ok.mpr hminimum)
    · refine raiseIf_eq_ok.mpr (not_not.mpr ?_)
      have hpaired : r.dv.length ≠ 0 := fun hzero => hdv (List.length_eq_zero_iff.mp hzero)
      rw [isEmpty_ineligibilityReasons]
      simp only [RequestResult.populations, payloadOf, hpaired, ne_eq, not_false_eq_true, decide_true, Bool.true_and]
      rfl

/-! ## A cohort of such rows -/

theorem mem_of_ordered {workloads : Dict String WorkloadRow} {expected : List String} {rows : Named WorkloadRow}
    (h : ordered workloads expected = some rows) :
    ∀ e, e ∈ rows ↔ e.1 ∈ expected ∧ workloads.lookup e.1 = some e.2 := by
  unfold ordered at h
  induction expected generalizing rows with
  | nil =>
      obtain rfl := Option.some.inj h
      simp
  | cons name expected ih =>
      rw [List.mapM_cons] at h
      obtain ⟨e', he', h⟩ := Option.bind_eq_some_iff.mp h
      obtain ⟨rows', hrows', h⟩ := Option.bind_eq_some_iff.mp h
      obtain rfl := Option.some.inj h
      obtain ⟨row, hrow, rfl⟩ := Option.map_eq_some_iff.mp he'
      intro e
      rw [List.mem_cons, ih hrows', List.mem_cons]
      constructor
      · rintro (rfl | ⟨hmem, hlookup⟩)
        · exact ⟨.inl rfl, hrow⟩
        · exact ⟨.inr hmem, hlookup⟩
      · rintro ⟨rfl | hmem, hlookup⟩
        · rw [hrow] at hlookup
          exact .inl (Prod.ext rfl (Option.some.inj hlookup).symm)
        · exact .inr ⟨hmem, hlookup⟩

/-- A payload that the validator accepts passes the checks of `aggregate_request_metrics`. -/
theorem checkMetric_of_valid {p : RequestPayload} {scope timebase : String} {schema : Nat}
    (h : validateRequestPayload p scope timebase schema = .ok ()) : checkMetric p = .ok () := by
  unfold validateRequestPayload at h
  simp only [except_bind_eq_ok, raiseIf_eq_ok, requestSemantics_eq_ok, positiveCount_eq_ok, requestCoverage_eq_ok,
    requireRatio_eq_ok, exists_const] at h
  obtain ⟨-, -, -, -, -, -, -, hmae, htail, -, -, -, -, -, -, hcovO, hcovM, hstableO, hstableM, -, -, -, -, -, -,
    _, hmode, -⟩ := h
  have hknown : ¬(p.matchMode ≠ .stableId ∧ p.matchMode ≠ .legacyOccurrence) := by
    rintro ⟨hstable, hlegacy⟩
    unfold validateMode at hmode
    cases hcase : p.matchMode with
    | stableId => exact hstable hcase
    | legacyOccurrence => exact hlegacy hcase
    | disabled =>
        rw [hcase] at hmode
        cases hmode
    | invalidIdentity =>
        rw [hcase] at hmode
        cases hmode
  unfold checkMetric
  simp only [except_bind_eq_ok, raiseIf_eq_ok, requestCoverage_eq_ok, exists_const]
  exact ⟨hknown, hmae, htail, hcovO, hcovM, hstableO, hstableM⟩

theorem Scored.checkMetric {row : WorkloadRow} (h : Scored row) {p : RequestPayload} (hp : row.request = some p) :
    checkMetric p = .ok () := by
  have hrow := h.checkRow
  unfold Scoring.checkRow at hrow
  rw [hp] at hrow
  obtain ⟨_, hvalid, -⟩ := except_bind_eq_ok.mp hrow
  exact checkMetric_of_valid (except_mapError_eq_ok.mp hvalid)

/-- The cycle error of a row is a mean of absolute values. -/
theorem Scored.cycles_nonneg {row : WorkloadRow} (h : Scored row) : 0 ≤ row.cycles.meanAbsPerCorePct := by
  obtain ⟨oracle, model, result, scope, timebase, minimum, populationVerified, includeTails, h⟩ := h
  unfold scoreWorkload at h
  simp only [except_bind_eq_ok, positiveCount_eq_ok, exists_const] at h
  obtain ⟨-, ownerReads, -, cycles, hcycles, request, -, h⟩ := h
  obtain rfl := Except.ok.inj h
  unfold cyclesMetrics at hcycles
  obtain ⟨_, -, hcycles⟩ := except_bind_eq_ok.mp hcycles
  obtain ⟨_, -, hcycles⟩ := except_bind_eq_ok.mp hcycles
  obtain rfl := Except.ok.inj hcycles
  refine mean_nonneg fun x hx => ?_
  obtain ⟨d, -, rfl⟩ := List.mem_map.mp hx
  exact abs_nonneg d

/-- A row that an objective accepts has a request part. -/
theorem Scored.request_of_eligible {row : WorkloadRow} (h : Scored row) {objective : RequestObjective}
    (heligible : eligibleFor objective row = true) : ∃ p, row.request = some p := by
  cases hrequest : row.request with
  | some p => exact ⟨p, rfl⟩
  | none =>
      have hrow := h.checkRow
      unfold Scoring.checkRow at hrow
      rw [hrequest] at hrow
      unfold eligibleFor at heligible
      rw [hrequest] at heligible
      cases objective with
      | completeStableId => exact absurd heligible (raiseIf_eq_ok.mp hrow)
      | champsimExactPhysicalFilter => simp at heligible
      | champsimForegroundStablePairs => simp at heligible

theorem mapM_some {α β : Type} {f : α → Option β} {xs : List α} (h : ∀ x ∈ xs, ∃ y, f x = some y) :
    ∃ ys, xs.mapM f = some ys ∧ ys.length = xs.length ∧ ∀ y ∈ ys, ∃ x ∈ xs, f x = some y := by
  induction xs with
  | nil => exact ⟨[], rfl, rfl, nofun⟩
  | cons x xs ih =>
      obtain ⟨y, hy⟩ := h x List.mem_cons_self
      obtain ⟨ys, hys, hlength, hmem⟩ := ih fun x hx => h x (List.mem_cons_of_mem _ hx)
      refine ⟨y :: ys, ?_, ?_, ?_⟩
      · rw [List.mapM_cons, hy, hys]
        rfl
      · rw [List.length_cons, List.length_cons, hlength]
      · intro z hz
        rcases List.mem_cons.mp hz with rfl | hz
        · exact ⟨x, List.mem_cons_self, hy⟩
        · obtain ⟨x', hx', hz'⟩ := hmem z hz
          exact ⟨x', List.mem_cons_of_mem _ hx', hz'⟩

/-- Rows that have request parts have a summary. -/
theorem summarize_ok {rows : Named WorkloadRow} (hrows : ∀ e ∈ rows, Scored e.2) (hne : rows ≠ [])
    (hrequests : ∀ e ∈ rows, ∃ p, e.2.request = some p) : ∃ s, summarize rows = .ok s := by
  have hsome : ∀ e ∈ rows, ∃ named : String × RequestPayload, (e.2.request.map fun r => (e.1, r)) = some named := by
    intro e he
    obtain ⟨p, hp⟩ := hrequests e he
    rw [hp]
    exact ⟨_, rfl⟩
  obtain ⟨requests, hmap, hlength, hfrom⟩ := mapM_some hsome
  unfold summarize
  rw [hmap]
  have hnonempty : ¬requests.isEmpty = true := by
    intro hempty
    rw [List.isEmpty_iff.mp hempty] at hlength
    exact hne (List.length_eq_zero_iff.mp hlength.symm)
  have hmetrics : (forM requests fun e => checkMetric e.2) = .ok () := by
    refine forM_ok.mpr fun named hnamed => ?_
    obtain ⟨e, he, hrequest⟩ := hfrom named hnamed
    obtain ⟨p, hp, rfl⟩ := Option.map_eq_some_iff.mp hrequest
    exact (hrows e he).checkMetric hp
  unfold aggregateRequestMetrics
  exact ⟨_, except_mapError_eq_ok.mpr (except_bind_eq_ok.mpr
    ⟨⟨⟩, raiseIf_eq_ok.mpr hnonempty, except_bind_eq_ok.mpr ⟨⟨⟩, hmetrics, rfl⟩⟩)⟩

theorem summarizeIf_ok {c : Prop} [Decidable c] {rows : Named WorkloadRow} (hrows : ∀ e ∈ rows, Scored e.2)
    (hne : rows ≠ []) (hrequests : c → ∀ e ∈ rows, ∃ p, e.2.request = some p) : ∃ s, summarizeIf c rows = .ok s := by
  unfold summarizeIf
  split
  · next hc =>
    obtain ⟨s, hs⟩ := summarize_ok hrows hne (hrequests hc)
    exact ⟨_, except_map_eq_ok.mpr ⟨s, hs, rfl⟩⟩
  · exact ⟨_, rfl⟩

theorem diagnosticsOf_ok {stage : Stage} {rows : Named WorkloadRow} (hrows : ∀ e ∈ rows, Scored e.2)
    (hne : rows ≠ []) : ∃ d, diagnosticsOf stage rows = .ok d := by
  unfold diagnosticsOf
  split
  · have hrequests : (rows.filter fun e => withoutFilteredPairs e.2).map Prod.fst = [] →
        ∀ e ∈ rows, ∃ p, e.2.request = some p := by
      intro hnone e he
      cases hrequest : e.2.request with
      | some p => exact ⟨p, rfl⟩
      | none =>
          -- a row without pairs would be listed
          have hlisted : withoutFilteredPairs e.2 = true := by
            unfold withoutFilteredPairs
            rw [hrequest]
          rw [List.map_eq_nil_iff, List.filter_eq_nil_iff] at hnone
          exact absurd hlisted (hnone e he)
    obtain ⟨s, hs⟩ := summarizeIf_ok hrows hne hrequests
    exact ⟨_, except_map_eq_ok.mpr ⟨_, except_bind_eq_ok.mpr ⟨s, hs, rfl⟩, rfl⟩⟩
  · exact ⟨_, rfl⟩

/-- Over rows of `score_workload` the report is made. -/
theorem aggregateRows_ok {rows : Named WorkloadRow} (hrows : ∀ e ∈ rows, Scored e.2) (hne : rows ≠ [])
    (stage : Stage) (objective : RequestObjective) : ∃ report, aggregateRows rows stage objective = .ok report := by
  have hchecks : (forM rows fun e => checkRow e.2) = .ok () := forM_ok.mpr fun e he => (hrows e he).checkRow
  have hcycles : ¬∃ v ∈ rows.map fun e => e.2.cycles.meanAbsPerCorePct, v < 0 := by
    rintro ⟨v, hv, hneg⟩
    obtain ⟨e, he, rfl⟩ := List.mem_map.mp hv
    exact absurd (hrows e he).cycles_nonneg (not_le.mpr hneg)
  have heligible : (rows.all fun e => eligibleFor objective e.2) = true → ∀ e ∈ rows, ∃ p, e.2.request = some p :=
    fun hall e he => (hrows e he).request_of_eligible (List.all_eq_true.mp hall e he)
  obtain ⟨requests, hrequests⟩ := summarizeIf_ok hrows hne heligible
  obtain ⟨diagnostics, hdiagnostics⟩ := @diagnosticsOf_ok stage rows hrows hne
  unfold aggregateRows
  exact ⟨_, except_bind_eq_ok.mpr ⟨⟨⟩, hchecks, except_bind_eq_ok.mpr ⟨⟨⟩, raiseIf_eq_ok.mpr hcycles,
    except_bind_eq_ok.mpr ⟨requests, hrequests, except_bind_eq_ok.mpr ⟨diagnostics, hdiagnostics, rfl⟩⟩⟩⟩⟩

theorem aggregateRows_eq_ok {rows : Named WorkloadRow} {stage : Stage} {objective : RequestObjective}
    {report : Report} (h : aggregateRows rows stage objective = .ok report) :
    report.eligibleForPromotion =
      ((rows.all fun e => eligibleFor objective e.2) && decide (stage = .training ∨ stage = .validation)) := by
  unfold aggregateRows at h
  obtain ⟨_, -, h⟩ := except_bind_eq_ok.mp h
  obtain ⟨_, -, h⟩ := except_bind_eq_ok.mp h
  obtain ⟨_, -, h⟩ := except_bind_eq_ok.mp h
  obtain ⟨_, -, h⟩ := except_bind_eq_ok.mp h
  obtain rfl := Except.ok.inj h
  rfl

/-- The workloads are the expected ones, each named once, and were observed in one way. -/
structure Cohort (workloads : Dict String WorkloadRow) (expected : List String) : Prop where
  nonempty : expected ≠ []
  distinct : expected.Nodup
  known : ∀ name ∈ workloads.keys, name ∈ expected
  complete : ∀ name ∈ expected, name ∈ workloads.keys
  observed : ∀ e ∈ workloads, ∀ e' ∈ workloads, e.2.observation = e'.2.observation

theorem ordered_of_cohort {workloads : Dict String WorkloadRow} {expected : List String}
    (h : Cohort workloads expected) : ∃ rows, ordered workloads expected = some rows ∧ rows ≠ [] := by
  have hsome : ∀ name ∈ expected, ∃ e : String × WorkloadRow,
      ((workloads.lookup name).map fun row => (name, row)) = some e := by
    intro name hname
    obtain ⟨row, hrow⟩ := Dict.exists_lookup_of_mem_keys (h.complete name hname)
    rw [hrow]
    exact ⟨_, rfl⟩
  obtain ⟨rows, hrows, hlength, -⟩ := mapM_some hsome
  refine ⟨rows, hrows, fun hempty => h.nonempty ?_⟩
  rw [hempty] at hlength
  exact List.length_eq_zero_iff.mp hlength.symm

/-- `aggregate` answers for every cohort of rows of `score_workload`, and for nothing else. -/
theorem aggregate_answers {workloads : Dict String WorkloadRow} (hrows : ∀ e ∈ workloads, Scored e.2)
    (expected : List String) (stage : Stage) (objective : RequestObjective) :
    (∃ report, aggregate workloads expected stage objective = .ok report) ↔ Cohort workloads expected := by
  constructor
  · rintro ⟨report, h⟩
    unfold aggregate at h
    obtain ⟨_, hpopulation, h⟩ := except_bind_eq_ok.mp h
    obtain ⟨_, hcohort, h⟩ := except_bind_eq_ok.mp h
    obtain ⟨_, hobservations, -⟩ := except_bind_eq_ok.mp h
    obtain ⟨hne, hnodup⟩ := not_or.mp (raiseIf_eq_ok.mp hpopulation)
    obtain ⟨hknown, hcomplete⟩ := not_not.mp (raiseIf_eq_ok.mp hcohort)
    refine ⟨hne, not_not.mp hnodup, hknown, hcomplete, fun e he e' he' => ?_⟩
    by_contra hdiffer
    exact raiseIf_eq_ok.mp hobservations ⟨e, he, e', he', hdiffer⟩
  · intro h
    obtain ⟨rows, hordered, hne⟩ := ordered_of_cohort h
    have hscored : ∀ e ∈ rows, Scored e.2 :=
      fun e he => hrows e (mem_of_lookup ((mem_of_ordered hordered e).mp he).2)
    obtain ⟨report, hreport⟩ := aggregateRows_ok hscored hne stage objective
    unfold aggregate
    refine ⟨report, except_bind_eq_ok.mpr ⟨⟨⟩, raiseIf_eq_ok.mpr ?_, except_bind_eq_ok.mpr ⟨⟨⟩, raiseIf_eq_ok.mpr ?_,
      except_bind_eq_ok.mpr ⟨⟨⟩, raiseIf_eq_ok.mpr ?_, ?_⟩⟩⟩⟩
    · exact not_or.mpr ⟨h.nonempty, not_not.mpr h.distinct⟩
    · exact not_not.mpr ⟨h.known, h.complete⟩
    · rintro ⟨e, he, e', he', hdiffer⟩
      exact hdiffer (h.observed e he e' he')
    · rw [hordered]
      exact hreport

/-- What `aggregate` refuses is the cohort, never what a row says of itself. -/
theorem aggregate_error {workloads : Dict String WorkloadRow} (hrows : ∀ e ∈ workloads, Scored e.2)
    {expected : List String} {stage : Stage} {objective : RequestObjective} {e : AggregateError}
    (h : aggregate workloads expected stage objective = .error e) :
    e = .population ∨ e = .cohort ∨ e = .observations := by
  unfold aggregate at h
  rcases except_bind_eq_error.mp h with h | ⟨_, hpopulation, h⟩
  · exact .inl (raiseIf_eq_error.mp h).2.symm
  rcases except_bind_eq_error.mp h with h | ⟨_, hcohort, h⟩
  · exact .inr (.inl (raiseIf_eq_error.mp h).2.symm)
  rcases except_bind_eq_error.mp h with h | ⟨_, -, h⟩
  · exact .inr (.inr (raiseIf_eq_error.mp h).2.symm)
  cases hordered : ordered workloads expected with
  | none =>
      rw [hordered] at h
      cases h
      exact .inr (.inl rfl)
  | some rows =>
      rw [hordered] at h
      have hscored : ∀ e ∈ rows, Scored e.2 :=
        fun e he => hrows e (mem_of_lookup ((mem_of_ordered hordered e).mp he).2)
      have hne : rows ≠ [] := by
        rintro rfl
        obtain ⟨name, hname⟩ := List.exists_mem_of_ne_nil _ (not_or.mp (raiseIf_eq_ok.mp hpopulation)).1
        obtain ⟨-, hcomplete⟩ := not_not.mp (raiseIf_eq_ok.mp hcohort)
        obtain ⟨row, hrow⟩ := Dict.exists_lookup_of_mem_keys (hcomplete name hname)
        cases (mem_of_ordered hordered (name, row)).mpr ⟨hname, hrow⟩
      obtain ⟨report, hreport⟩ := aggregateRows_ok hscored hne stage objective
      have hreport' : aggregateRows rows stage objective = .error e := h
      rw [hreport] at hreport'
      cases hreport'

/-- A report may be promoted where every row is eligible, in training and validation. -/
theorem aggregate_eligible_iff {workloads : Dict String WorkloadRow} {expected : List String} {stage : Stage}
    {report : Report} (h : aggregate workloads expected stage .completeStableId = .ok report) :
    report.eligibleForPromotion = true ↔
      (∀ name row, workloads.lookup name = some row → row.requestHeadlineEligible = true) ∧
        (stage = .training ∨ stage = .validation) := by
  unfold aggregate at h
  obtain ⟨_, -, h⟩ := except_bind_eq_ok.mp h
  obtain ⟨_, hcohort, h⟩ := except_bind_eq_ok.mp h
  obtain ⟨_, -, h⟩ := except_bind_eq_ok.mp h
  obtain ⟨hknown, -⟩ := not_not.mp (raiseIf_eq_ok.mp hcohort)
  cases hordered : ordered workloads expected with
  | none =>
      rw [hordered] at h
      cases h
  | some rows =>
      rw [hordered] at h
      rw [aggregateRows_eq_ok h, Bool.and_eq_true, decide_eq_true_iff, List.all_eq_true]
      refine and_congr_left fun _ => ?_
      constructor
      · intro hall name row hlookup
        have hname : name ∈ expected := hknown name (List.mem_map_of_mem (mem_of_lookup hlookup))
        exact hall (name, row) ((mem_of_ordered hordered _).mpr ⟨hname, hlookup⟩)
      · intro hall e he
        exact hall e.1 e.2 ((mem_of_ordered hordered e).mp he).2

/-! ## Agreement -/

/-- What `match` returned is one difference for each key of its mode. -/
def MatchResult.PairsEachKey (r : MatchResult) (oracle model : List Request × Bool) (filter : Bool) : Prop :=
  if usesIdentities oracle.1 model.1 oracle.2 model.2 then
    r.matchMode = .stableId ∧
      OnePerKey (ReadOfIdentity oracle.1) (ReadOfIdentity model.1) (fun o m => filter = true → o.addr = m.addr) r.dv
  else
    r.matchMode = .legacyOccurrence ∧
      OnePerKey (ReadOfOccurrence oracle.1) (ReadOfOccurrence model.1) (fun _ _ => True) r.dv

theorem matchFrames_pairsEachKey {oraclePath modelPath : String} {filter : Bool} {oracle model : List Request × Bool}
    {r : MatchResult} (h : matchFrames oraclePath modelPath filter oracle model = .ok r) :
    r.PairsEachKey oracle model filter := by
  unfold MatchResult.PairsEachKey
  rcases matchFrames_eq_ok.mp h with ⟨huses, ho, hm, hsame, rfl⟩ | ⟨huses, -, rfl⟩
  · rw [if_pos huses]
    exact ⟨rfl, logicalPairs_onePerKey ho hm hsame⟩
  · rw [if_neg huses]
    exact ⟨rfl, legacyPairs_onePerKey oracle.1 model.1⟩

/-- Matcher, payload, validator and aggregate agree on every population. `match` answers for all traces that
load, were observed under one policy and can be compared, `aggregate` for every cohort of scored rows. -/
theorem populations_agree :
    (∀ (oracle model : Table) (filter : Bool) (oracleWindows modelWindows : Option (List AdmissionWindow))
        (o m : List Request × Bool), loadFrame oracle oracleWindows = .ok o → loadFrame model modelWindows = .ok m →
      ((∃ r, matchTraces oracle model filter oracleWindows modelWindows = .ok r) ↔
        oracleWindows.isNone = modelWindows.isNone ∧ FramesComparable filter o m) ∧
      ∀ r, matchTraces oracle model filter oracleWindows modelWindows = .ok r →
        r.PairsEachKey o m filter ∧ r.Ordered ∧ (∃ c, champsimPairingCounts r = .ok c) ∧
        (r.dv ≠ [] → 0 < r.meanLatency → ∀ scope timebase includeTails,
          (∃ p, requestPayloadFromMatch r scope timebase includeTails = .ok p) ↔
            Meaningful scope ∧ Meaningful timebase)) ∧
    (∀ workloads : Dict String WorkloadRow, (∀ e ∈ workloads, Scored e.2) → ∀ expected stage,
      (∀ objective, ((∃ report, aggregate workloads expected stage objective = .ok report) ↔
          Cohort workloads expected) ∧
        aggregate workloads expected stage objective ≠ .error .contradiction ∧
        aggregate workloads expected stage objective ≠ .error .missingRequest) ∧
      ∀ report, aggregate workloads expected stage .completeStableId = .ok report →
        (report.eligibleForPromotion = true ↔
          (∀ name row, workloads.lookup name = some row → row.requestHeadlineEligible = true) ∧
            (stage = .training ∨ stage = .validation))) := by
  constructor
  · intro oracle model filter oracleWindows modelWindows o m ho hm
    refine ⟨?_, fun r h => ?_⟩
    · simp only [matchTraces_eq_ok ho hm, exists_and_left, matchFrames_answers]
    · obtain ⟨-, hframes⟩ := (matchTraces_eq_ok ho hm).mp h
      have hordered := matchFrames_ordered hframes
      refine ⟨matchFrames_pairsEachKey hframes, hordered,
        champsimPairingCounts_ok hordered (matchFrames_logical hframes), ?_⟩
      intro hpairs hmean scope timebase includeTails
      exact requestPayloadFromMatch_ok_iff (matchFrames_consistent hframes hpairs) hpairs hmean scope timebase
        includeTails
  · intro workloads hrows expected stage
    refine ⟨fun objective => ⟨aggregate_answers hrows expected stage objective, fun h => ?_, fun h => ?_⟩,
      fun report h => aggregate_eligible_iff h⟩
    · rcases aggregate_error hrows h with he | he | he <;> cases he
    · rcases aggregate_error hrows h with he | he | he <;> cases he

/-! ### Small traces -/

/-- A trace of reads, each admitted in its place: departure, address and identity. -/
def smallTrace (path : String) (reads : List (Int × Int × Int)) : Table where
  path
  columns := baseColumns ++ stableColumns
  rows := reads.zipIdx.map fun ((depart, addr, identity), ordinal) column =>
    match [("depart", depart), ("addr", addr), ("frontend_id", identity), ("admission_ordinal", (ordinal : Int))].lookup
      column with
    | some value => value
    | none => 0

/-- Two reads of the reference run. -/
def smallOracle : Table := smallTrace "oracle.csv" [(10, 64, 0), (20, 128, 1)]

/-- The reads of a model, in the other order. -/
def smallModel : Table := smallTrace "model.csv" [(24, 128, 1), (9, 64, 0)]

def smallFrame (table : Table) : List Request × Bool := (table.rows.map Request.ofRow, true)

theorem smallOracle_loads : loadFrame smallOracle none = .ok (smallFrame smallOracle) := rfl

theorem smallModel_loads : loadFrame smallModel none = .ok (smallFrame smallModel) := rfl

/-- What is measured beside the requests: one core, and two reads of the owner. -/
def smallMeasurement : Measurement where
  perCoreCycles := [100]
  numReadReqs := some 2

theorem smallMeasurement_scored {r : MatchResult}
    (hr : matchTraces smallOracle smallModel false none none = .ok r) : ∃ row,
      scoreWorkload smallMeasurement smallMeasurement (.matched r) "scope" "cycles" 1 true false = .ok row ∧
        row.requestHeadlineEligible = true := by
  have hcheck : ((matchTraces smallOracle smallModel false none none).toOption.all fun r =>
      (scoreWorkload smallMeasurement smallMeasurement (.matched r) "scope" "cycles" 1 true false).toOption.any
        fun row => row.requestHeadlineEligible) = true := by decide +kernel
  rw [hr] at hcheck
  have hrow : (scoreWorkload smallMeasurement smallMeasurement (.matched r) "scope" "cycles" 1 true false).toOption.any
      (fun row => row.requestHeadlineEligible) = true := hcheck
  cases hscore : scoreWorkload smallMeasurement smallMeasurement (.matched r) "scope" "cycles" 1 true false with
  | error m =>
      rw [hscore] at hrow
      cases hrow
  | ok row =>
      rw [hscore] at hrow
      exact ⟨row, rfl, hrow⟩

/-- The row of the two traces is eligible, and a cohort of it alone is promoted. -/
theorem populations_agree_small :
    ∃ r row, matchTraces smallOracle smallModel false none none = .ok r ∧ r.dv = [-1, 4] ∧
      r.PairsEachKey (smallFrame smallOracle) (smallFrame smallModel) false ∧
      (∃ p, requestPayloadFromMatch r "scope" "cycles" false = .ok p) ∧
      scoreWorkload smallMeasurement smallMeasurement (.matched r) "scope" "cycles" 1 true false = .ok row ∧
      ∃ report, aggregate [("small", row)] ["small"] .training .completeStableId = .ok report ∧
        report.eligibleForPromotion = true := by
  obtain ⟨hmatch, hcohort⟩ := populations_agree
  obtain ⟨hanswers, hpairs⟩ := hmatch smallOracle smallModel false none none _ _ smallOracle_loads smallModel_loads
  obtain ⟨r, hr⟩ := hanswers.mpr ⟨rfl, by decide +kernel⟩
  obtain ⟨hkeys, -, -, hpayload⟩ := hpairs r hr
  have hdv : r.dv = [-1, 4] := by
    have hmapped := congrArg (fun x => x.toOption.map fun r : MatchResult => r.dv) hr
    exact (Option.some.inj hmapped).symm
  have hmean : 0 < r.meanLatency := by
    have hpositive : ((matchTraces smallOracle smallModel false none none).toOption.all fun r =>
        decide (0 < r.meanLatency)) = true := by decide +kernel
    rw [hr] at hpositive
    exact of_decide_eq_true hpositive
  obtain ⟨row, hrow, heligible⟩ := smallMeasurement_scored hr
  have hscored : ∀ e ∈ [("small", row)], Scored e.2 := by
    intro e he
    obtain rfl := List.mem_singleton.mp he
    exact ⟨_, _, _, _, _, _, _, _, hrow⟩
  obtain ⟨haggregate, hpromoted⟩ := hcohort [("small", row)] hscored ["small"] .training
  obtain ⟨report, hreport⟩ := (haggregate .completeStableId).1.mpr
    ⟨by decide, by decide, by simp [Dict.keys], by simp [Dict.keys], by simp⟩
  refine ⟨r, row, hr, hdv, hkeys, (hpayload (by rw [hdv]; decide) hmean _ _ _).mpr ⟨by decide, by decide⟩, hrow, report,
    hreport, (hpromoted report hreport).mpr ⟨?_, .inl rfl⟩⟩
  intro name row' hlookup
  obtain ⟨-, heq⟩ := Prod.mk.inj (List.mem_singleton.mp (mem_of_lookup hlookup))
  rw [heq]
  exact heligible

/-- Traces that load and are refused: an identity comes twice, or has two addresses. -/
theorem comparison_refused :
    (∃ o m, loadFrame (smallTrace "oracle.csv" [(10, 64, 0), (20, 64, 0)]) none = .ok o ∧
      loadFrame smallModel none = .ok m ∧ usesIdentities o.1 m.1 o.2 m.2 ∧
      matchTraces (smallTrace "oracle.csv" [(10, 64, 0), (20, 64, 0)]) smallModel false none none =
        .error (.duplicateIdentity "oracle.csv")) ∧
    ∃ o m, loadFrame (smallTrace "oracle.csv" [(10, 0, 0)]) none = .ok o ∧
      loadFrame smallModel none = .ok m ∧ usesIdentities o.1 m.1 o.2 m.2 ∧
      matchTraces (smallTrace "oracle.csv" [(10, 0, 0)]) smallModel false none none =
        .error (.addressMismatch (0, 0, 0) 0 64) :=
  ⟨⟨_, _, rfl, rfl, by decide +kernel, rfl⟩, _, _, rfl, rfl, by decide +kernel, rfl⟩

end Ramulator.ChiaLoop.Scoring
