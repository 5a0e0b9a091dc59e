/-
# Ramulator.ChiaLoop.RequestMetrics — the payload of a comparison, and its validator.

`request_payload_from_match` (`eval/metrics.py`) turns the result of `match` into the numbers that are
scored, relative to the oracle's mean read latency, and hands them to `validate_request_payload`, which
computes every ratio and every relation of the counts again.

Numbers are rationals in place of floats, so they are finite, and the fields of a payload have their types.
-/
import Ramulator.ChiaLoop.Matching
import Mathlib.Algebra.Order.Floor.Ring
import Mathlib.Algebra.Order.Ring.Abs
import Mathlib.Data.Rat.Floor

namespace Ramulator.ChiaLoop.Scoring

open Ramulator.Lib

/-- What this module raises, with the texts of the source. -/
abbrev Message := String

/-! ## Statistics of the paired errors -/

def mean (xs : List ℚ) : ℚ := xs.sum / xs.length

/-- `np.percentile(xs, 100 * q, method="linear")`. -/
def percentile (xs : List ℚ) (q : ℚ) : ℚ :=
  let sorted := xs.insertionSort (· ≤ ·)
  let place := (xs.length - 1 : ℚ) * q
  let lower := sorted.getD ⌊place⌋₊ 0
  let upper := sorted.getD (⌊place⌋₊ + 1) lower
  lower + (upper - lower) * (place - ⌊place⌋₊)

/-- How much of the error is beyond a threshold. -/
structure TailShare where
  count : Nat
  fraction : ℚ
  absoluteErrorShare : ℚ

/-- What `include_tails` adds. -/
structure Tails where
  pairedP999Cycles : ℚ
  p999OverL : ℚ
  tailThresholds : List (String × TailShare)

structure ErrorStatistics where
  mae : ℚ
  sgn : ℚ
  tail : ℚ
  maeCycles : ℚ
  signedMeanCycles : ℚ
  pairedP99Cycles : ℚ
  extremeMinCycles : Int
  extremeMaxCycles : Int
  extremeMinOverL : ℚ
  extremeMaxOverL : ℚ
  tails : Option Tails

def tailShare (absolute : List ℚ) (bound : ℚ) : TailShare :=
  let selected := absolute.filter fun x => bound < x
  { count := selected.length
    fraction := selected.length / absolute.length
    absoluteErrorShare := if absolute.sum = 0 then 0 else selected.sum / absolute.sum }

def tailsOf (absolute : List ℚ) (scale : ℚ) : Tails where
  pairedP999Cycles := percentile absolute (999 / 1000)
  p999OverL := percentile absolute (999 / 1000) / scale
  tailThresholds := [("1L", tailShare absolute (1 * scale)), ("5L", tailShare absolute (5 * scale))]

/-- `paired_error_statistics`. -/
def pairedErrorStatistics (delta : List Int) (scale : ℚ) (includeTails : Bool) : Except Message ErrorStatistics :=
  if delta = [] ∨ scale ≤ 0 then .error "paired errors and their positive normalization must be finite"
  else
    let absolute : List ℚ := delta.map fun d => (|d| : Int)
    let least := delta.tail.foldl min (delta.headD 0)
    let greatest := delta.tail.foldl max (delta.headD 0)
    .ok
      { mae := mean absolute / scale
        sgn := mean (delta.map fun d => (d : ℚ)) / scale
        tail := percentile absolute (99 / 100) / scale
        maeCycles := mean absolute
        signedMeanCycles := mean (delta.map fun d => (d : ℚ))
        pairedP99Cycles := percentile absolute (99 / 100)
        extremeMinCycles := least
        extremeMaxCycles := greatest
        extremeMinOverL := least / scale
        extremeMaxOverL := greatest / scale
        tails := if includeTails then some (tailsOf absolute scale) else none }

/-! ## The payload -/

/-- `REQUEST_METRIC_SCHEMA_VERSION`. -/
def requestMetricSchemaVersion : Nat := 6

structure RequestPayload extends ErrorStatistics where
  requestMetricSchemaVersion : Nat
  matcherSchemaVersion : Nat
  matchMode : MatchMode
  stableEligibleO : Nat
  stableEligibleM : Nat
  stableCovO : ℚ
  stableCovM : ℚ
  stableEligibilityFractionO : ℚ
  stableEligibilityFractionM : ℚ
  stableLogicalPairs : Option Nat
  addressMismatchPairs : Option Nat
  physicalConsistentPairs : Option Nat
  physicalConsistencyRate : Option ℚ
  trustedPairPolicy : PairPolicy
  covO : ℚ
  cov : ℚ
  covM : ℚ
  matched : Nat
  nOracle : Nat
  nModel : Nat
  oracleReadMeanLatency : ℚ
  normalization : String
  requestTraceScope : String
  requestTraceTimebase : String
  legacyFallbackReason : Option String

/-- `str.isspace` of one character. -/
def isSpace (c : Char) : Bool :=
  let n := c.toNat
  (9 ≤ n && n ≤ 13) || (28 ≤ n && n ≤ 32) || n = 0x85 || n = 0xa0 || n = 0x1680 || (0x2000 ≤ n && n ≤ 0x200a) ||
    n = 0x2028 || n = 0x2029 || n = 0x202f || n = 0x205f || n = 0x3000

/-- `value.strip()` is not empty. -/
def Meaningful (s : String) : Prop := ∃ c ∈ s.toList, isSpace c = false

instance (s : String) : Decidable (Meaningful s) := List.decidableBEx (fun c => isSpace c = false) s.toList

/-- `_request_semantics`. -/
def requestSemantics (value label : String) : Except Message Unit :=
  raiseIf (¬ Meaningful value) (label ++ " must be a non-empty string")

/-- `request_count`, of a number that may be missing. -/
def requestCount (value : Option Nat) (label : String) : Except Message Nat :=
  match value with
  | some n => .ok n
  | none => .error (label ++ " must be an integer")

/-- `request_count` with `positive`. -/
def positiveCount (value : Nat) (label : String) : Except Message Unit :=
  raiseIf (value < 1) (label ++ " must be positive")

/-- `request_coverage`. -/
def requestCoverage (value : ℚ) (label : String) : Except Message Unit :=
  raiseIf (¬ (0 ≤ value ∧ value ≤ 1)) (label ++ " must be between 0 and 1")

/-- `math.isclose(a, b, rel_tol=0.0, abs_tol=1e-12)`. -/
def isClose (a b : ℚ) : Prop := |a - b| ≤ 1 / 10 ^ 12

instance (a b : ℚ) : Decidable (isClose a b) := inferInstanceAs (Decidable (_ ≤ _))

/-- `_require_ratio`. -/
def requireRatio (actual : ℚ) (numerator denominator : Nat) (label : String) : Except Message Unit :=
  raiseIf (¬ isClose actual (numerator / denominator)) (label ++ " is inconsistent")

/-- What `validate_request_payload` asks of the two match modes. -/
def validateMode (p : RequestPayload) : Except Message Unit :=
  match p.matchMode with
  | .stableId => do
      raiseIf (p.legacyFallbackReason ≠ none) "stable-ID metrics cannot carry a legacy fallback reason"
      raiseIf (p.stableEligibleO ≤ 0 ∨ p.stableEligibleM ≤ 0) "stable-ID metrics require eligible rows on both sides"
      raiseIf (min p.stableEligibleO p.stableEligibleM < p.matched) "matched exceeds a stable-eligible population"
      requireRatio p.stableCovO p.matched p.stableEligibleO "stable_cov_o"
      requireRatio p.stableCovM p.matched p.stableEligibleM "stable_cov_m"
  | .legacyOccurrence => do
      raiseIf (p.legacyFallbackReason.getD "" = "") "legacy metrics require a fallback reason"
      raiseIf (p.stableCovO ≠ 0 ∨ p.stableCovM ≠ 0) "legacy metrics must report zero stable coverage"
  | _ => .error "invalid match_mode"

/-- What it asks of pairs that were filtered. -/
def validateFilter (p : RequestPayload) : Except Message Unit :=
  if p.trustedPairPolicy = .champsimExactPhysicalFilter then do
    let logical ← requestCount p.stableLogicalPairs "stable_logical_pairs"
    let mismatches ← requestCount p.addressMismatchPairs "address_mismatch_pairs"
    let physical ← requestCount p.physicalConsistentPairs "physical_consistent_pairs"
    raiseIf (p.matchMode ≠ .stableId ∨ min p.stableEligibleO p.stableEligibleM < logical ∨
      logical ≠ p.matched + mismatches ∨ physical ≠ p.matched)
      "ChampSim logical/physical pair counts are inconsistent"
    match p.physicalConsistencyRate with
    | none => .error "physical_consistency_rate must be a finite number"
    | some rate => do
        requestCoverage rate "physical_consistency_rate"
        requireRatio rate p.matched logical "physical_consistency_rate"
  else .ok ()

/-- `validate_request_payload`. -/
def validateRequestPayload (p : RequestPayload) (scope timebase : String) (expectedMatcherSchema : Nat) :
    Except Message Unit := do
  raiseIf (p.requestMetricSchemaVersion ≠ Scoring.requestMetricSchemaVersion) "request metric schema is stale"
  raiseIf (p.matcherSchemaVersion ≠ expectedMatcherSchema) "matcher schema is stale"
  raiseIf (p.normalization ≠ "full_oracle_read_mean_latency") "request metrics must use full-oracle read normalization"
  requestSemantics scope "request_trace_scope"
  requestSemantics timebase "request_trace_timebase"
  raiseIf (p.requestTraceScope ≠ scope) "request metric trace scope differs"
  raiseIf (p.requestTraceTimebase ≠ timebase) "request metric trace timebase differs"
  raiseIf (p.mae < 0) "mae must be non-negative"
  raiseIf (p.tail < 0) "tail must be non-negative"
  raiseIf (p.oracleReadMeanLatency ≤ 0) "oracle_read_mean_latency must be positive"
  positiveCount p.matched "matched"
  positiveCount p.nOracle "n_oracle"
  positiveCount p.nModel "n_model"
  raiseIf (min p.nOracle p.nModel < p.matched) "matched exceeds a full request population"
  raiseIf (p.nOracle < p.stableEligibleO ∨ p.nModel < p.stableEligibleM)
    "stable eligible population exceeds full population"
  requestCoverage p.covO "cov_o"
  requestCoverage p.covM "cov_m"
  requestCoverage p.stableCovO "stable_cov_o"
  requestCoverage p.stableCovM "stable_cov_m"
  requestCoverage p.stableEligibilityFractionO "stable_eligibility_fraction_o"
  requestCoverage p.stableEligibilityFractionM "stable_eligibility_fraction_m"
  requireRatio p.covO p.matched p.nOracle "cov_o"
  requireRatio p.covM p.matched p.nModel "cov_m"
  requestCoverage p.cov "cov"
  raiseIf (¬ isClose p.cov p.covO) "compatibility cov differs from cov_o"
  validateMode p
  requireRatio p.stableEligibilityFractionO p.stableEligibleO p.nOracle "stable_eligibility_fraction_o"
  requireRatio p.stableEligibilityFractionM p.stableEligibleM p.nModel "stable_eligibility_fraction_m"
  validateFilter p

/-- The payload of a result, before it is validated. -/
def payloadOf (r : MatchResult) (statistics : ErrorStatistics) (meanLatency : ℚ) (scope timebase : String) :
    RequestPayload :=
  { statistics with
    requestMetricSchemaVersion := Scoring.requestMetricSchemaVersion
    matcherSchemaVersion := Scoring.matcherSchemaVersion
    matchMode := r.matchMode
    stableEligibleO := r.stableEligibleO
    stableEligibleM := r.stableEligibleM
    stableCovO := r.stableCovO
    stableCovM := r.stableCovM
    stableEligibilityFractionO := r.stableEligibleO / r.nO
    stableEligibilityFractionM := r.stableEligibleM / r.nM
    stableLogicalPairs := r.stableLogicalPairs
    addressMismatchPairs := r.addressMismatchPairs
    physicalConsistentPairs := r.physicalConsistentPairs
    physicalConsistencyRate := r.physicalConsistencyRate
    trustedPairPolicy := r.trustedPairPolicy
    covO := r.covO
    cov := r.covO
    covM := r.covM
    matched := r.dv.length
    nOracle := r.nO
    nModel := r.nM
    oracleReadMeanLatency := meanLatency
    normalization := "full_oracle_read_mean_latency"
    requestTraceScope := scope
    requestTraceTimebase := timebase
    legacyFallbackReason := r.legacyFallbackReason }

/-- The mean latency of the oracle's reads. -/
def MatchResult.meanLatency (r : MatchResult) : ℚ := mean (r.allO.map fun l => (l : ℚ))

/-- `request_payload_from_match`. -/
def requestPayloadFromMatch (r : MatchResult) (scope timebase : String) (includeTails : Bool) :
    Except Message RequestPayload := do
  raiseIf (r.matcherSchemaVersion ≠ Scoring.matcherSchemaVersion)
    "matcher schema differs from the requested metric contract"
  raiseIf (r.dv = []) "request traces contain no trusted read pairs"
  raiseIf (r.allO = []) "oracle request trace contains no reads"
  raiseIf (r.meanLatency ≤ 0) "oracle request trace has invalid mean read latency"
  raiseIf (r.nO = 0 ∨ r.nM = 0) "division by zero"
  let statistics ← pairedErrorStatistics r.dv r.meanLatency includeTails
  let payload := payloadOf r statistics r.meanLatency scope timebase
  validateRequestPayload payload scope timebase Scoring.matcherSchemaVersion
  pure payload

/-! ## The partition of the recorded reads -/

/-- One side of `_champsim_pairing_counts`. -/
structure SideCounts where
  recordedReads : Nat
  matchedReads : Nat
  unmatchedReads : Int
  coverage : Option ℚ
  withoutStableId : Option Int
  stableIdWithoutCounterpart : Option Int

structure PairingCounts where
  stableLogicalPairs : Option Nat
  addressMismatchPairs : Option Nat
  oracle : SideCounts
  model : SideCounts

/-- The counts of one side, and the check of their order. -/
def sideCounts (matched total eligible : Nat) (logical : Option Nat) : Except Message SideCounts := do
  raiseIf (∃ l ∈ logical, ¬ (matched ≤ l ∧ l ≤ eligible ∧ eligible ≤ total))
    "ChampSim request population counts are inconsistent"
  pure
    { recordedReads := total
      matchedReads := matched
      unmatchedReads := total - matched
      coverage := if total = 0 then none else some (matched / total)
      withoutStableId := logical.map fun _ => (total : Int) - eligible
      stableIdWithoutCounterpart := logical.map fun l => (eligible : Int) - l }

/-- `_champsim_pairing_counts`. -/
def champsimPairingCounts (r : MatchResult) : Except Message PairingCounts := do
  let oracle ← sideCounts r.dv.length r.nO r.stableEligibleO r.stableLogicalPairs
  let model ← sideCounts r.dv.length r.nM r.stableEligibleM r.stableLogicalPairs
  raiseIf (∃ l ∈ r.stableLogicalPairs, l ≠ r.dv.length + r.addressMismatchPairs.getD 0)
    "ChampSim logical/physical pair counts are inconsistent"
  pure { stableLogicalPairs := r.stableLogicalPairs, addressMismatchPairs := r.addressMismatchPairs, oracle, model }

end Ramulator.ChiaLoop.Scoring
