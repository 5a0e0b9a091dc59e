/-
# Ramulator.ChiaLoop.Scoring — the row of a workload, and the report of a cohort.

`score_workload` (`framework/scoring.py`) decides from the populations of a comparison whether its request
errors may count for a promotion. `aggregate` averages the rows of a cohort with equal weight, and checks
that decision again from the payload in the row.
-/
import Ramulator.ChiaLoop.RequestMetrics

namespace Ramulator.ChiaLoop.Scoring

open Ramulator.Lib

/-! ## One workload -/

/-- What is read of a measurement. -/
structure Measurement where
  perCoreCycles : List ℚ
  numReadReqs : Option Nat

structure CyclesMetrics where
  perCoreDevPct : List ℚ
  meanAbsPerCorePct : ℚ
  makespanDevPct : ℚ
  legacySignedMeanPct : ℚ

def greatest (xs : List ℚ) : ℚ := xs.tail.foldl max (xs.headD 0)

/-- `cycles_metrics`. -/
def cyclesMetrics (oracle model : Measurement) : Except Message CyclesMetrics := do
  let o := oracle.perCoreCycles
  let m := model.perCoreCycles
  raiseIf (o = [] ∨ o.length ≠ m.length) "oracle/model per-core cycle vectors must be non-empty and equal length"
  raiseIf (∃ c ∈ o ++ m, c ≤ 0) "per-core cycles must be finite positive numbers"
  let perCore := List.zipWith (fun oc mc => 100 * (mc - oc) / oc) o m
  pure
    { perCoreDevPct := perCore
      meanAbsPerCorePct := mean (perCore.map abs)
      makespanDevPct := 100 * (greatest m - greatest o) / greatest o
      legacySignedMeanPct := mean perCore }

/-- What `score_workload` is given of the requests: a match, or counts alone where nothing was paired. -/
inductive RequestResult where
  | matched (r : MatchResult)
  | unmatched (p : Populations)

def RequestResult.populations : RequestResult → Populations
  | .matched r => r.toPopulations
  | .unmatched p => p

/-- `request_payload_from_match`, of a result that has what it reads. -/
def RequestResult.payload (scope timebase : String) (includeTails : Bool) :
    RequestResult → Except Message RequestPayload
  | .matched r => requestPayloadFromMatch r scope timebase includeTails
  | .unmatched _ => .error "all_o"

structure Observation where
  scope : String
  timebase : String
  deriving DecidableEq

/-- What `score_workload` returns. -/
structure WorkloadRow where
  cycles : CyclesMetrics
  request : Option RequestPayload
  requestHeadlineEligible : Bool
  requestPopulationVerified : Bool
  ineligibilityReasons : List String
  minimumOracleOwnerReads : Nat
  oracleOwnerReads : Nat
  observation : Observation
  matched : Nat
  oracleReads : Nat
  modelReads : Nat

/-- `len(set(counts)) == 1`. -/
def allEqual (counts : List Nat) : Bool := counts.all fun n => n = counts.headD 0

/-- `reasons`. -/
def ineligibilityReasons (p : Populations) (ownerReads minimum : Nat) (populationVerified : Bool) : List String :=
  (if populationVerified then [] else ["complete observation population has not been verified"]) ++
    (if p.matchMode = .stableId then [] else ["request pairing is not stable-ID based"]) ++
    (if p.dv.length ≠ 0 ∧ allEqual [p.dv.length, p.nO, p.nM, p.stableEligibleO, p.stableEligibleM] = true then []
      else ["request population lacks exact bidirectional stable-ID coverage"]) ++
    (if minimum ≤ ownerReads then [] else ["oracle owner-read population is below the declared minimum"])

/-- The request part of a row: none where nothing was paired. -/
def RequestResult.payloadIfPaired (scope timebase : String) (includeTails : Bool) (result : RequestResult) :
    Except Message (Option RequestPayload) :=
  if result.populations.dv = [] then .ok none else (result.payload scope timebase includeTails).map some

/-- `score_workload`. -/
def scoreWorkload (oracle model : Measurement) (result : RequestResult) (scope timebase : String) (minimum : Nat)
    (populationVerified includeTails : Bool) : Except Message WorkloadRow := do
  positiveCount minimum "minimum oracle owner reads"
  let ownerReads ← requestCount oracle.numReadReqs "oracle owner reads"
  let cycles ← cyclesMetrics oracle model
  let p := result.populations
  let reasons := ineligibilityReasons p ownerReads minimum populationVerified
  let request ← result.payloadIfPaired scope timebase includeTails
  pure
    { cycles, request
      requestHeadlineEligible := reasons.isEmpty
      requestPopulationVerified := populationVerified
      ineligibilityReasons := reasons
      minimumOracleOwnerReads := minimum
      oracleOwnerReads := ownerReads
      observation := { scope, timebase }
      matched := p.dv.length
      oracleReads := p.nO
      modelReads := p.nM }

/-! ## A cohort -/

inductive Stage where
  | training
  | validation
  | test
  | transfer
  deriving DecidableEq

inductive RequestObjective where
  | completeStableId
  | champsimExactPhysicalFilter
  | champsimForegroundStablePairs
  deriving DecidableEq

/-- What `aggregate` raises. -/
inductive AggregateError where
  | population
  | cohort
  | observations
  | missingRequest
  | payload (message : Message)
  | contradiction
  | cycles
  | empty
  deriving DecidableEq

/-- A value of `requests` with the name of its workload. -/
abbrev Named (α : Type) := List (String × α)

/-- `max(values, key=values.get)`: the first of the greatest. -/
def worst (values : Named ℚ) : String × ℚ :=
  values.tail.foldl (fun w e => if w.2 < e.2 then e else w) (values.headD ("", 0))

/-- `min(values, key=values.get)`: the first of the least. -/
def best (values : Named ℚ) : String × ℚ :=
  values.tail.foldl (fun w e => if e.2 < w.2 then e else w) (values.headD ("", 0))

structure RequestSummary where
  meanMae : ℚ
  worstMae : String × ℚ
  meanAbsSgn : ℚ
  worstAbsSgn : ℚ
  worstSgn : String × ℚ
  worstTail : String × ℚ
  minCovO : String × ℚ
  minCovM : String × ℚ
  minStableCovO : String × ℚ
  minStableCovM : String × ℚ
  matchModeByWorkload : Named MatchMode

/-- What `aggregate_request_metrics` checks of one payload. -/
def checkMetric (metric : RequestPayload) : Except Message Unit := do
  raiseIf (metric.matchMode ≠ .stableId ∧ metric.matchMode ≠ .legacyOccurrence) "match_mode is invalid"
  raiseIf (metric.mae < 0) "mae must be non-negative"
  raiseIf (metric.tail < 0) "tail must be non-negative"
  requestCoverage metric.covO "cov_o"
  requestCoverage metric.covM "cov_m"
  requestCoverage metric.stableCovO "stable_cov_o"
  requestCoverage metric.stableCovM "stable_cov_m"

/-- `aggregate_request_metrics`. -/
def aggregateRequestMetrics (requests : Named RequestPayload) : Except Message RequestSummary := do
  raiseIf requests.isEmpty "cannot aggregate an empty request-metric set"
  forM requests fun e => checkMetric e.2
  let of (f : RequestPayload → ℚ) : Named ℚ := requests.map fun e => (e.1, f e.2)
  let sgnOf := worst (of fun m => |m.sgn|)
  pure
    { meanMae := mean ((of fun m => m.mae).map Prod.snd)
      worstMae := worst (of fun m => m.mae)
      meanAbsSgn := mean ((of fun m => |m.sgn|).map Prod.snd)
      worstAbsSgn := sgnOf.2
      worstSgn := (sgnOf.1, ((of fun m => m.sgn).lookup sgnOf.1).getD 0)
      worstTail := worst (of fun m => m.tail)
      minCovO := best (of fun m => m.covO)
      minCovM := best (of fun m => m.covM)
      minStableCovO := best (of fun m => m.stableCovO)
      minStableCovM := best (of fun m => m.stableCovM)
      matchModeByWorkload := requests.map fun e => (e.1, e.2.matchMode) }

/-- The checks that `aggregate` makes of one row. -/
def checkRow (item : WorkloadRow) : Except AggregateError Unit :=
  match item.request with
  | none => raiseIf (item.requestHeadlineEligible = true) .missingRequest
  | some request => do
      (validateRequestPayload request item.observation.scope item.observation.timebase matcherSchemaVersion).mapError
        .payload
      (positiveCount item.minimumOracleOwnerReads "minimum oracle owner reads").mapError .payload
      raiseIf (item.requestHeadlineEligible ≠
        (item.requestPopulationVerified && decide (request.matchMode = .stableId) &&
          allEqual [request.matched, request.nOracle, request.nModel, request.stableEligibleO, request.stableEligibleM] &&
          decide (item.minimumOracleOwnerReads ≤ item.oracleOwnerReads))) .contradiction

/-- The scope of the observation that a ChampSim objective asks for. -/
def RequestObjective.scope : RequestObjective → String
  | .champsimForegroundStablePairs => "champsim_dram_controller_foreground_admissions"
  | _ => "champsim_dram_controller_lifecycle"

/-- A row has what the objective is about. -/
def eligibleFor (objective : RequestObjective) (item : WorkloadRow) : Bool :=
  match objective with
  | .completeStableId => item.requestHeadlineEligible
  | _ =>
      decide (item.observation = ⟨objective.scope, "ramulator_controller_cycles"⟩) &&
        decide (item.minimumOracleOwnerReads ≤ item.oracleOwnerReads) &&
        match item.request with
        | none => false
        | some r => decide (r.matchMode = .stableId) && decide (0 < r.matched) &&
            decide (r.trustedPairPolicy = .champsimExactPhysicalFilter) &&
            (decide (objective ≠ .champsimForegroundStablePairs) || decide (r.addressMismatchPairs = some 0))

/-- `matched_request_diagnostics`, a report of a transfer that nothing is promoted on. -/
structure TransferDiagnostics where
  unavailableWorkloads : List String
  belowMinimumReadWorkloads : List String
  summary : Option (RequestSummary × ℚ)

structure Report where
  stage : Stage
  eligibleForPromotion : Bool
  cycleMacroMaePct : ℚ
  requestMacroMaeOverL : Option ℚ
  requestMacroAbsoluteSignedDriftOverL : Option ℚ
  requestSummary : Option RequestSummary
  workloads : Named WorkloadRow
  requestObjective : RequestObjective
  matchedRequestDiagnostics : Option TransferDiagnostics

/-- The summary of the rows, each of which has a request part. -/
def summarize (rows : Named WorkloadRow) : Except AggregateError RequestSummary :=
  match rows.mapM fun e => e.2.request.map fun r => (e.1, r) with
  | some requests => (aggregateRequestMetrics requests).mapError .payload
  | none => .error .empty

def withoutFilteredPairs (item : WorkloadRow) : Bool :=
  match item.request with
  | some r => decide (r.trustedPairPolicy ≠ .champsimExactPhysicalFilter)
  | none => true

/-- The summary of the rows where `c`. -/
def summarizeIf (c : Prop) [Decidable c] (rows : Named WorkloadRow) : Except AggregateError (Option RequestSummary) :=
  if c then (summarize rows).map some else .ok none

/-- The diagnostics of a transfer. -/
def transferDiagnostics (rows : Named WorkloadRow) : Except AggregateError TransferDiagnostics := do
  let unavailable := (rows.filter fun e => withoutFilteredPairs e.2).map Prod.fst
  let summary ← summarizeIf (unavailable = []) rows
  pure
    { unavailableWorkloads := unavailable
      belowMinimumReadWorkloads :=
        (rows.filter fun e => decide (e.2.oracleOwnerReads < e.2.minimumOracleOwnerReads)).map Prod.fst
      summary := summary.map fun s => (s, mean (rows.filterMap fun e => e.2.request.map fun r => r.tail)) }

/-- The diagnostics, of a report of a transfer over whole lifecycles. -/
def diagnosticsOf (stage : Stage) (rows : Named WorkloadRow) : Except AggregateError (Option TransferDiagnostics) :=
  if stage = .transfer ∧ (rows.head?.any fun e => decide (e.2.observation.scope = "champsim_dram_controller_lifecycle")) then
    (transferDiagnostics rows).map some
  else .ok none

/-- `[workloads[name] for name in expected]`, with the names. -/
def ordered (workloads : Dict String WorkloadRow) (expected : List String) : Option (Named WorkloadRow) :=
  expected.mapM fun name => (workloads.lookup name).map fun row => (name, row)

/-- `aggregate`, of the rows in the order of `expected`. -/
def aggregateRows (rows : Named WorkloadRow) (stage : Stage) (objective : RequestObjective) :
    Except AggregateError Report := do
  forM rows fun e => checkRow e.2
  let cycleErrors := rows.map fun e => e.2.cycles.meanAbsPerCorePct
  raiseIf (∃ v ∈ cycleErrors, v < 0) .cycles
  let eligible := rows.all fun e => eligibleFor objective e.2
  let requests ← summarizeIf (eligible = true) rows
  let diagnostics ← diagnosticsOf stage rows
  pure
    { stage
      eligibleForPromotion := eligible && decide (stage = .training ∨ stage = .validation)
      cycleMacroMaePct := mean cycleErrors
      requestMacroMaeOverL := requests.map RequestSummary.meanMae
      requestMacroAbsoluteSignedDriftOverL := requests.map RequestSummary.meanAbsSgn
      requestSummary := requests
      workloads := rows
      requestObjective := objective
      matchedRequestDiagnostics := diagnostics }

/-- `aggregate`. -/
def aggregate (workloads : Dict String WorkloadRow) (expected : List String) (stage : Stage)
    (objective : RequestObjective) : Except AggregateError Report := do
  raiseIf (expected = [] ∨ ¬ expected.Nodup) .population
  raiseIf (¬ ((∀ name ∈ workloads.keys, name ∈ expected) ∧ ∀ name ∈ expected, name ∈ workloads.keys)) .cohort
  raiseIf (∃ e ∈ workloads, ∃ e' ∈ workloads, e.2.observation ≠ e'.2.observation) .observations
  match ordered workloads expected with
  | none => .error .cohort
  | some rows => aggregateRows rows stage objective

end Ramulator.ChiaLoop.Scoring
