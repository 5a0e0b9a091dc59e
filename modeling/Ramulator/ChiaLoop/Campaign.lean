/-
# Ramulator.ChiaLoop.Campaign — the search loop without stages, over what it has recorded.

`Campaign.run_search` (`framework/campaign.py`) proposes a candidate in each iteration, measures it, and
promotes it or keeps the incumbent. Every step that costs something is recorded under a key and its result is
taken from there when the search is resumed, so that a campaign is a sequence of runs over one store, each of
which may end in an error anywhere.

Candidates are of any type with an identity. What the model sessions say is not read by the loop and is left
out, as are the views that are shown to them; that a turn may fail is kept. A measurement is a report of
`aggregate` with its precision; two reports are compared as dictionaries are, without the order of their keys.
-/
import Ramulator.ChiaLoop.Promotion
import Ramulator.Lib.Recorded

namespace Ramulator.ChiaLoop.Campaign

open Ramulator.Lib Ramulator.ChiaLoop.Scoring

deriving instance DecidableEq for TailShare, Tails, ErrorStatistics, RequestPayload, CyclesMetrics, WorkloadRow,
  RequestSummary, TransferDiagnostics, Report, Summary

/-- What the loop reads of the configuration, which `validation_gate` has checked. -/
structure Config where
  training : List String
  validation : List String
  minimumOracleOwnerReads : Nat
  observation : Observation
  requestObjective : RequestObjective
  validationNonWorsening : Bool
  maximumIterations : Nat
  execution : String
  evaluationSha256 : String
  gate : validationNonWorsening = true → validation ≠ []

/-- A result of `research.train` or `research.validate`. -/
structure Receipt (κ : Type) where
  candidate : κ
  execution : String
  evaluationSha256 : String
  failure : Option String
  measurement : Option Summary

/-- A result of `research.check`. -/
structure Check (κ : Type) where
  candidate : κ
  passed : Bool

/-- The outcome of an iteration. -/
structure Outcome (κ : Type) where
  iteration : Nat
  parent : κ
  candidate : κ
  check : Check κ
  training : Option (Receipt κ)
  promoted : Bool
  selected : Receipt κ

structure Selection (κ : Type) where
  candidate : κ
  training : Receipt κ
  iterations : Nat
  execution : String

/-- What a campaign has recorded. A step is recorded with its input. -/
structure Store (κ : Type) where
  prepared : Table Unit (Unit × κ)
  checks : Table String (κ × Check κ)
  measurements : Table (Stage × String) (κ × Receipt κ)
  finals : Table Nat (Unit × κ)
  iterations : Table Nat (Outcome κ)
  selection : Table Unit (Selection κ)

variable {κ : Type}

def Store.empty : Store κ := ⟨.empty, .empty, .empty, .empty, .empty, .empty⟩

instance : Preorder (Store κ) where
  le s s' := s.prepared ≤ s'.prepared ∧ s.checks ≤ s'.checks ∧ s.measurements ≤ s'.measurements ∧
    s.finals ≤ s'.finals ∧ s.iterations ≤ s'.iterations ∧ s.selection ≤ s'.selection
  le_refl s := ⟨le_refl _, le_refl _, le_refl _, le_refl _, le_refl _, le_refl _⟩
  le_trans _ _ _ h h' :=
    ⟨h.1.trans h'.1, h.2.1.trans h'.2.1, h.2.2.1.trans h'.2.2.1, h.2.2.2.1.trans h'.2.2.2.1,
      h.2.2.2.2.1.trans h'.2.2.2.2.1, h.2.2.2.2.2.trans h'.2.2.2.2.2⟩

inductive Error where
  | research (message : String)
  | recordConflict
  | receipt (message : String)
  | report (e : AggregateError)
  | missingMeasurement
  | seed (message : Message)
  | promotion (message : Message)

/-- What a run finds outside: the results of the steps that are not recorded yet, each of which may fail. -/
structure Research (κ : Type) where
  prepare : Except String κ
  check : κ → Except String (Check κ)
  train : κ → Except String (Receipt κ)
  validate : κ → Except String (Receipt κ)
  /-- The session of an iteration up to its last snapshot: `explore`, `draft`, `review`, `revise`. -/
  explore : Nat → Except String Unit
  snapshot : Nat → Except String κ
  /-- What follows the outcome: `reflect` and `summary`. -/
  reflect : Nat → Except String Unit

abbrev Run (κ α : Type) := Recorder (Store κ) Error α

def research {α : Type} (x : Except String α) : Except Error α := x.mapError .research

/-! ## Receipts -/

/-- Two dictionaries have the same entries. -/
def sameEntries {α : Type} (d d' : Named α) : Prop := (∀ e ∈ d, e ∈ d') ∧ ∀ e ∈ d', e ∈ d

instance {α : Type} [DecidableEq α] (d d' : Named α) : Decidable (sameEntries d d') :=
  inferInstanceAs (Decidable (_ ∧ _))

/-- A request summary without its dictionary. -/
def RequestSummary.bare (s : RequestSummary) : RequestSummary := { s with matchModeByWorkload := [] }

/-- A report without its dictionaries. -/
def Report.bare (r : Report) : Report := { r with workloads := [], requestSummary := r.requestSummary.map RequestSummary.bare }

/-- `measurement == recomputed`. -/
def sameReport (r r' : Report) : Prop :=
  Report.bare r = Report.bare r' ∧ sameEntries r.workloads r'.workloads ∧
    sameEntries ((r.requestSummary.map RequestSummary.matchModeByWorkload).getD [])
      ((r'.requestSummary.map RequestSummary.matchModeByWorkload).getD [])

instance (r r' : Report) : Decidable (sameReport r r') := inferInstanceAs (Decidable (_ ∧ _ ∧ _))

def Config.names (cfg : Config) : Stage → List String
  | .training => cfg.training
  | _ => cfg.validation

/-- The checks of one row of a measurement. -/
def checkTraffic (cfg : Config) (row : WorkloadRow) : Except Error Unit := do
  raiseIf (row.minimumOracleOwnerReads ≠ cfg.minimumOracleOwnerReads)
    (.receipt "training measurement changed the traffic guard")
  raiseIf (row.observation ≠ cfg.observation) (.receipt "training measurement changed the request population")

/-- The checks of a measurement: it is what `aggregate` makes of its rows. -/
def checkMeasurement (cfg : Config) (stage : Stage) (m : Summary) : Except Error Unit := do
  forM m.report.workloads fun e => checkTraffic cfg e.2
  let recomputed ← (aggregate m.report.workloads (cfg.names stage) stage cfg.requestObjective).mapError .report
  raiseIf (m.precision ≠ unrounded ∨ ¬ sameReport m.report recomputed)
    (.receipt "training summary differs from its workload measurements")

variable [DecidableEq κ]

/-- The checks that `_measurement` makes of a receipt. -/
def checkReceipt (cfg : Config) (stage : Stage) (candidate : κ) (r : Receipt κ) : Except Error Unit := do
  raiseIf (r.candidate ≠ candidate) (.receipt "training receipt has wrong candidate")
  raiseIf (r.execution ≠ cfg.execution) (.receipt "training receipt has wrong execution")
  raiseIf (r.evaluationSha256 ≠ cfg.evaluationSha256) (.receipt "training receipt has wrong evaluation_sha256")
  match r.measurement with
  | none => raiseIf (r.failure.getD "" = "") (.receipt "missing training measurements need a recorded failure")
  | some m => checkMeasurement cfg stage m

variable (candidateId : κ → String)

/-- `_measurement`. -/
def measurement (cfg : Config) (ω : Research κ) (stage : Stage) (candidate : κ) : Run κ (Receipt κ) := do
  let r ← remember .recordConflict (fun s => s.measurements (stage, candidateId candidate))
    (fun e s => { s with measurements := s.measurements.record (stage, candidateId candidate) e }) candidate
    (research (if stage = .training then ω.train candidate else ω.validate candidate))
  resultOf (checkReceipt cfg stage candidate r)
  pure r

/-- `_check`. -/
def mechanicalCheck (ω : Research κ) (candidate : κ) : Run κ (Check κ) := do
  let c ← remember .recordConflict (fun s => s.checks (candidateId candidate))
    (fun e s => { s with checks := s.checks.record (candidateId candidate) e }) candidate (research (ω.check candidate))
  resultOf (raiseIf (c.candidate ≠ candidate) (.receipt "mechanical check is not bound to the submitted source"))
  pure c

/-- `_measurement`, where `c`. -/
def measurementIf (c : Prop) [Decidable c] (cfg : Config) (ω : Research κ) (stage : Stage) (candidate : κ) :
    Run κ (Option (Receipt κ)) :=
  if c then do
    let r ← measurement candidateId cfg ω stage candidate
    pure (some r)
  else pure none

/-! ## An iteration -/

/-- `promoted`: `should_promote` on the measurements, with the gate where there is one. -/
def promotes (cfg : Config) (training validation incumbentValidation : Option (Receipt κ)) (incumbent : Receipt κ) :
    Except Error Bool :=
  match training.bind Receipt.measurement, incumbent.measurement with
  | none, _ => .ok false
  | some _, none => .error (.promotion "'NoneType' object has no attribute 'get'")
  | some t, some i =>
      (if cfg.validationNonWorsening then
        shouldPromote t i true (validation.bind Receipt.measurement) (incumbentValidation.bind Receipt.measurement)
      else shouldPromote t i true none none).mapError .promotion

/-- `_iteration`, where it is not recorded. -/
def newIteration (cfg : Config) (ω : Research κ) (number : Nat) (incumbent : Receipt κ) : Run κ (Outcome κ) := do
  let incumbentValidation ← measurementIf candidateId (cfg.validation ≠ []) cfg ω .validation incumbent.candidate
  resultOf (research (ω.explore number))
  let candidate ← remember .recordConflict (fun s => s.finals number)
    (fun e s => { s with finals := s.finals.record number e }) () (research (ω.snapshot number))
  let check ← mechanicalCheck candidateId ω candidate
  let training ← measurementIf candidateId (check.passed = true) cfg ω .training candidate
  let validation ← measurementIf candidateId (cfg.validation ≠ [] ∧ check.passed = true) cfg ω .validation candidate
  let promoted ← resultOf (promotes cfg training validation incumbentValidation incumbent)
  let outcome : Outcome κ :=
    { iteration := number
      parent := incumbent.candidate
      candidate, check, training, promoted
      selected := if promoted then training.getD incumbent else incumbent }
  resultOf (research (ω.reflect number))
  modifyRecord fun s => { s with iterations := s.iterations.record number outcome }
  pure outcome

/-- `_iteration`. -/
def iteration (cfg : Config) (ω : Research κ) (number : Nat) (incumbent : Receipt κ) : Run κ (Outcome κ) := do
  let s ← recorded
  match s.iterations number with
  | some existing =>
      if existing.parent = incumbent.candidate then pure existing
      else resultOf (.error (.receipt "committed iteration has a different parent"))
  | none => newIteration candidateId cfg ω number incumbent

/-! ## The search -/

/-- The iterations from `number` on: the last incumbent. -/
def rounds (cfg : Config) (ω : Research κ) : Nat → Nat → Receipt κ → Run κ (Receipt κ)
  | 0, _, incumbent => pure incumbent
  | remaining + 1, number, incumbent => do
      let outcome ← iteration candidateId cfg ω number incumbent
      rounds cfg ω remaining (number + 1) outcome.selected

/-- `valid_objectives` of a measurement of the seed. -/
def requireValid (r : Receipt κ) (stage : Stage) : Except Error (ℚ × ℚ) :=
  match r.measurement with
  | none => .error .missingMeasurement
  | some m => (validObjectives m stage).mapError .seed

/-- The validation of the seed, where there is a cohort for it. -/
def seedValidation (cfg : Config) (ω : Research κ) (seed : κ) : Run κ Unit :=
  if cfg.validation ≠ [] then do
    let r ← measurement candidateId cfg ω .validation seed
    let _ ← resultOf (requireValid r .validation)
    pure ()
  else pure ()

/-- `run_search`, where no selection is frozen. -/
def search (cfg : Config) (ω : Research κ) : Run κ (Selection κ) := do
  let seed ← remember .recordConflict (fun s => s.prepared ())
    (fun e s => { s with prepared := s.prepared.record () e }) () (research ω.prepare)
  let check ← mechanicalCheck candidateId ω seed
  resultOf (raiseIf (check.passed = false) (.receipt "initial seed fails mechanical checks"))
  let incumbent ← measurement candidateId cfg ω .training seed
  let _ ← resultOf (requireValid incumbent .training)
  seedValidation candidateId cfg ω seed
  let last ← rounds candidateId cfg ω cfg.maximumIterations 1 incumbent
  let selection : Selection κ :=
    { candidate := last.candidate, training := last, iterations := cfg.maximumIterations, execution := cfg.execution }
  modifyRecord fun s => { s with selection := s.selection.record () selection }
  pure selection

/-- `run_search`. -/
def runSearch (cfg : Config) (ω : Research κ) : Run κ (Selection κ) := do
  let s ← recorded
  match s.selection () with
  | some frozen => pure frozen
  | none => search candidateId cfg ω

end Ramulator.ChiaLoop.Campaign
