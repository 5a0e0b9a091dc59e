/-
# Ramulator.ChiaLoop.Matching — reads of two request traces, paired.

`match` (`eval/matchlib.py`) loads the trace of the reference run (the oracle) and the trace of a model,
keeps the reads, and pairs them: by the identity that the frontend gave them where both traces have
identities, else by source, address and occurrence. Its result has a latency difference for each pair and
counts of the populations.

A trace is a table whose cells are integers already. Writes are only checked, so no difference is taken that
would leave 64 bits. Ratios are rationals.
-/
import Ramulator.Lib.Dict
import Ramulator.Lib.Fallible
import Ramulator.Lib.Join
import Mathlib.Data.List.Sort
import Mathlib.Data.Rat.Defs

namespace Ramulator.ChiaLoop.Scoring

open Ramulator.Lib

/-- What `_load_frame` and `match` raise. -/
inductive MatchError where
  | missingColumns (names : List String)
  | incompleteSchema (missing : List String)
  | windowsNeedSchema
  | invalidWindows
  | invalidObservation
  | requestType
  | negativeField
  | departsEarly
  | frontendId
  | frontendSubId
  | admissionOrdinal
  | unadmittedIdentity
  | duplicateOrdinal
  | windowPolicy
  | duplicateIdentity (path : String)
  | addressMismatch (identity : Int × Int × Int) (oracle model : Int)
  | filterNeedsIdentities
  deriving DecidableEq

/-- `if c: raise e`. -/
def raiseIf {ε : Type} (c : Prop) [Decidable c] (e : ε) : Except ε Unit := if c then .error e else .ok ()

/-! ## Frames -/

/-- `_BASE_COLUMNS`. -/
def baseColumns : List String := ["arrive", "depart", "type", "source", "addr"]

/-- `_STABLE_COLUMNS`. -/
def stableColumns : List String := ["frontend_id", "frontend_sub_id", "admission_ordinal"]

/-- A CSV file: its header, and per row the integer of each column. -/
structure Table where
  path : String
  columns : List String
  rows : List (String → Int)

/-- A row of a frame. The last three are of no account where the trace has no such columns. -/
structure Request where
  arrive : Int
  depart : Int
  type : Int
  src : Int
  addr : Int
  frontendId : Int
  frontendSubId : Int
  admissionOrdinal : Int
  deriving DecidableEq

def Request.ofRow (row : String → Int) : Request where
  arrive := row "arrive"
  depart := row "depart"
  type := row "type"
  src := row "source"
  addr := row "addr"
  frontendId := row "frontend_id"
  frontendSubId := row "frontend_sub_id"
  admissionOrdinal := row "admission_ordinal"

/-- `df["lat"]`. -/
def Request.lat (r : Request) : Int := r.depart - r.arrive

def Request.isRead (r : Request) : Bool := r.type = 0

/-- The admissions of one core that are observed. -/
structure AdmissionWindow where
  core : Int
  first : Int
  last : Int

/-- `bounds`: the window of each core. -/
def windowBounds (windows : List AdmissionWindow) : Dict Int (Int × Int) :=
  Dict.ofEntries (windows.map fun w => (w.core, w.first, w.last))

/-- The rows of the windows. The checks that the source makes chunk by chunk are made on all rows. -/
def selectWindows (windows : List AdmissionWindow) (rows : List Request) : Except MatchError (List Request) := do
  let bounds := windowBounds windows
  raiseIf (bounds.length ≠ windows.length ∨
    bounds.keys.insertionSort (· ≤ ·) ≠ (List.range bounds.length).map Int.ofNat ∨
    ∃ b ∈ bounds, ¬ (0 ≤ b.2.1 ∧ b.2.1 ≤ b.2.2)) .invalidWindows
  raiseIf (∃ r ∈ rows, r.src ∉ bounds.keys ∨ r.type ∉ [0, 1] ∨ r.arrive < 0 ∨ r.addr < 0 ∨ r.admissionOrdinal < 0 ∨
    (r.isRead = true ∧ r.depart < r.arrive)) .invalidObservation
  pure (rows.filter fun r =>
    match bounds.lookup r.src with
    | some (first, last) => first ≤ r.admissionOrdinal && r.admissionOrdinal < last
    | none => false)

/-- The checks of the three stable columns. -/
def checkStable (rows : List Request) : Except MatchError Unit := do
  raiseIf (∃ r ∈ rows, r.frontendId < -1) .frontendId
  raiseIf (∃ r ∈ rows, r.frontendSubId < 0) .frontendSubId
  raiseIf (∃ r ∈ rows, r.admissionOrdinal < -1) .admissionOrdinal
  raiseIf (∃ r ∈ rows, 0 ≤ r.frontendId ∧ r.admissionOrdinal < 0) .unadmittedIdentity
  raiseIf (¬ ((rows.map Request.admissionOrdinal).filter fun n => 0 ≤ n).Nodup) .duplicateOrdinal

/-- The rows that are looked at: all, or those of the windows. -/
def observed (stable : Bool) (windows : Option (List AdmissionWindow)) (rows : List Request) :
    Except MatchError (List Request) :=
  match windows with
  | none => .ok rows
  | some ws => if stable then selectWindows ws rows else .error .windowsNeedSchema

/-- `_load_frame`: the reads of a trace, and whether it has the stable columns. -/
def loadFrame (table : Table) (windows : Option (List AdmissionWindow)) :
    Except MatchError (List Request × Bool) := do
  let missing := baseColumns.filter fun c => c ∉ table.columns
  raiseIf (missing ≠ []) (.missingColumns missing)
  let missingStable := stableColumns.filter fun c => c ∉ table.columns
  raiseIf (missingStable ≠ [] ∧ missingStable ≠ stableColumns) (.incompleteSchema missingStable)
  let stable := decide (missingStable = [])
  let rows ← observed stable windows (table.rows.map Request.ofRow)
  raiseIf (∃ r ∈ rows, r.type ∉ [0, 1]) .requestType
  raiseIf (∃ r ∈ rows, r.arrive < 0 ∨ r.addr < 0 ∨ r.src < -1) .negativeField
  raiseIf (∃ r ∈ rows, r.isRead = true ∧ r.depart < r.arrive) .departsEarly
  if stable then checkStable rows else pure ()
  pure (rows.filter Request.isRead, stable)

/-! ## Pairs -/

/-- A read of the oracle with the read of the model that it is compared with. -/
abbrev Pair := Request × Request

/-- `_IDENTITY_COLUMNS`. -/
def Request.identity (r : Request) : Int × Int × Int := (r.src, r.frontendId, r.frontendSubId)

def Request.eligible (r : Request) : Bool := 0 ≤ r.frontendId

/-- Source, address and occurrence of a read that has been numbered. -/
def occurrenceKey (e : Request × Nat) : (Int × Int) × Nat := ((e.1.src, e.1.addr), e.2)

/-- `_legacy_pairs`: the `n`th reads of one address from one source. -/
def legacyPairs (oracle model : List Request) : List Pair :=
  (innerJoin occurrenceKey occurrenceKey (number (fun r => (r.src, r.addr)) oracle)
    (number (fun r => (r.src, r.addr)) model)).map fun p => (p.1.1, p.2.1)

/-- `_stable_pairs`. -/
def stablePairs (oracle model : List Request) (oraclePath modelPath : String) : Except MatchError (List Pair) := do
  let eligibleO := oracle.filter Request.eligible
  let eligibleM := model.filter Request.eligible
  raiseIf (¬ (eligibleO.map Request.identity).Nodup) (.duplicateIdentity oraclePath)
  raiseIf (¬ (eligibleM.map Request.identity).Nodup) (.duplicateIdentity modelPath)
  pure (innerJoin Request.identity Request.identity eligibleO eligibleM)

def sameAddress (p : Pair) : Bool := p.1.addr = p.2.addr

/-- The pairs that are scored, of those that have one identity. -/
def trustedPairs (filter : Bool) (logical : List Pair) : Except MatchError (List Pair) :=
  match logical.find? fun p => !sameAddress p with
  | some p => if filter then .ok (logical.filter sameAddress)
      else .error (.addressMismatch p.1.identity p.1.addr p.2.addr)
  | none => .ok logical

/-! ## Results -/

inductive MatchMode where
  | stableId
  | legacyOccurrence
  | disabled
  | invalidIdentity
  deriving DecidableEq

inductive PairPolicy where
  | champsimExactPhysicalFilter
  | strictAddressEquality
  | legacyOccurrence
  deriving DecidableEq

/-- The counts of a comparison, also where nothing was paired. -/
structure Populations where
  dv : List Int
  nO : Nat
  nM : Nat
  matchMode : MatchMode
  stableEligibleO : Nat
  stableEligibleM : Nat

/-- What `match` returns. -/
structure MatchResult extends Populations where
  olat : List Int
  covO : ℚ
  covM : ℚ
  allO : List Int
  allM : List Int
  matcherSchemaVersion : Nat
  stableCovO : ℚ
  stableCovM : ℚ
  stableEligibilityFractionO : ℚ
  stableEligibilityFractionM : ℚ
  stableLogicalPairs : Option Nat
  logicalCovO : Option ℚ
  logicalCovM : Option ℚ
  logicalStableCovO : Option ℚ
  logicalStableCovM : Option ℚ
  addressMismatchPairs : Option Nat
  physicalConsistentPairs : Option Nat
  physicalConsistencyRate : Option ℚ
  trustedPairPolicy : PairPolicy
  legacyFallbackReason : Option String

/-- `MATCHER_SCHEMA_VERSION`. -/
def matcherSchemaVersion : Nat := 4

/-- `count / max(total, 1)`. -/
def share (count total : Nat) : ℚ := count / (max total 1 : Nat)

/-- `count / total` where there is a total. -/
def coverage (count total : Nat) : ℚ := if 0 < total then count / total else 0

/-- The result for reads that were paired: `logical` are the pairs of one identity, in stable mode. -/
def matchResult (oracle model : List Request) (oracleStable modelStable filter : Bool) (logical : Option (List Pair))
    (pairs : List Pair) : MatchResult where
  dv := pairs.map fun p => p.2.lat - p.1.lat
  nO := oracle.length
  nM := model.length
  matchMode := if logical.isSome then .stableId else .legacyOccurrence
  stableEligibleO := if oracleStable then oracle.countP Request.eligible else 0
  stableEligibleM := if modelStable then model.countP Request.eligible else 0
  olat := pairs.map fun p => p.1.lat
  covO := share pairs.length oracle.length
  covM := share pairs.length model.length
  allO := oracle.map Request.lat
  allM := model.map Request.lat
  matcherSchemaVersion := matcherSchemaVersion
  stableCovO := if logical.isSome then coverage pairs.length (oracle.countP Request.eligible) else 0
  stableCovM := if logical.isSome then coverage pairs.length (model.countP Request.eligible) else 0
  stableEligibilityFractionO := share (if oracleStable then oracle.countP Request.eligible else 0) oracle.length
  stableEligibilityFractionM := share (if modelStable then model.countP Request.eligible else 0) model.length
  stableLogicalPairs := logical.map List.length
  logicalCovO := logical.map fun l => share l.length oracle.length
  logicalCovM := logical.map fun l => share l.length model.length
  logicalStableCovO := logical.map fun l => share l.length (oracle.countP Request.eligible)
  logicalStableCovM := logical.map fun l => share l.length (model.countP Request.eligible)
  addressMismatchPairs := logical.map fun l => l.countP fun p => !sameAddress p
  physicalConsistentPairs := logical.map fun l => l.length - l.countP fun p => !sameAddress p
  physicalConsistencyRate := logical.bind fun l =>
    if l.length = 0 then none else some ((l.length - l.countP fun p => !sameAddress p : Nat) / l.length)
  trustedPairPolicy :=
    if filter then .champsimExactPhysicalFilter else if logical.isSome then .strictAddressEquality else .legacyOccurrence
  legacyFallbackReason :=
    if logical.isSome then none
    else if !oracleStable || !modelStable then some "stable_id_columns_missing" else some "no_eligible_stable_ids"

/-- Both traces have identities, and one of them has a read with one. -/
def usesIdentities (oracle model : List Request) (oracleStable modelStable : Bool) : Prop :=
  oracleStable = true ∧ modelStable = true ∧
    (0 < oracle.countP Request.eligible ∨ 0 < model.countP Request.eligible)

instance (oracle model : List Request) (oracleStable modelStable : Bool) :
    Decidable (usesIdentities oracle model oracleStable modelStable) :=
  inferInstanceAs (Decidable (_ ∧ _ ∧ _))

/-- `match`, after the traces are loaded. -/
def matchFrames (oraclePath modelPath : String) (filter : Bool) (oracle model : List Request × Bool) :
    Except MatchError MatchResult :=
  if usesIdentities oracle.1 model.1 oracle.2 model.2 then do
    let logical ← stablePairs oracle.1 model.1 oraclePath modelPath
    let pairs ← trustedPairs filter logical
    pure (matchResult oracle.1 model.1 oracle.2 model.2 filter (some logical) pairs)
  else if filter then .error .filterNeedsIdentities
  else .ok (matchResult oracle.1 model.1 oracle.2 model.2 filter none (legacyPairs oracle.1 model.1))

/-- `match`. -/
def matchTraces (oracle model : Table) (filter : Bool) (oracleWindows modelWindows : Option (List AdmissionWindow)) :
    Except MatchError MatchResult := do
  raiseIf (oracleWindows.isNone ≠ modelWindows.isNone) .windowPolicy
  let oracleFrame ← loadFrame oracle oracleWindows
  let modelFrame ← loadFrame model modelWindows
  matchFrames oracle.path model.path filter oracleFrame modelFrame

end Ramulator.ChiaLoop.Scoring
