/-
# Ramulator.ChiaLoop.ScoreViews — the scores that an agent is shown.

A measurement receipt is a nest of dictionaries. `score_view` (`framework/review.py`) and
`validation_view` (`framework/scoring.py`) copy some of its numbers into a view in which the workloads of
a cohort have the names `val1`, `val2` and so on.

A receipt is any JSON value here, and so a view may fail; what an exception carries is left out. Python's
own arithmetic on numbers is a parameter: nothing below depends on how it rounds.
-/
import Ramulator.Lib.Dict
import Ramulator.Lib.Fallible
import Ramulator.Lib.Json
import Mathlib.Logic.Function.Basic

namespace Ramulator.ChiaLoop.Review

open Ramulator.Lib
open Ramulator.Lib.FloatFormat

/-! ## Values of the language -/

inductive Fault where
  | keyError
  | typeError
  | attributeError
  | valueError (message : String)
  | zeroDivision
  | overflow
  deriving DecidableEq

/-- `v[key]`. -/
def index (v : Json) (key : String) : Except Fault Json :=
  match v with
  | .obj ms =>
      match ms.lookup key with
      | some w => .ok w
      | none => .error .keyError
  | _ => .error .typeError

/-- `v[key][key']` and so on. -/
def dig (v : Json) (path : List String) : Except Fault Json := path.foldlM index v

/-- `v.get(key, default)`. -/
def get (v : Json) (key : String) (default : Json) : Except Fault Json :=
  match v with
  | .obj ms => .ok ((ms.lookup key).getD default)
  | _ => .error .attributeError

/-- `v is None`. -/
def isNull : Json → Bool
  | .null => true
  | _ => false

/-- `v.items()`. -/
def members : Json → Except Fault (List (String × Json))
  | .obj ms => .ok ms
  | _ => .error .attributeError

/-- `v[key].items()`. -/
def itemsOf (v : Json) (key : String) : Except Fault (List (String × Json)) := index v key >>= members

/-- What a loop over `v` visits. -/
def elements : Json → Except Fault (List Json)
  | .arr vs => .ok vs
  | .obj ms => .ok (ms.map fun m => .str m.1)
  | .str s => .ok (s.toList.map fun c => .str (String.singleton c))
  | _ => .error .typeError

/-! ## Numbers -/

inductive Number where
  | int (n : Int)
  | float (x : binary64.Value)

namespace Number

def toJson : Number → Json
  | .int n => .int n
  | .float x => .float x

/-- `abs`. -/
def abs : Number → Number
  | .int n => .int |n|
  | .float (.finite x) => .float (.finite { x with neg := false })
  | .float (.infinite _) => .float (.infinite false)
  | .float .nan => .float .nan

/-- The value of a finite number. -/
def toRat : Number → ℚ
  | .int n => n
  | .float (.finite x) => x.toRat
  | .float _ => 0

/-- `max`: of equal numbers the first. The numbers that are compared here are finite. -/
def greatest (first : Number) (rest : List Number) : Number :=
  rest.foldl (fun m v => if m.toRat < v.toRat then v else m) first

end Number

/-- `sum` and division by a count, as the interpreter rounds them. -/
structure Arithmetic where
  sum : List Number → Except Fault Number
  divide : Number → Nat → Except Fault Number

/-- `sum(xs) / len(xs)`. -/
def Arithmetic.mean (py : Arithmetic) (xs : List Number) : Except Fault Number := do
  let total ← py.sum xs
  if xs = [] then .error .zeroDivision else py.divide total xs.length

/-- `_numeric`. A missing value is `none`; `math.isfinite` makes a float of an integer first. -/
def numeric : Json → Except Fault (Option Number)
  | .null => .ok none
  | .int n =>
      match binary64.ofRat (n < 0) |(n : ℚ)| with
      | .finite _ => .ok (some (.int n))
      | _ => .error .overflow
  | .float (.finite x) => .ok (some (.float (.finite x)))
  | _ => .error (.valueError "score projection accepts finite numbers or explicit missing values only")

/-- A number that arithmetic is done on: `None` is refused there. -/
def present : Option Number → Except Fault Number
  | some x => .ok x
  | none => .error .typeError

def optional : Option Number → Json
  | some x => x.toJson
  | none => .null

/-! ## One case -/

/-- `REQUEST_FIELDS`. -/
def requestFields : List String :=
  ["mae", "sgn", "tail", "p999_over_L", "mae_cycles", "signed_mean_cycles", "paired_p99_cycles",
    "paired_p999_cycles", "extreme_min_cycles", "extreme_max_cycles", "extreme_min_over_L", "extreme_max_over_L",
    "oracle_read_mean_latency", "matched", "n_oracle", "n_model", "cov_o", "cov_m", "stable_eligible_o",
    "stable_eligible_m", "address_mismatch_pairs"]

/-- `POPULATION_FIELDS`. -/
def populationFields : List String :=
  ["recorded_reads", "matched_reads", "unmatched_reads", "coverage", "without_stable_id",
    "stable_id_without_counterpart", "admitted_foreground_reads", "admissions_without_recorded_latency",
    "total_admitted_reads"]

def thresholds : List String := ["1L", "5L"]

def tailFields : List String := ["count", "fraction", "absolute_error_share"]

def populationLabels : List String := ["oracle", "model"]

/-- Numbers under their names. -/
abbrev Numbers := List (String × Option Number)

/-- `{key: _numeric(read(key)) for key in keys}`. -/
def project (keys : List String) (read : String → Except Fault Json) : Except Fault Numbers :=
  keys.mapM fun key => do pure (key, ← numeric (← read key))

def Numbers.toJson (ns : Numbers) : Json := .obj (ns.map fun n => (n.1, optional n.2))

/-- The `request` of a case view. -/
structure RequestView where
  numbers : Numbers
  absoluteDriftOverL : Number
  tailThresholds : List (String × Numbers)

structure CaseView where
  coreErrorPct : Option Number
  signedCoreErrorPct : Number
  perCoreSignedErrorPct : List Number
  worstCoreErrorPct : Number
  makespanSignedErrorPct : Option Number
  request : Option RequestView
  populations : List (String × Numbers)

/-- The request part of `case_view`, of a row that has one. -/
def requestView (row : Json) : Except Fault RequestView := do
  let numbers ← project requestFields fun key => dig row ["request", key]
  let sgn ← present (← numeric (← dig row ["request", "sgn"]))
  let tails ← thresholds.mapM fun threshold => do
    pure (threshold, ← project tailFields fun key => dig row ["request", "tail_thresholds", threshold, key])
  pure { numbers, absoluteDriftOverL := sgn.abs, tailThresholds := tails }

/-- The request part, where there is one. -/
def requestPart (row : Json) (absent : Bool) : Except Fault (Option RequestView) :=
  if absent then .ok none else some <$> requestView row

/-- `row.get("request_pairing", {}).get(label, {}).get(key)`. -/
def population (row : Json) (label key : String) : Except Fault Json := do
  get (← get (← get row "request_pairing" (.obj [])) label (.obj [])) key .null

/-- `case_view`. -/
def caseView (py : Arithmetic) (row : Json) : Except Fault CaseView := do
  let perCore ← (← elements (← dig row ["cycles", "per_core_dev_pct"])).mapM numeric
  if perCore.isEmpty then .error (.valueError "missing core measurements") else
  let absent ← isNull <$> get row "request" .null
  let coreError ← numeric (← dig row ["cycles", "mean_abs_per_core_pct"])
  let perCore ← perCore.mapM present
  let signed ← py.mean perCore
  let makespan ← numeric (← dig row ["cycles", "makespan_dev_pct"])
  let request ← requestPart row absent
  let populations ← populationLabels.mapM fun label => do
    pure (label, ← project populationFields (population row label))
  pure
    { coreErrorPct := coreError
      signedCoreErrorPct := signed
      perCoreSignedErrorPct := perCore
      worstCoreErrorPct := Number.greatest ((perCore.map Number.abs).headD (.int 0)) (perCore.map Number.abs).tail
      makespanSignedErrorPct := makespan
      request, populations }

def labelled (l : List (String × Numbers)) : Json := .obj (l.map fun e => (e.1, e.2.toJson))

def RequestView.toJson (r : RequestView) : Json :=
  .obj ((r.numbers.map fun n => (n.1, optional n.2)) ++
    [("absolute_drift_over_L", r.absoluteDriftOverL.toJson), ("tail_thresholds", labelled r.tailThresholds)])

def requestJson : Option RequestView → Json
  | some r => r.toJson
  | none => .null

def CaseView.toJson (c : CaseView) : Json :=
  .obj [("core_error_pct", optional c.coreErrorPct),
    ("signed_core_error_pct", c.signedCoreErrorPct.toJson),
    ("per_core_signed_error_pct", .arr (c.perCoreSignedErrorPct.map Number.toJson)),
    ("worst_core_error_pct", c.worstCoreErrorPct.toJson),
    ("makespan_signed_error_pct", optional c.makespanSignedErrorPct),
    ("request", requestJson c.request),
    ("populations", labelled c.populations)]

/-! ## Groups -/

/-- `row["request"][key]`. -/
def RequestView.value (key : String) (r : RequestView) : Except Fault Number :=
  if key = "absolute_drift_over_L" then .ok r.absoluteDriftOverL
  else match r.numbers.lookup key with
    | some x => present x
    | none => .error .keyError

/-- The means over requests. -/
def meanFields : List String := ["mae", "sgn", "absolute_drift_over_L", "tail", "p999_over_L"]

/-- The request part of `group_means`, where every row has one. -/
def requestMeans (py : Arithmetic) (rows : List CaseView) : Except Fault Json :=
  match rows.mapM fun row => row.request with
  | none => .ok .null
  | some requests => do
      let means ← meanFields.mapM fun key => do
        pure (key, (← py.mean (← requests.mapM (RequestView.value key))).toJson)
      pure (.obj means)

/-- `group_means`, with the rows in the order of their dictionary. -/
def groupMeans (py : Arithmetic) (rows : List CaseView) : Except Fault Json := do
  let coreError ← py.mean (← rows.mapM fun row => present row.coreErrorPct)
  let signed ← py.mean (rows.map fun row => row.signedCoreErrorPct)
  let worst ← py.mean (rows.map fun row => row.worstCoreErrorPct)
  let makespan ← py.mean (← rows.mapM fun row => present row.makespanSignedErrorPct)
  let request ← requestMeans py rows
  pure (.obj [("core_error_pct", coreError.toJson), ("signed_core_error_pct", signed.toJson),
    ("worst_core_error_pct", worst.toJson), ("makespan_signed_error_pct", makespan.toJson), ("request", request)])

/-! ## The views -/

/-- `val1`, `val2` and so on. -/
def valAlias (i : Nat) : String := "val" ++ toString i

/-- The names of a cohort with what a view calls them. -/
def aliases (names : List String) (anonymous : Bool) : Dict String String :=
  Dict.accumulate Prod.fst "" (fun _ e => if anonymous then valAlias e.2 else e.1) (names.zipIdx 1)

/-- `aliases[name]`. -/
def aliasOf (names : List String) (anonymous : Bool) (name : String) : Except Fault String :=
  match (aliases names anonymous).lookup name with
  | some a => .ok a
  | none => .error .keyError

/-- One core count of `score_view`. -/
def groupView (py : Arithmetic) (names : List String) (anonymous : Bool) (group : Json) : Except Fault Json := do
  let entries ← (← itemsOf group "workloads").mapM fun e => do
    pure (← aliasOf names anonymous e.1, ← caseView py e.2)
  let rows := Dict.ofEntries entries
  let means ← groupMeans py (rows.map Prod.snd)
  pure (.obj [("means", means), ("cases", .obj (rows.map fun e => (e.1, e.2.toJson)))])

/-- `score_view`. -/
def scoreView (py : Arithmetic) (receipt : Json) (names : List String) (anonymous : Bool) : Except Fault Json := do
  let measurement ← get receipt "measurement" .null
  if isNull measurement then pure (.obj [("available", .bool false), ("groups", .obj [])]) else
  let groups ← (← itemsOf measurement "groups").mapM fun e => do
    pure (e.1, ← groupView py names anonymous e.2)
  pure (.obj [("available", .bool true), ("groups", .obj groups)])

/-- `values` of `validation_view`. -/
def errorPair (cycle request : Json) : Json := .obj [("core_error_pct", cycle), ("request_mae_over_L", request)]

/-- The two errors of one workload. -/
def workloadErrors (workloads : List (String × Json)) (name : String) : Except Fault Json :=
  match workloads.lookup name with
  | none => pure (errorPair .null .null)
  | some row => do
      let cycle ← dig row ["cycles", "mean_abs_per_core_pct"]
      let shown ← Json.truthy <$> index row "request"
      let mae ← if shown then dig row ["request", "mae"] else pure .null
      pure (errorPair cycle mae)

/-- `measurement[key] if measurement else {}`. -/
def reported (measurement : Json) (key : String) : Except Fault Json :=
  if measurement.truthy then index measurement key else .ok (.obj [])

def reportedItems (measurement : Json) (key : String) : Except Fault (List (String × Json)) :=
  reported measurement key >>= members

/-- `validation_view`. Where there is a measurement, its `workloads` are a dictionary. -/
def validationView (receipt : Json) (names : List String) : Except Fault Json := do
  let measurement ← get receipt "measurement" .null
  let aggregate ← reported measurement "aggregate"
  let workloads ← reportedItems measurement "workloads"
  let total := errorPair (← get aggregate "cycle_macro_mae_pct" .null) (← get aggregate "request_macro_mae_over_L" .null)
  let each ← (names.zipIdx 1).mapM fun e => do pure (valAlias e.2, ← workloadErrors workloads e.1)
  pure (.obj [("aggregate", total), ("workloads", .obj each)])

end Ramulator.ChiaLoop.Review
