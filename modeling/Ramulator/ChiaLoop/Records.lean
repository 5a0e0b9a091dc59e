/-
# Ramulator.ChiaLoop.Records — the durable step log of a campaign.

A campaign keeps its progress in two tables (`framework/records.py`): records, which are written once, and
attempts, which are counted for each step. A step runs its action at most once unless an adapter has said
that the failure is transient or an operator has looked at what happened.

The process may crash before any write, and during an action. A state has a log beside the tables, of what
happened to the step: nothing reads it, and it is there to say in which order things were. Waiting and the
two timestamps of an attempt are left out. There is one process: the driver holds the lease of the campaign.
-/
import Ramulator.Lib.Durable
import Ramulator.Lib.Json

namespace Ramulator.ChiaLoop

open Ramulator.Lib
open Ramulator.Lib.Durable (read write note raise crash orRaise wp)

/-! ## The tables -/

inductive Status where
  | started
  | complete
  | failed
  deriving DecidableEq, Repr

/-- A row of `attempts`. -/
structure Attempt where
  step : String
  number : Nat
  inputSha256 : String
  status : Status
  result : Option (List Char) := none
  error : Option (List Char) := none
  deriving DecidableEq, Repr

/-- The row of a new attempt. -/
def Attempt.new (step : String) (number : Nat) (inputSha256 : String) : Attempt where
  step := step
  number := number
  inputSha256 := inputSha256
  status := .started

/-- What happens to a step that its tables do not tell: its attempts with the maximum that the caller gave,
its actions, and what makes an attempt safe to repeat. -/
inductive Event where
  | attempt (number : Nat) (maximum : Int)
  | invoked (number : Nat) (repeatable : Bool)
  | transient (number : Nat)
  | authorized (number : Nat)
  deriving DecidableEq, Repr

structure CampaignState where
  records : List (String × List Char) := []
  attempts : List Attempt := []
  /-- What happened, in order. No code reads it. -/
  log : List Event := []

inductive Exn where
  | recordConflict (message : String)
  | unresolvedStep (message : String)
  | transientFailure (message : String)
  | integrityError
  | valueError
  | typeError
  | keyError (name : String)
  | action (traceback : List Char)

/-- A value as the language has it: the names of a dictionary are distinct. -/
abbrev Value := { v : Json // v.DistinctKeys }

/-- What the process finds outside of its database. -/
structure Host where
  sha256 : List Char → String
  formatExc : Exn → List Char

abbrev Proc := Durable CampaignState Exn

namespace CampaignState

/-- `SELECT * FROM attempts WHERE step=? ORDER BY number`. -/
def rows (key : String) (s : CampaignState) : List Attempt :=
  (s.attempts.filter fun a => a.step == key).insertionSort fun a b => a.number ≤ b.number

/-- `INSERT OR IGNORE INTO records`. -/
def insertRecord (key : String) (value : List Char) (s : CampaignState) : Except Exn CampaignState :=
  .ok (if (s.records.lookup key).isSome then s else { s with records := s.records ++ [(key, value)] })

/-- `INSERT INTO attempts`, with status `started`. -/
def insertAttempt (key : String) (number : Nat) (identity : String) (maximum : Int) (s : CampaignState) :
    Except Exn CampaignState :=
  if s.attempts.any fun a => a.step == key && a.number == number then .error .integrityError
  else .ok { s with
    attempts := s.attempts ++ [.new key number identity]
    log := s.log ++ [.attempt number maximum] }

/-- `UPDATE attempts ... WHERE step=? AND number=?`, and what it stands for. -/
def updateAttempt (key : String) (number : Nat) (f : Attempt → Attempt) (events : List Event)
    (s : CampaignState) : Except Exn CampaignState :=
  .ok { s with
    attempts := s.attempts.map fun a => if a.step = key ∧ a.number = number then f a else a
    log := s.log ++ events }

end CampaignState

open CampaignState

/-- `get`. -/
def get (key : String) : Proc (Option Json) := do
  let s ← read
  match s.records.lookup key with
  | none => pure none
  | some text =>
      let v ← orRaise .valueError (Json.loads Json.dictHook text)
      pure (some v)

/-- `save`: a record is written once. -/
def save (key : String) (value : Json) : Proc Json := do
  let encoded ← orRaise .valueError (Json.canonicalJson value)
  write (insertRecord key encoded)
  let stored ← get key
  match stored with
  | some v =>
      if v.eq value then pure value
      else raise (.recordConflict s!"cannot change committed campaign record: {key}")
  | none => raise (.recordConflict s!"cannot change committed campaign record: {key}")

/-- `value[name]`. -/
def item (value : Json) (name : String) : Proc Json := orRaise (.keyError name) (value.field? name)

/-- Text of an SQL column as JSON text, `null` where it is missing. -/
def columnText (column : Option (List Char)) : List Char :=
  match column with
  | some text => if text = [] then "null".toList else text
  | none => "null".toList

def extensionKey (key : String) (number : Nat) : String := s!"retry-extension:{key}:{number}"

/-! ## The operations of an operator -/

/-- The last attempt, of the same input. -/
def lastAttempt (key inputSha256 message : String) : Proc Attempt := do
  let s ← read
  match (s.rows key).getLast? with
  | none => raise (.recordConflict message)
  | some row => if row.inputSha256 = inputSha256 then pure row else raise (.recordConflict message)

/-- `reconcile_saved_result`. -/
def reconcileSavedResult (key inputSha256 : String) (result evidence : Value) : Proc Json := do
  let row ← lastAttempt key inputSha256 "saved result does not match the interrupted step"
  let encoded ← orRaise .valueError (Json.canonicalJson result.1)
  if row.status = .complete then
    if row.result = some encoded then pure result.1
    else raise (.recordConflict "cannot replace a completed step")
  else
    let success := match result.1.field? "success" with
      | some (.bool b) => b
      | _ => false
    if row.status = .started ∧ success = true ∧ evidence.1.truthy = true then
      let number := row.number
      let _ ← save s!"recovery:{key}:{number}" evidence.1
      write (updateAttempt key row.number (fun a =>
        if a.status = .started then { a with status := .complete, result := some encoded } else a) [])
      pure result.1
    else raise (.recordConflict "recovery requires a verified successful saved response")

/-- `authorize_native_continuation`. -/
def authorizeNativeContinuation (key inputSha256 : String) (evidence : Value) : Proc Unit := do
  let row ← lastAttempt key inputSha256 "continuation does not match the interrupted step"
  let checkpoint := match evidence.1.field? "checkpoint_sha256" with
    | some v => v.truthy
    | none => false
  if row.status = .started ∧ checkpoint = true then
    let number := row.number
    let originalError := match row.error with
      | some text => .str (String.ofList text)
      | none => .null
    let _ ← save s!"continuation:{key}:{number}"
      (.obj [("evidence", evidence.1), ("original_error", originalError)])
    let retry ← orRaise .valueError (Json.canonicalJson (.obj
      [("message", .str "operator verified native continuation"), ("retry_not_before", .int 0)]))
    write (updateAttempt key row.number (fun a =>
      if a.status = .started then { a with status := .failed, error := some retry } else a)
      [.authorized number])
  else raise (.recordConflict "continuation requires an unresolved step and verified checkpoint")

/-- `authorize_retry_extension`. -/
def authorizeRetryExtension (key inputSha256 : String) (evidence : Value) : Proc Json := do
  let row ← lastAttempt key inputSha256 "retry extension does not match the interrupted step"
  let safe := match Json.loads Json.dictHook (columnText row.error) with
    | some failure => (failure.field? "retry_not_before").isSome
    | none => false
  let checkpoint := match evidence.1.field? "checkpoint_sha256" with
    | some v => v.truthy
    | none => false
  let reason := match evidence.1.field? "reason" with
    | some v => v.truthy
    | none => false
  if row.status = .failed ∧ safe = true ∧ checkpoint = true ∧ reason = true then
    save (extensionKey key row.number) (.obj
      [("input_sha256", .str inputSha256), ("after_attempt", .int row.number),
        ("maximum_attempts", .int (row.number + 1)), ("evidence", evidence.1)])
  else raise (.recordConflict "retry extension requires a verified, safe native continuation")

/-! ## `step` -/

/-- What an action does: it returns a value, raises `TransientFailure` (with the time until a retry, if the
adapter knows one, and the time it is), raises anything else, or the process crashes in it. A value that
has no JSON form is the same as an exception: it fails where the action is called. -/
inductive ActionResult where
  | returned (v : Value)
  | transient (message : String) (retryAfter : Option binary64.Value) (now : binary64.Value)
  | raised (traceback : List Char)
  | crashed

/-- What a call of `step` is given, the action apart. -/
structure StepCall where
  inputs : Value
  maximumAttempts : Int
  retryDelaySeconds : binary64.Value
  repeatAfterInterruption : Bool := false

/-- The checks of a retry extension, and the maximum that it makes. -/
def extendMaximum (key identity : String) (previous : Attempt) (maximum : Int) : Proc Int := do
  let extension ← get (extensionKey key previous.number)
  match extension with
  | none => pure maximum
  | some extension =>
      if extension.truthy = true then
        let input ← item extension "input_sha256"
        let after ← item extension "after_attempt"
        let granted ← item extension "maximum_attempts"
        -- the maximum that is granted is the number after this one
        if input.eq (.str identity) ∧ after.eq (.int previous.number) ∧
            granted.eq (.int (previous.number + 1)) then
          pure (max maximum (previous.number + 1))
        else raise (.recordConflict s!"retry extension identity changed: {key}")
      else pure maximum

/-- The cooldown after a failure. The wait itself leaves no trace. -/
def cooldown (previous : Attempt) : Proc Unit :=
  if previous.status = .failed then
    match (Json.loads Json.dictHook (columnText previous.error)).bind (·.field? "retry_not_before") with
    | none => pure ()
    | some deadline =>
        match deadline with
        | .int _ | .float _ | .bool _ => pure ()
        | _ => raise .typeError
  else pure ()

/-- A turn of the loop up to the action: the result of a completed step, or the number of a new attempt
with the maximum for the turns to come. `declared` is the maximum that the caller gave. -/
def beforeAction (key identity : String) (declared maximum : Int) (repeatable : Bool) :
    Proc (Json ⊕ Nat × Int) := do
  let s ← read
  let rows := s.rows key
  if rows.any fun row => row.inputSha256 != identity then
    raise (.recordConflict s!"step inputs changed: {key}")
  else
    match rows.getLast? with
    | none =>
        if (rows.length : Int) ≥ maximum then raise (.unresolvedStep s!"attempt limit reached: {key}")
        else
          write (insertAttempt key (rows.length + 1) identity declared)
          pure (.inr (rows.length + 1, maximum))
    | some previous =>
        if previous.status = .complete then
          match previous.result with
          | some text =>
              let v ← orRaise .valueError (Json.loads Json.dictHook text)
              pure (.inl v)
          | none => raise .typeError
        else if previous.status = .started ∧ repeatable = false then
          raise (.unresolvedStep s!"reconcile interrupted operation before continuing: {key}")
        else
          let maximum' ← extendMaximum key identity previous maximum
          if (rows.length : Int) ≥ maximum' then raise (.unresolvedStep s!"attempt limit reached: {key}")
          else
            cooldown previous
            write (insertAttempt key (rows.length + 1) identity declared)
            pure (.inr (rows.length + 1, maximum'))

/-- The rest of the turn: the result, or none if there is to be another turn. -/
def afterAction (host : Host) (key : String) (number : Nat) (maximum : Int) (delay : binary64.Value) :
    ActionResult → Proc (Option Json)
  | .returned v =>
      let encoded : Except Exn (List Char) :=
        match v.1, Json.canonicalJson v.1 with
        | .obj _, some text => .ok text
        | .obj _, none => .error .valueError
        | _, _ => .error .typeError
      match encoded with
      | .ok text => do
          write (updateAttempt key number (fun a => { a with status := .complete, result := some text }) [])
          pure (some v.1)
      | .error e => do
          write (updateAttempt key number (fun a => { a with error := some (host.formatExc e) }) [])
          raise e
  | .transient message retryAfter now => do
      let retry ← orRaise .valueError (Json.canonicalJson (.obj
        [("message", .str message), ("retry_not_before", .float (now.add (retryAfter.getD delay)))]))
      write (updateAttempt key number (fun a => { a with status := .failed, error := some retry })
        [.transient number])
      if (number : Int) ≥ maximum then raise (.transientFailure message)
      else pure none
  | .raised traceback => do
      write (updateAttempt key number (fun a => { a with error := some traceback }) [])
      raise (.action traceback)
  | .crashed => crash

/-- The loop of `step`. Each turn that gets so far takes the next of the actions; where none is left the
process crashes in the action. -/
def stepLoop (host : Host) (key identity : String) (call : StepCall) :
    List ActionResult → Int → Proc Json
  | [], maximum => do
      match ← beforeAction key identity call.maximumAttempts maximum call.repeatAfterInterruption with
      | .inl v => pure v
      | .inr (number, _) =>
          note fun s => { s with log := s.log ++ [.invoked number call.repeatAfterInterruption] }
          crash
  | action :: actions, maximum => do
      match ← beforeAction key identity call.maximumAttempts maximum call.repeatAfterInterruption with
      | .inl v => pure v
      | .inr (number, maximum) =>
          note fun s => { s with log := s.log ++ [.invoked number call.repeatAfterInterruption] }
          match ← afterAction host key number maximum call.retryDelaySeconds action with
          | some v => pure v
          | none => stepLoop host key identity call actions maximum

/-- `digest_json`. -/
def digestJson (host : Host) (v : Json) : Option String := (Json.canonicalJson v).map host.sha256

/-- `step`, with what its action does each time it is called. -/
def step (host : Host) (key : String) (call : StepCall) (actions : List ActionResult) : Proc Json := do
  let identity ← orRaise .valueError (digestJson host call.inputs.1)
  stepLoop host key identity call actions call.maximumAttempts

/-! ## Runs -/

/-- A call on the step, with what it is given. -/
inductive Call where
  | step (call : StepCall) (actions : List ActionResult)
  | reconcileSavedResult (inputSha256 : String) (result evidence : Value)
  | authorizeNativeContinuation (inputSha256 : String) (evidence : Value)
  | authorizeRetryExtension (inputSha256 : String) (evidence : Value)

/-- What is left of a call that may make `writes` more writes. -/
def Call.final (host : Host) (key : String) (writes : Nat) : Call → CampaignState → CampaignState
  | .step call actions => (ChiaLoop.step host key call actions).final writes
  | .reconcileSavedResult sha result evidence =>
      (ChiaLoop.reconcileSavedResult key sha result evidence).final writes
  | .authorizeNativeContinuation sha evidence =>
      (ChiaLoop.authorizeNativeContinuation key sha evidence).final writes
  | .authorizeRetryExtension sha evidence =>
      (ChiaLoop.authorizeRetryExtension key sha evidence).final writes

/-- Calls one after the other, each with the writes after which it crashes, if it gets so far. -/
def runCalls (host : Host) (key : String) : List (Nat × Call) → CampaignState → CampaignState
  | [], s => s
  | (writes, call) :: calls, s => runCalls host key calls (call.final host key writes s)

end Ramulator.ChiaLoop
