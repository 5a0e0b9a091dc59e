/-
# Ramulator.Dram.Declaration — how a declared standard is serialized.

A standard is a Python class: level and command names, command lengths in clock cycles, and timing
constraints between lists of commands, each with an expression for its latency. `to_config`
(`dram/spec.py`) turns it into numbers for the device: every latency becomes a number of ticks,
corrected per pair of commands for their lengths, and the pairs of one latency are written as one entry,
a list of preceding ids and a list of following ids. The device reads an entry as the product of its
lists. Entries for the buses, made from the command lengths, come before those of the declarations.

Numbers of the source that may be floats are rationals here.
-/
import Ramulator.Lib.Dict
import Ramulator.Lib.Fallible
import Mathlib.Data.List.Sort
import Mathlib.Data.Rat.Floor
import Mathlib.Tactic.Linarith

namespace Ramulator.Dram

open Ramulator.Lib

/-! ## The declaration -/

/-- `TimingConstraint`. -/
structure TimingConstraint where
  level : String
  preceding : List String
  following : List String
  latency : String
  window : Int := 1
  sibling : Bool := false
  sharedWindow : Bool := false

/-- What `validate` and `to_config` raise. -/
inductive DeclarationError where
  | levelState (level state : String)
  | unknownLevel (level : String)
  | unknownCommand (command : String)
  | sharedWindow
  | sharedSibling
  | leadingRequests (names : List String)
  | requestCommand (request command : String)
  | unresolvedTimings (names : List String)
  | notPositive (field : String) (got : Int)
  | notPowerOfTwo (field : String) (got : Int)
  | notMultiple (channelWidth dq : Int)
  | missingLevel (orgPreset level : String)
  | unresolvedParameter (expression : String)
  | keyError (key : String)
  | zeroDivision
  deriving DecidableEq

/-- The class attributes of a `DRAMStandard`. `evalExpr` is `_eval_expr`: the timings are put in place of
their names and the text is left to Python's `eval`. -/
structure DRAMStandard where
  name : String
  levels : Dict String String
  commands : List String
  states : List String
  timingParams : List String
  supportedRequests : Dict String String
  timingConstraints : List TimingConstraint
  commandCycles : Dict String ℚ
  tickMultiplier : Int := 1
  dataPayloadBytes : Option Int := none
  readLatency : String := "nCL + nBL"
  rowCommands : List String := []
  columnCommands : List String := []
  evalExpr : String → Dict String ℚ → Except DeclarationError ℚ

/-- One element of `timing_constraints` as it is serialized. Trailing fields are left out where the
device's defaults are meant. -/
structure Entry where
  level : Nat
  preceding : List Nat
  following : List Nat
  latency : ℚ
  window : Option Int := none
  sibling : Option Bool := none
  historyGroup : Option Nat := none
  deriving DecidableEq

/-- The entry binds following id `j` to preceding id `i`. -/
def Entry.Names (e : Entry) (i j : Nat) : Prop := i ∈ e.preceding ∧ j ∈ e.following

/-- What `to_config` returns. -/
structure DRAMConfig where
  impl : String
  dq : Int
  count : List Int
  timing : List ℚ
  commandCycles : List Int
  channelWidth : Int
  readLatency : ℚ
  timingConstraints : List Entry
  dataPayloadBytes : Option Int
  deriving DecidableEq

/-- `{name: i for i, name in enumerate(names)}`: the last place of a name. -/
def indices (names : List String) : Dict String Nat :=
  Dict.accumulate Prod.fst 0 (fun _ p => p.2) names.zipIdx

/-- `int(q)`: the fraction is cut off. -/
def truncate (q : ℚ) : Int := q.num.tdiv q.den

/-- `d[key]`. -/
def item {α : Type} (d : Dict String α) (key : String) : Except DeclarationError α :=
  match d.lookup key with
  | some v => .ok v
  | none => .error (.keyError key)

/-- `if c: raise e`. -/
def raiseIf (c : Prop) [Decidable c] (e : DeclarationError) : Except DeclarationError Unit :=
  if c then .error e else .ok ()

namespace DRAMStandard

/-! ## Checks -/

/-- One constraint, as `validate` checks it. -/
def validateConstraint (cls : DRAMStandard) (tc : TimingConstraint) : Except DeclarationError Unit := do
  raiseIf (tc.level ∉ cls.levels.keys) (.unknownLevel tc.level)
  forM (tc.preceding ++ tc.following) fun c => raiseIf (c ∉ cls.commands) (.unknownCommand c)
  raiseIf (tc.sharedWindow ∧ (tc.window ≤ 1 ∨ tc.preceding.length ≤ 1)) .sharedWindow
  raiseIf (tc.sharedWindow ∧ tc.sibling) .sharedSibling

/-- `validate`. -/
def validate (cls : DRAMStandard) : Except DeclarationError Unit := do
  forM cls.levels fun (level, state) => raiseIf (state ∉ cls.states) (.levelState level state)
  forM cls.timingConstraints cls.validateConstraint
  raiseIf (cls.supportedRequests.keys.take 2 ≠ ["Read", "Write"])
    (.leadingRequests (cls.supportedRequests.keys.take 2))
  forM cls.supportedRequests fun (request, command) =>
    raiseIf (command ∉ cls.commands) (.requestCommand request command)

/-! ## Ticks -/

/-- The timings in ticks. The data rate is no time, and the clock period shrinks with the tick. -/
def tickTimings (cls : DRAMStandard) (timing : Dict String ℚ) : Except DeclarationError (Dict String ℚ) :=
  if cls.tickMultiplier = 1 then pure timing
  else timing.mapM fun (k, v) =>
    if k = "rate" then pure (k, v)
    else if k = "tCK_ps" then
      if cls.tickMultiplier = 0 then throw .zeroDivision else pure (k, (⌊v / cls.tickMultiplier⌋ : ℚ))
    else pure (k, (truncate (v * cls.tickMultiplier) : ℚ))

/-- `cmd_cycles.get(cmd, tick_mult)`: how long a command takes, in ticks. -/
def cycles (cls : DRAMStandard) (cmd : String) : Int :=
  ((cls.commandCycles.lookup cmd).map fun c => truncate (c * cls.tickMultiplier)).getD cls.tickMultiplier

/-! ## Timing constraints -/

/-- The latency of a pair of commands, counted from first cycle to first cycle. A shared window keeps
the last cycle of its preceding commands, so only the following command is corrected. -/
def adjusted (cls : DRAMStandard) (tc : TimingConstraint) (nominal : ℚ) (p f : String) : ℚ :=
  let pOff := cls.cycles p - 1
  let fOff := cls.cycles f - 1
  if tc.sharedWindow then nominal - fOff else nominal + pOff - fOff

/-- The pairs of a constraint with their latencies and ids, in the order in which the loops visit
them. -/
def pairs (cls : DRAMStandard) (tc : TimingConstraint) (nominal : ℚ) :
    Except DeclarationError (List (ℚ × Nat × Nat)) :=
  (tc.preceding.flatMap fun p => tc.following.map (p, ·)).mapM fun (p, f) => do
    let pId ← item (indices cls.commands) p
    let fId ← item (indices cls.commands) f
    pure (cls.adjusted tc nominal p f, pId, fId)

/-- Add an id that is not there yet. -/
def addId (ids : List Nat) (i : Nat) : List Nat := if i ∈ ids then ids else ids ++ [i]

/-- `lat_groups`: per latency, the preceding and the following ids of its pairs. -/
def latGroups (pairs : List (ℚ × Nat × Nat)) : Dict ℚ (List Nat × List Nat) :=
  Dict.accumulate (·.1) ([], []) (fun ids x => (addId ids.1 x.2.1, addId ids.2 x.2.2)) pairs

/-- The entry of one latency. -/
def entryOf (tc : TimingConstraint) (level group : Nat) (latency : ℚ) (ids : List Nat × List Nat) : Entry where
  level := level
  preceding := ids.1
  following := ids.2.insertionSort (· ≤ ·)
  latency := latency
  window := if tc.window ≠ 1 ∨ tc.sibling ∨ tc.sharedWindow then some tc.window else none
  sibling := if tc.sibling ∨ tc.sharedWindow then some tc.sibling else none
  historyGroup := if tc.sharedWindow then some group else none

/-- The entries of one constraint: the body of the loop in `to_config`. `group` is `history_group`. -/
def expand (cls : DRAMStandard) (timing : Dict String ℚ) (group : Nat) (tc : TimingConstraint) :
    Except DeclarationError (List Entry) := do
  let nominal ← cls.evalExpr tc.latency timing
  let level ← item (indices cls.levels.keys) tc.level
  let pairs ← cls.pairs tc nominal
  pure ((latGroups pairs).map fun g => entryOf tc level group g.1 g.2)

/-- The loop over the constraints, with the entries of each. -/
def expandAll (cls : DRAMStandard) (timing : Dict String ℚ) :
    Nat → List TimingConstraint → Except DeclarationError (List (List Entry))
  | _, [] => pure []
  | group, tc :: tcs => do
      let entries ← cls.expand timing group tc
      let rest ← cls.expandAll timing (if tc.sharedWindow then group + 1 else group) tcs
      pure (entries :: rest)

/-! ## Bus constraints -/

/-- The commands of each bus. -/
def buses (cls : DRAMStandard) : List (List String) :=
  if cls.rowCommands ≠ [] ∧ cls.columnCommands ≠ [] then [cls.rowCommands, cls.columnCommands]
  else [cls.commands]

/-- `cycle_groups`: the commands of a bus by their length. -/
def cycleGroups (cls : DRAMStandard) (bus : List String) : Dict Int (List String) :=
  Dict.accumulate cls.cycles [] (fun cmds cmd => cmds ++ [cmd]) bus

/-- The entries of one bus. One tick is what a command has anyway. -/
def busEntries (cls : DRAMStandard) (bus : List String) : Except DeclarationError (List Entry) := do
  let allBusIds ← bus.mapM (item (indices cls.commands))
  ((cls.cycleGroups bus).filter fun g => g.1 ≠ 1).mapM fun (ticks, cmds) => do
    let pIds ← cmds.mapM (item (indices cls.commands))
    pure { level := 0, preceding := pIds, following := allBusIds.insertionSort (· ≤ ·), latency := ticks }

/-- `_generate_bus_constraints`. -/
def busConstraints (cls : DRAMStandard) : Except DeclarationError (List Entry) :=
  List.flatten <$> cls.buses.mapM cls.busEntries

/-! ## The whole configuration -/

/-- The checks of the organization at the start of `to_config`. -/
def checkOrganization (cls : DRAMStandard) (org : Dict String Int) : Except DeclarationError Unit := do
  let cw ← item org "channel_width"
  let dq ← item org "dq"
  raiseIf (cw ≤ 0) (.notPositive "channel_width" cw)
  raiseIf (dq ≤ 0) (.notPositive "dq" dq)
  raiseIf (cls.dataPayloadBytes = none ∧ cw.toNat &&& (cw.toNat - 1) ≠ 0) (.notPowerOfTwo "channel_width" cw)
  raiseIf (cw % dq ≠ 0) (.notMultiple cw dq)
  forM cls.dataPayloadBytes.toList fun bytes => raiseIf (bytes ≤ 0) (.notPositive "data_payload_bytes" bytes)

/-- `to_config`, after `resolve` has given the organization and the timings. -/
def toConfig (cls : DRAMStandard) (orgPreset : String) (org : Dict String Int) (timing : Dict String ℚ) :
    Except DeclarationError DRAMConfig := do
  let unresolved := Dict.keys (timing.filter fun e => e.2 = -1)
  raiseIf (unresolved ≠ []) (.unresolvedTimings unresolved)
  cls.checkOrganization org
  let timing ← cls.tickTimings timing
  let constraints ← cls.expandAll timing 0 cls.timingConstraints
  let bus ← cls.busConstraints
  let orgCounts ← (cls.levels.keys.drop 1).mapM fun name =>
    match org.lookup name.toLower with
    | some count => pure count
    | none => throw (.missingLevel orgPreset name)
  let dq ← item org "dq"
  let timings ← cls.timingParams.mapM (item timing)
  let channelWidth ← item org "channel_width"
  let readLatency ← cls.evalExpr cls.readLatency timing
  pure
    { impl := cls.name, dq, count := 1 :: orgCounts, timing := timings
      commandCycles := cls.commands.map cls.cycles, channelWidth, readLatency
      timingConstraints := bus ++ constraints.flatten, dataPayloadBytes := cls.dataPayloadBytes }

end DRAMStandard

end Ramulator.Dram
