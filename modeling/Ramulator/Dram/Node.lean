/-
# Ramulator.Dram.Node — the timing side of the DRAM node tree.

`DRAMNode` (`dram/node.{h,cpp}`) is a tree with one node per channel, rank, bank group, bank: each
node keeps, per command, the next clock at which the command may issue (`m_cmd_ready_clk`), a
bounded history of issue clocks (`m_cmd_history`) and bounded histories shared by a group of
commands (`m_shared_window_history`). `updateTiming` is the walk that records one issued command,
`checkTiming` and `earliestReady` the walks that query it. The bank state of a node (`m_state`,
`m_row_state`) is not touched by any of them and lives in `Ramulator.Dram.Device`.

Children are a length with an indexing function, so that the tree is an ordinary inductive type and
every walk below is structural recursion.
-/
import Ramulator.Lib.Window
import Ramulator.Dram.Spec

namespace Ramulator.Dram

open Ramulator.Lib

variable {C : Type} [DecidableEq C]

/-! ## Node state and construction -/

/-- The timing fields of one node. -/
structure NodeTiming (C : Type) where
  cmdReadyClk : C → Int
  cmdHistory : C → List Int
  sharedWindowHistory : Nat → List Int

/-- A node with its level, its id among its siblings, its timing fields and its children. -/
inductive DRAMNode (C : Type) where
  | mk (level : Nat) (nodeId : Int) (timing : NodeTiming C) (numChildren : Nat)
      (child : Fin numChildren → DRAMNode C)

/-- The fields a fresh node of `level` starts with: nothing constrained, every history slot `-1`. -/
def NodeTiming.init (spec : DRAMSpec C) (level : Nat) : NodeTiming C where
  cmdReadyClk := fun _ => -1
  cmdHistory := fun cmd => List.replicate (spec.maxWindow level cmd) (-1)
  sharedWindowHistory := fun g => List.replicate (spec.groupWindow level g) (-1)

/-- The constructor `DRAMNode::DRAMNode`. The first argument counts the levels still to build below
this one: it is `0` when `level + 1` is the row level, where the recursion of the source stops. -/
def DRAMNode.build (spec : DRAMSpec C) : Nat → Nat → Int → DRAMNode C
  | 0, level, id => .mk level id (NodeTiming.init spec level) 0 Fin.elim0
  | depth + 1, level, id =>
      .mk level id (NodeTiming.init spec level) (spec.levelSize (level + 1))
        (fun i => build spec depth (level + 1) i)

/-- The root that `DRAMDevice::init` builds, after `set_channel_id`. -/
def DRAMNode.root (spec : DRAMSpec C) (channelId : Int) : DRAMNode C :=
  DRAMNode.build spec (spec.rowLevel - 1) 0 channelId

/-! ## Recording a command -/

/-- The sibling branch of `update_timing`: every sibling constraint of `command` counts from `clk`. -/
def NodeTiming.updateSibling (spec : DRAMSpec C) (level : Nat) (command : C) (clk : Int)
    (tm : NodeTiming C) : NodeTiming C :=
  { tm with
    cmdReadyClk := bumpAll (·.cmd) (fun t => if t.sibling then some (clk + t.val) else none)
      tm.cmdReadyClk (spec.timingCons level command) }

/-- The target branch, first part: `command`'s own history, when it has one. -/
def NodeTiming.pushHistory (command : C) (clk : Int) (tm : NodeTiming C) : NodeTiming C :=
  if tm.cmdHistory command = [] then tm
  else { tm with cmdHistory :=
    Function.update tm.cmdHistory command (pushFront clk (tm.cmdHistory command)) }

/-- The target branch, second part: every shared history that `command` takes part in gets its end
time once, `shared_window_updated` remembering which were pushed already. -/
def NodeTiming.pushShared (spec : DRAMSpec C) (level : Nat) (command : C) (clk : Int)
    (tm : NodeTiming C) : NodeTiming C :=
  let step := fun (acc : (Nat → List Int) × (Nat → Bool)) (t : TimingConsEntry C) =>
    match t.historyGroup with
    | none => acc
    | some g =>
        if acc.2 g then acc
        else (Function.update acc.1 g (pushFront (clk + spec.commandCycles command - 1) (acc.1 g)),
              Function.update acc.2 g true)
  { tm with sharedWindowHistory :=
      ((spec.timingCons level command).foldl step (tm.sharedWindowHistory, fun _ => false)).1 }

/-- The history slot that constraint `t` filed under `command` reads. -/
def NodeTiming.past (command : C) (tm : NodeTiming C) (t : TimingConsEntry C) : Int :=
  match t.historyGroup with
  | some g => (tm.sharedWindowHistory g).getD (t.window - 1) (-1)
  | none => (tm.cmdHistory command).getD (t.window - 1) (-1)

/-- The target branch, third part: every non-sibling constraint counts from its history slot, unless
that slot is still empty (negative). -/
def NodeTiming.raiseReady (spec : DRAMSpec C) (level : Nat) (command : C) (tm : NodeTiming C) :
    NodeTiming C :=
  { tm with
    cmdReadyClk := bumpAll (·.cmd)
      (fun t =>
        if t.sibling then none
        else if tm.past command t < 0 then none
        else some (tm.past command t + t.val))
      tm.cmdReadyClk (spec.timingCons level command) }

/-- The whole target branch of `update_timing`. -/
def NodeTiming.updateTarget (spec : DRAMSpec C) (level : Nat) (command : C) (clk : Int)
    (tm : NodeTiming C) : NodeTiming C :=
  ((tm.pushHistory command clk).pushShared spec level command clk).raiseReady spec level command

/-- The walk of `DRAMNode::update_timing`. -/
def DRAMNode.updateTiming (spec : DRAMSpec C) (command : C) (addr : AddrVec) (clk : Int) :
    DRAMNode C → DRAMNode C
  | .mk level id tm n child =>
      if id ≠ addr.coord level ∧ addr.coord level ≠ -1 then
        .mk level id (tm.updateSibling spec level command clk) n child
      else
        let target := addr.coord (level + 1)
        -- without sibling constraints below, only the addressed child needs the visit
        if spec.hasSiblingCons (level + 1) command ∨ target = -1 then
          .mk level id (tm.updateTarget spec level command clk) n
            (fun i => (child i).updateTiming spec command addr clk)
        else
          .mk level id (tm.updateTarget spec level command clk) n
            (fun i => if (i : Int) = target then (child i).updateTiming spec command addr clk
              else child i)

/-! ## Querying a command -/

/-- The walk of `DRAMNode::check_timing`. -/
def DRAMNode.checkTiming (command : C) (addr : AddrVec) (clk : Int) : DRAMNode C → Bool
  | .mk level _ tm n child =>
      if tm.cmdReadyClk command ≠ -1 ∧ clk < tm.cmdReadyClk command then false
      else
        let childId := addr.coord (level + 1)
        if n = 0 then true
        else if childId = -1 then
          (List.ofFn fun i => (child i).checkTiming command addr clk).all id
        else if h : childId.toNat < n then (child ⟨childId.toNat, h⟩).checkTiming command addr clk
        else true

/-- The walk of `DRAMNode::earliest_ready`. -/
def DRAMNode.earliestReady (command : C) (addr : AddrVec) : DRAMNode C → Int
  | .mk level _ tm n child =>
      let ready := tm.cmdReadyClk command
      if n = 0 then ready
      else
        let childId := addr.coord (level + 1)
        if childId = -1 then
          (List.ofFn fun i => (child i).earliestReady command addr).foldl max ready
        else if h : childId.toNat < n then
          max ready ((child ⟨childId.toNat, h⟩).earliestReady command addr)
        else ready

end Ramulator.Dram
