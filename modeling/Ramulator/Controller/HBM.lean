/-
# Ramulator.Controller.HBM — the HBM controllers, which issue on a column and on a row bus.

`HBMControllerBase` (`controller/impl/hbm_controller_base.{h,cpp}`) schedules twice in a tick, once
for each bus; a request only takes part if its next command belongs on that bus. HBM12 is this
controller unchanged. HBM34 (`hbm34_controller.cpp`) also looks at the clock edge: column commands
issue on rising edges, and on a falling edge only precharges, subject to the row command with which
they would be paired.
-/
import Ramulator.Controller.GenericDDR

namespace Ramulator.Controller

open Ramulator.Base (Request)
open Ramulator.Dram

variable {K : Type}

inductive SlotType where
  | columnBus
  | rowBus
  deriving DecidableEq, Repr

/-- The bus of each command, as the standard sets it in `command_meta`. -/
structure HBMConfig where
  isColumnCommand : Command → Bool
  isRowCommand : Command → Bool

/-- What the hooks of one tick enqueue; `onIssue` belongs to the column command. -/
structure SlotInputs (K : Type) extends TickInputs K where
  onRowIssue : List (Request Command K) := []

structure IssuedCommand where
  command : Command
  addrVec : AddrVec
  clk : Int

/-- `HBMControllerBase::slot_matches`. -/
def HBMConfig.slotMatches (h : HBMConfig) (slot : SlotType) (e : Entry K) : Bool :=
  match slot with
  | .columnBus => h.isColumnCommand e.cmd
  | .rowBus => h.isRowCommand e.cmd

namespace ControllerBase

/-- The upgrade by the row policy, whose command is taken back if it left the bus. The terminal
command is not. -/
def upgradeOnSlot (cfg : Config) (fits : Entry K → Bool) (s : ControllerBase K) (e : Entry K) :
    Entry K :=
  let upgraded := s.tryUpgradeCommand cfg e
  if upgraded.cmd ≠ e.cmd ∧ fits upgraded = false then { upgraded with command := e.command }
  else upgraded

/-- Serve the `i`-th request `e` of buffer `b` on a bus. -/
def serveOnSlot (cfg : Config) (fits : Entry K → Bool) (onIssue : List (Request Command K)) (b : Buf)
    (i : Nat) (e : Entry K) (s : ControllerBase K) :
    Except String (ControllerBase K × IssuedCommand) := do
  let (e, s) := s.count cfg b i (s.upgradeOnSlot cfg fits e)
  let s ← s.issueAndNotify cfg onIssue e
  pure (s.advance cfg b i e, ⟨e.cmd, e.addrVec, s.clk⟩)

/-- `try_issue_slot`: only the column bus looks at the active buffer. -/
def tryIssueSlot (cfg : Config) (fits : Entry K → Bool) (slot : SlotType)
    (onIssue : List (Request Command K)) (s : ControllerBase K) :
    Except String (ControllerBase K × Option IssuedCommand) :=
  match s.scheduleWith cfg (if slot = .columnBus then some fits else none) fits fits with
  | (s, none) => .ok (s, none)
  | (s, some (b, i)) =>
      match (s.bufs b)[i]? with
      | none => .ok (s, none)
      | some e => (s.serveOnSlot cfg fits onIssue b i e).map fun (s, issued) => (s, some issued)

end ControllerBase

/-! ## HBM12 -/

/-- `HBMControllerBase::tick`. -/
def hbm12Tick (cfg : Config) (h : HBMConfig) (inputs : SlotInputs K) (s : Derived K Unit) :
    Except String (Derived K Unit) := do
  let base ← s.base.preTick cfg inputs.toTickInputs
  let (base, _) ← base.tryIssueSlot cfg (h.slotMatches .columnBus) .columnBus inputs.onIssue
  let (base, _) ← base.tryIssueSlot cfg (h.slotMatches .rowBus) .rowBus inputs.onRowIssue
  let base ← base.prioritySendAll cfg inputs.postSchedule
  pure { s with base := base }

/-! ## HBM34 -/

/-- The levels that HBM34 looks up. -/
structure HBM34Config extends HBMConfig where
  levelPc : Nat
  levelSid : Nat
  levelBg : Nat
  levelBank : Nat

/-- The last row command of a rising edge; `command` is `-1` in the source until there is one. -/
structure RisingEdgeCommandInfo where
  command : Option Command := none
  pc : Int := -1
  bankKey : Int := -1
  nextPairingFallingEdge : Int := -1
  deriving DecidableEq, Repr

structure HBM34State where
  risingColumnPc : Int := -1
  risingEdgeCmdInfo : RisingEdgeCommandInfo := {}
  deriving DecidableEq, Repr

def isRisingEdge (clk : Int) : Bool := clk % 2 == 1

def isAllBankRowCommand (c : Command) : Bool := c = .PREab || c = .REFab || c = .RFMab

namespace HBM34Config

def bankKey (cfg : Config) (h : HBM34Config) (addr : AddrVec) : Int :=
  (addr.coord h.levelSid * cfg.spec.levelSize h.levelBg + addr.coord h.levelBg) *
    cfg.spec.levelSize h.levelBank + addr.coord h.levelBank

/-- `can_issue_falling_edge_pre`: the pairing rules apply at one edge, within one pseudo-channel. -/
def canIssueFallingEdgePre (cfg : Config) (h : HBM34Config) (clk : Int) (info : RisingEdgeCommandInfo)
    (e : Entry K) : Bool :=
  if clk ≠ info.nextPairingFallingEdge then true
  else if info.pc ≠ e.addrVec.coord h.levelPc then true
  else if info.command.any isAllBankRowCommand then false
  else e.cmd = .PREpb && h.bankKey cfg e.addrVec != info.bankKey

/-- `HBM34Controller::slot_matches`. -/
def slotMatches34 (cfg : Config) (h : HBM34Config) (clk : Int) (own : HBM34State) (slot : SlotType)
    (e : Entry K) : Bool :=
  let rowPc := e.addrVec.coord h.levelPc
  if isRisingEdge clk then
    if slot = .rowBus ∧ 0 ≤ own.risingColumnPc ∧ isAllBankRowCommand e.cmd ∧
        (rowPc < 0 ∨ rowPc = own.risingColumnPc) then false
    else h.toHBMConfig.slotMatches slot e
  else if slot = .columnBus then false
  else if e.cmd ≠ .PREpb ∧ e.cmd ≠ .PREab then false
  else h.canIssueFallingEdgePre cfg clk own.risingEdgeCmdInfo e

/-- `record_rising_row_issued_command_info`. -/
def recordRisingRow (cfg : Config) (h : HBM34Config) (issued : IssuedCommand) : RisingEdgeCommandInfo where
  command := some issued.command
  pc := issued.addrVec.coord h.levelPc
  bankKey := if isAllBankRowCommand issued.command then -1 else h.bankKey cfg issued.addrVec
  nextPairingFallingEdge := issued.clk + if issued.command = .ACT then 3 else 1

/-- The column slot of a tick: it exists on rising edges, and the row slot learns of its
pseudo-channel. -/
def columnSlot (cfg : Config) (h : HBM34Config) (onIssue : List (Request Command K))
    (s : Derived K HBM34State) : Except String (Derived K HBM34State) :=
  let own := { s.own with risingColumnPc := -1 }
  if isRisingEdge s.base.clk then
    (s.base.tryIssueSlot cfg (h.slotMatches34 cfg s.base.clk own .columnBus) .columnBus onIssue).map
      fun (base, issued) =>
        { base := base
          own := { own with
            risingColumnPc := (issued.map fun c => c.addrVec.coord h.levelPc).getD (-1) } }
  else .ok { s with own := own }

/-- The row slot of a tick, which remembers the row command of a rising edge. -/
def rowSlot (cfg : Config) (h : HBM34Config) (onIssue : List (Request Command K))
    (s : Derived K HBM34State) : Except String (Derived K HBM34State) :=
  (s.base.tryIssueSlot cfg (h.slotMatches34 cfg s.base.clk s.own .rowBus) .rowBus onIssue).map
    fun (base, issued) =>
      match issued with
      | some c =>
          { base := base
            own := if isRisingEdge s.base.clk
              then { s.own with risingEdgeCmdInfo := h.recordRisingRow cfg c } else s.own }
      | none => { s with base := base }

end HBM34Config

/-- `HBM34Controller::tick`. -/
def hbm34Tick (cfg : Config) (h : HBM34Config) (inputs : SlotInputs K) (s : Derived K HBM34State) :
    Except String (Derived K HBM34State) := do
  let base ← s.base.preTick cfg inputs.toTickInputs
  let s ← h.columnSlot cfg inputs.onIssue { s with base := base }
  let s ← h.rowSlot cfg inputs.onRowIssue s
  let base ← s.base.prioritySendAll cfg inputs.postSchedule
  pure { s with base := base }

end Ramulator.Controller
