/-
# Ramulator.Dram.Command — the DRAM commands and what they do to one bank.

Each header of `dram/commands/` gives a command its metadata, the banks it visits, its effect on a
bank (`action`) and the command that must come first in the bank's current state (`preq`). A standard
registers the commands it has; `Standard` in `Ramulator.Dram.Device` says which. The `_S` and `_L`
forms of LPDDR6 inherit everything from the plain column commands.
-/
import Ramulator.Dram.Spec
import Mathlib.Tactic.Common

namespace Ramulator.Dram

inductive Command where
  | ACT | ACT1 | ACT2
  | CAS | CAS_RD | CAS_WR
  | PREpb | PREab | PREsb
  | RD | WR | RDA | WRA
  | RD_S | RD_L | WR_S | WR_L | RDA_S | RDA_L | WRA_S | WRA_L
  | REFab | REFpb | REFsb
  | RFMab | RFMpb | RFMsb
  | VRR
  | RCKSTRT | RCKSTOP
  deriving DecidableEq, Repr, Inhabited

/-- The states of a bank. Only split-activate standards use `activating`. -/
inductive State where
  | opened
  | closed
  | activating
  deriving DecidableEq, Repr

/-- `m_state` and the keys of `m_row_state` of a bank node. -/
structure BankState where
  state : State := .closed
  rows : List Int := []
  deriving DecidableEq, Repr

inductive BankTarget where
  | single
  | all
  | sameBank
  deriving DecidableEq, Repr

structure CommandMeta where
  isOpening : Bool := false
  isClosing : Bool := false
  isAccessing : Bool := false
  isRefreshing : Bool := false
  deriving DecidableEq, Repr

namespace Command

/-- All commands of the repository. -/
def all : List Command :=
  [ACT, ACT1, ACT2, CAS, CAS_RD, CAS_WR, PREpb, PREab, PREsb, RD, WR, RDA, WRA,
    RD_S, RD_L, WR_S, WR_L, RDA_S, RDA_L, WRA_S, WRA_L, REFab, REFpb, REFsb, RFMab, RFMpb, RFMsb,
    VRR, RCKSTRT, RCKSTOP]

theorem mem_all (c : Command) : c ∈ all := by
  cases c <;> decide

def commandMeta : Command → CommandMeta
  | ACT | ACT1 => { isOpening := true }
  | PREpb | PREab | PREsb => { isClosing := true }
  | RD | WR | RD_S | RD_L | WR_S | WR_L => { isAccessing := true }
  | RDA | WRA | RDA_S | RDA_L | WRA_S | WRA_L => { isClosing := true, isAccessing := true }
  | REFab | REFpb | REFsb | RFMab | RFMpb | RFMsb | VRR => { isRefreshing := true }
  | ACT2 | CAS | CAS_RD | CAS_WR | RCKSTRT | RCKSTOP => {}

def bankTarget : Command → BankTarget
  | PREab | REFab | RFMab | RCKSTRT | RCKSTOP => .all
  | PREsb | REFsb | RFMsb => .sameBank
  | ACT | ACT1 | ACT2 | CAS | CAS_RD | CAS_WR | PREpb | RD | WR | RDA | WRA | RD_S | RD_L | WR_S | WR_L
  | RDA_S | RDA_L | WRA_S | WRA_L | REFpb | RFMpb | VRR => .single

/-- The effect on a target bank; `row` is the row coordinate of the address. -/
def action (c : Command) (row : Int) (bank : BankState) : BankState :=
  match c with
  | ACT | ACT2 => { state := .opened, rows := bank.rows.insert row }
  | ACT1 => { bank with state := .activating }
  | PREpb | PREab | PREsb | RDA | WRA | RDA_S | RDA_L | WRA_S | WRA_L => { state := .closed, rows := [] }
  | _ => bank

/-- `ACT::preq`. The source throws on any other bank state; no bank of a standard with `ACT` is ever
in one. -/
def actPreq (c : Command) (row : Int) (bank : BankState) : Command :=
  match bank.state with
  | .closed => ACT
  | .opened => if row ∈ bank.rows then c else PREpb
  | .activating => c

/-- `ACT1::preq`. -/
def act1Preq (c : Command) (row : Int) (bank : BankState) : Command :=
  match bank.state with
  | .closed => ACT1
  | .activating => c
  | .opened => if row ∈ bank.rows then c else PREpb

/-- `ACT2::preq`. -/
def act2Preq (c : Command) (row : Int) (bank : BankState) : Command :=
  match bank.state with
  | .closed => ACT1
  | .activating => ACT2
  | .opened => if row ∈ bank.rows then c else PREpb

/-- The preqs that only ask for a closed bank. -/
def closedPreq (closing c : Command) (bank : BankState) : Command :=
  if bank.state = .closed then c else closing

/-- The command to issue to a target bank on the way to `c`; `split` says that the standard activates
a row in two steps. Commands without a `preq` need nothing. -/
def preq (split : Bool) (c : Command) (row : Int) (bank : BankState) : Command :=
  match c with
  | ACT => actPreq c row bank
  | ACT1 => act1Preq c row bank
  | ACT2 => act2Preq c row bank
  | RD | WR | RDA | WRA | RD_S | RD_L | WR_S | WR_L | RDA_S | RDA_L | WRA_S | WRA_L =>
      if split then act2Preq c row bank else actPreq c row bank
  | PREpb => closedPreq PREpb c bank
  | REFab | RFMab => closedPreq PREab c bank
  | REFsb | RFMsb => closedPreq PREsb c bank
  | REFpb | RFMpb | VRR => closedPreq PREpb c bank
  | PREab | PREsb | CAS | CAS_RD | CAS_WR | RCKSTRT | RCKSTOP => c

/-- Column commands know whether their row is open. -/
def rowhit (c : Command) (row : Int) (bank : BankState) : Bool :=
  c.commandMeta.isAccessing && bank.state == .opened && bank.rows.contains row

def rowopen (c : Command) (bank : BankState) : Bool :=
  c.commandMeta.isAccessing && bank.state == .opened

end Command

end Ramulator.Dram
