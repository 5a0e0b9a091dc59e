/-
# Ramulator.Controller.RowPolicy — the open and the closed-with-cap row policy.

The hooks of `IRowPolicy` for the two implementations of `controller/rowpolicy/impl/`. Open does
nothing. ClosedCAP counts column accesses per bank; once a bank reaches the cap it turns the next
`RD`/`WR` into its auto-precharge form if that may issue, and otherwise enqueues a `PREpb`.
-/
import Ramulator.Controller.Base

namespace Ramulator.Controller

open Ramulator.Base (Request)
open Ramulator.Dram

variable {K : Type}

/-- The first of the given commands that the standard has. -/
def findCommand (spec : Standard) (names : List Command) : Option Command :=
  names.find? spec.supports

/-- The column commands that ClosedCAP looks up at `init`, with their auto-precharge forms; none of
these if the standard does not have both forms. -/
def apUpgrade (spec : Standard) (c : Command) : Option Command :=
  match findCommand spec [.RDA, .RDA_S], findCommand spec [.WRA, .WRA_S] with
  | some rda, some wra =>
      if some c = findCommand spec [.RD, .RD_S] then some rda
      else if some c = findCommand spec [.WR, .WR_S] then some wra
      else none
  | _, _ => none

/-- The address of bank `i`: its node ids from the channel down, wildcards below. -/
def bankAddr (spec : Standard) (channelId : Int) (i : Nat) : AddrVec :=
  (List.range spec.levelSizes.length).map fun l =>
    if l = 0 then channelId
    else if l ≤ spec.bankLevel then ((spec.bankNodes.getD i []).getD (l - 1) 0 : Int)
    else -1

namespace ControllerBase

/-- The request that `try_upgrade_command` leaves for the request `e` chosen in `s`. -/
def tryUpgradeCommand (cfg : Config) (s : ControllerBase K) (e : Entry K) : Entry K :=
  match cfg.rowPolicy with
  | .opened => e
  | .closedCAP cap =>
      let bank := bankOf cfg e
      if e.addrVec = [] ∨ bank < 0 ∨ cfg.spec.bankCount ≤ bank then e
      else if s.rowPolicy.colAccesses bank < cap then e
      else
        match apUpgrade cfg.spec e.cmd with
        | none => e
        | some ap =>
            if s.device.checkTiming ap e.addrVec s.clk then
              { e with command := some ap, finalCommand := some ap }
            else e

/-- `on_issue` of the row policy. -/
def rowPolicyOnIssue (cfg : Config) (e : Entry K) (s : ControllerBase K) : ControllerBase K :=
  match cfg.rowPolicy with
  | .opened => s
  | .closedCAP _ =>
      let closed := s.device.targetBanks cfg.spec e.cmd e.addrVec
      let bank := bankOf cfg e
      let p := s.rowPolicy
      if e.cmd.commandMeta.isClosing then
        { s with rowPolicy :=
          { colAccesses := fun b => if b ∈ closed then 0 else p.colAccesses b
            prepbInjected := fun b => if b ∈ closed then false else p.prepbInjected b } }
      else if e.cmd.commandMeta.isAccessing ∧ e.addrVec ≠ [] ∧ 0 ≤ bank ∧ bank < cfg.spec.bankCount then
        { s with rowPolicy :=
          { p with colAccesses := Function.update p.colAccesses bank (p.colAccesses bank + 1) } }
      else s

/-- One iteration of `pre_schedule`: if bank `i` has reached the cap, has no `PREpb` on its way and one
may issue, enqueue it. -/
def injectPREpb (cfg : Config) (cap : Int) (s : ControllerBase K) (i : Nat) :
    Except String (ControllerBase K) :=
  let addr := bankAddr cfg.spec s.device.channelId i
  if s.rowPolicy.colAccesses i < cap ∨ s.rowPolicy.prepbInjected i = true ∨
      s.device.checkTiming .PREpb addr s.clk = false then .ok s
  else
    (s.prioritySend cfg (Request.ofCommand addr .PREpb)).map fun (accepted, s) =>
      if accepted then
        { s with rowPolicy :=
          { s.rowPolicy with prepbInjected := Function.update s.rowPolicy.prepbInjected i true } }
      else s

/-- `pre_schedule` of the row policy. -/
def rowPolicyPreSchedule (cfg : Config) (s : ControllerBase K) : Except String (ControllerBase K) :=
  match cfg.rowPolicy with
  | .opened => .ok s
  | .closedCAP cap => (List.range cfg.spec.bankCount).foldlM (injectPREpb cfg cap) s

end ControllerBase

end Ramulator.Controller
