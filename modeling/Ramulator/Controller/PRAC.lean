/-
# Ramulator.Controller.PRAC — the controller with per-row activation counting.

`PRACController` (`controller/impl/prac_controller.cpp`) counts the activations of every row. A row at
the alert threshold starts the back-off protocol: for a while requests go on as long as they finish in
time, then the queued precharges and refresh-management commands of the recovery run, and some
activations later the controller is back to normal.
-/
import Ramulator.Controller.GenericDDR

namespace Ramulator.Controller

open Ramulator.Base (Request)
open Ramulator.Dram

variable {K : Type}

inductive ABOState where
  | normal
  | preRecovery
  | recovery
  | delay
  deriving DecidableEq, Repr

/-- The parameters. `aboActCycles` is what the float division of `setup` makes of `abo_act_ns`. A map
from rows to counts is the list of its elements in the order of iteration, which is the library's
business: `order` rearranges it when an element is added. -/
structure PRACConfig where
  aboThreshold : Int
  aboActCycles : Int
  aboRecoveryRefs : Int
  aboDelayActs : Int
  rankLevel : Nat
  bankgroupLevel : Option Nat
  nRP : Int
  nRAS : Int
  nRTP : Int
  nCWL : Int
  nBL : Int
  nWR : Int
  nRFM : Int
  nRFMsb : Int
  nRFMpb : Int
  nRFC : Int
  order : List (Int × Int) → List (Int × Int)
  order_perm : ∀ l, (order l).Perm l

/-- The fields of the controller; `recoveryStart` is `none` for the largest `Clk_t`. -/
structure PRACState where
  aboState : ABOState := .normal
  recoveryStart : Option Int := none
  recovRemRefs : Int := 0
  delayRemActs : Int := 0
  aboNeeded : Bool := false
  bankCounters : Int → List (Int × Int) := fun _ => []
  criticalRows : Int → List (Int × Int) := fun _ => []
  recoverySetup : Bool := false
  numRecovery : Nat := 0

namespace PRACConfig

def numRanks (cfg : Config) (p : PRACConfig) : Nat := cfg.spec.levelSize p.rankLevel

def numBanksPerRank (cfg : Config) (p : PRACConfig) : Nat := cfg.spec.bankCount / p.numRanks cfg

/-- `m_num_banks_per_bankgroup`, which stays `-1` without bank groups. -/
def numBanksPerBankgroup (cfg : Config) (p : PRACConfig) : Int :=
  if p.bankgroupLevel.isSome then cfg.spec.levelSize cfg.spec.bankLevel else -1

/-- `min_cycles_with_preall`: the cycles from a command to the end of the precharge behind it. -/
def minCyclesWithPreall (cfg : Config) (p : PRACConfig) (e : Entry K) : Int :=
  let writeToPre := p.nCWL + p.nBL + p.nWR
  match e.cmd with
  | .ACT => p.nRAS + writeToPre + p.nRP
  | .RD => p.nRTP + p.nRP
  | .WR => writeToPre + p.nRP
  | .RFMab => p.nRFM
  | .RFMsb => if cfg.spec.supports .RFMsb then p.nRFMsb else 0
  | .RFMpb => if cfg.spec.supports .RFMpb then p.nRFMpb else 0
  | .REFab => if cfg.spec.supports .REFab then p.nRFC else 0
  | _ => 0

/-! ## Counting -/

/-- `m[row] = count` on a map from rows to counts. -/
def assign (p : PRACConfig) (row count : Int) (m : List (Int × Int)) : List (Int × Int) :=
  if m.any (·.1 == row) then m.map fun x => if x.1 = row then (row, count) else x
  else p.order (m ++ [(row, count)])

/-- The first element with the largest count. -/
def maxCount : List (Int × Int) → Option (Int × Int)
  | [] => none
  | x :: m => some (m.foldl (fun best y => if best.2 < y.2 then y else best) x)

/-- The refresh-management commands that reset a counter and count as recovery. -/
def isRFM (cfg : Config) (c : Command) : Bool :=
  c = .RFMab || (cfg.spec.supports .RFMsb && c = .RFMsb)

/-- `on_request_for_bank`: an activation counts, and a refresh-management command serves the row with
the largest count. -/
def onRequestForBank (cfg : Config) (p : PRACConfig) (e : Entry K) (s : PRACState) (bank : Int) :
    PRACState :=
  if e.cmd = .ACT then
    let row := e.addrVec.coord cfg.spec.rowLevel
    let count := ((s.bankCounters bank).lookup row).getD 0 + 1
    let s :=
      { s with
        bankCounters :=
          Function.update s.bankCounters bank (p.assign row count (s.bankCounters bank)) }
    if p.aboThreshold ≤ count then
      { s with
        criticalRows := Function.update s.criticalRows bank (p.assign row count (s.criticalRows bank))
        aboNeeded := true }
    else s
  else if isRFM cfg e.cmd then
    match maxCount (s.bankCounters bank) with
    | none => s
    | some (row, _) =>
        { s with
          bankCounters := Function.update s.bankCounters bank (p.assign row 0 (s.bankCounters bank))
          criticalRows :=
            Function.update s.criticalRows bank ((s.criticalRows bank).filter (·.1 != row)) }
  else s

/-- The banks that `update_counters` visits: a wildcard in the bank group, the bank or both stands for
all of them within the rank. -/
def counterBanks (cfg : Config) (p : PRACConfig) (addr : AddrVec) : List Int :=
  let bank := addr.coord cfg.spec.bankLevel
  let bankWild := bank == -1
  let bgWild := p.bankgroupLevel.any fun l => addr.coord l == -1
  let rankOffset := addr.coord p.rankLevel * p.numBanksPerRank cfg
  let perBg := p.numBanksPerBankgroup cfg
  if bgWild && bankWild then (List.range (p.numBanksPerRank cfg)).map fun i => rankOffset + i
  else if bgWild then
    (List.range (p.numBanksPerRank cfg / perBg.toNat)).map fun i => rankOffset + i * perBg + bank
  else if bankWild then
    (List.range perBg.toNat).map fun i =>
      rankOffset + (p.bankgroupLevel.elim 0 fun l => addr.coord l) * perBg + i
  else [cfg.spec.flatBankId addr]

def updateCounters (cfg : Config) (p : PRACConfig) (e : Entry K) (s : PRACState) : PRACState :=
  (p.counterBanks cfg e.addrVec).foldl (p.onRequestForBank cfg e) s

/-! ## The state machine -/

/-- `update_state_machine`; `issued` is the command of this tick, if there is one. -/
def updateStateMachine (cfg : Config) (p : PRACConfig) (clk : Int) (issued : Option Command)
    (s : PRACState) : PRACState :=
  match s.aboState with
  | .normal =>
      if s.aboNeeded then
        { s with
          aboState := .preRecovery
          recoveryStart := some (clk + p.aboActCycles)
          numRecovery := s.numRecovery + 1 }
      else s
  | .preRecovery =>
      if s.recoveryStart = some clk then
        { s with
          aboState := .recovery
          recoveryStart := none
          recovRemRefs := p.aboRecoveryRefs * p.numRanks cfg }
      else s
  | .recovery =>
      if issued.any (isRFM cfg) then
        let s := { s with recovRemRefs := s.recovRemRefs - 1 }
        if s.recovRemRefs ≤ 0 then { s with aboState := .delay, delayRemActs := p.aboDelayActs } else s
      else s
  | .delay =>
      if issued = some .ACT then
        let s := { s with delayRemActs := s.delayRemActs - 1 }
        if s.delayRemActs ≤ 0 then
          { s with
            aboNeeded := (List.range cfg.spec.bankCount).any fun b => !(s.criticalRows b).isEmpty
            aboState := .normal
            recoverySetup := false }
        else s
      else s

/-! ## Recovery commands -/

/-- The address of `inject_recovery_commands` for one rank. -/
def recoveryAddr (cfg : Config) (p : PRACConfig) (rank : Nat) : AddrVec :=
  (List.range cfg.spec.levelSizes.length).map fun l =>
    if l = p.rankLevel then (rank : Int)
    else if l = cfg.spec.bankLevel ∨ some l = p.bankgroupLevel then -1
    else if l = 0 then cfg.channelId
    else 0

/-- The requests of one recovery: precharge every rank, then refresh-manage every rank several
times. -/
def recoveryRequests (cfg : Config) (p : PRACConfig) : List (Request Command K) :=
  let ranks := List.range (p.numRanks cfg)
  ranks.map (fun r => Request.ofCommand (p.recoveryAddr cfg r) .PREab) ++
    (List.range p.aboRecoveryRefs.toNat).flatMap fun _ =>
      ranks.map fun r => Request.ofCommand (p.recoveryAddr cfg r) .RFMab

/-- `m_prac_buffer.enqueue`; its `max_size` is the largest `int`. -/
def enqueuePrac (s : ControllerBase K) (req : Request Command K) : ControllerBase K :=
  if (s.bufs .prac).length < 2147483647 then
    { s with nextUid := s.nextUid + 1 }.setBuf .prac
      (s.bufs .prac ++ [Entry.ofRequest s.nextUid req])
  else s

/-- The injection at the start of a tick. -/
def injectRecoveryCommands (cfg : Config) (p : PRACConfig) (s : Derived K PRACState) :
    Derived K PRACState :=
  if s.own.recoverySetup = false ∧ s.own.recoveryStart.any (· ≤ s.base.clk + (p.nRP + 5)) then
    { base := (p.recoveryRequests cfg).foldl enqueuePrac s.base
      own := { s.own with recoverySetup := true } }
  else s

/-! ## The tick -/

/-- `fits_filter`: the command and the precharge behind it end before the recovery starts. -/
def fits (cfg : Config) (p : PRACConfig) (clk : Int) (own : PRACState) (e : Entry K) : Bool :=
  own.recoveryStart.all fun start => clk + p.minCyclesWithPreall cfg e < start

/-- `prac_buffer_filter`. -/
def pracBufferFilter (own : PRACState) (e : Entry K) : Bool :=
  !(e.cmd = .RFMab && own.aboState = .preRecovery)

/-- The choice of the candidate: active, then the recovery commands, which hold up everything else
while there are any. -/
def schedule (cfg : Config) (p : PRACConfig) (own : PRACState) (s : ControllerBase K) :
    ControllerBase K × Option (Buf × Nat) :=
  let fits := p.fits cfg s.clk own
  match s.pickBestReadyFrom cfg .active fits with
  | (s, some i) => (s, some (.active, i))
  | (s, none) =>
      if 0 < (s.bufs .prac).length then
        let (s, cand) := s.pickBestReadyFrom cfg .prac (pracBufferFilter own)
        (s, cand.map fun i => (.prac, i))
      else s.scheduleWith cfg none fits fits

/-- Serve what `schedule` found; the issued command is counted. -/
def serve (cfg : Config) (p : PRACConfig) (onIssue : List (Request Command K)) (own : PRACState) :
    ControllerBase K × Option (Buf × Nat) → Except String (Derived K PRACState × Option Command)
  | (s, none) => .ok (⟨s, own⟩, none)
  | (s, some (b, i)) =>
      match (s.bufs b)[i]? with
      | none => .ok (⟨s, own⟩, none)
      | some e =>
          let issued := (s.prepare cfg b i e).1
          (s.serveCandidate cfg onIssue b i e).map fun s =>
            (⟨s, p.updateCounters cfg issued own⟩, some issued.cmd)

end PRACConfig

/-- `PRACController::tick`. -/
def pracTick (cfg : Config) (p : PRACConfig) (inputs : TickInputs K) (s : Derived K PRACState) :
    Except String (Derived K PRACState) := do
  let base ← s.base.preTick cfg inputs
  let s := p.injectRecoveryCommands cfg { s with base := base }
  let (s, issued) ← p.serve cfg inputs.onIssue s.own (p.schedule cfg s.own s.base)
  let own := p.updateStateMachine cfg s.base.clk issued s.own
  let base ← s.base.prioritySendAll cfg inputs.postSchedule
  pure ⟨base, own⟩

/-- Ranks, bank groups and banks; one refresh answers an alert of one activation. -/
def smallPRAC (aboActCycles : Int) : PRACConfig where
  aboThreshold := 1
  aboActCycles := aboActCycles
  aboRecoveryRefs := 1
  aboDelayActs := 1
  rankLevel := 1
  bankgroupLevel := some 2
  nRP := 2
  nRAS := 5
  nRTP := 3
  nCWL := 2
  nBL := 2
  nWR := 2
  nRFM := 3
  nRFMsb := 3
  nRFMpb := 3
  nRFC := 3
  order := id
  order_perm := fun _ => .refl _

end Ramulator.Controller
