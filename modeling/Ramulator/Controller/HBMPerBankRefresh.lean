/-
# Ramulator.Controller.HBMPerBankRefresh — one bank at a time, in every channel or pseudo-channel.

`HBMPerBankRefreshCore` (`controller/refresh/impl/hbm_per_bank_refresh.cpp`) refreshes the banks of every
scope in the order of their flat numbers. A round puts one request for each scope into a queue, from which
one at a time is handed to the controller. After the last bank of a block the round waits until the timing
history of that bank shows the refresh, and `nRFCpb` longer.

The controller takes a request or not. Around the manager are its clock and its device, whose histories the
manager reads: every tick may be followed by commands, those that refresh a bank only for requests that the
controller has taken.
-/
import Ramulator.Dram.Dispatch
import Ramulator.Base.Request

namespace Ramulator.Controller

open Ramulator.Base (Request)
open Ramulator.Dram Ramulator.Lib

/-! ## Organization -/

inductive HBMStandard where
  | HBM1
  | HBM2
  | HBM3
  | HBM4
  deriving DecidableEq, Repr

inductive HBMLevel where
  | channel
  | pseudoChannel
  | sid
  | bankGroup
  | bank
  | row
  | column
  deriving DecidableEq, Repr

/-- The hierarchy of a standard. -/
def HBMStandard.levels : HBMStandard → List HBMLevel
  | .HBM1 => [.channel, .bankGroup, .bank, .row, .column]
  | _ => [.channel, .pseudoChannel, .sid, .bankGroup, .bank, .row, .column]

def HBMStandard.hasLevel (s : HBMStandard) (level : HBMLevel) : Bool := level ∈ s.levels

def HBMStandard.getLevelId (s : HBMStandard) (level : HBMLevel) : Nat := s.levels.idxOf level

/-- What the manager reads of a specification. A controller has one channel, and counts are positive. -/
structure HBMSpec extends Standard where
  standardName : HBMStandard
  nRefiPb : Int
  nRfcPb : Int
  bankLevel_eq : bankLevel = standardName.getLevelId .bank
  rowLevel_eq : rowLevel = standardName.getLevelId .row
  levelSize_channel : toDRAMSpec.levelSize 0 = 1
  levelSize_pos : ∀ level ≤ bankLevel, 0 < toDRAMSpec.levelSize level

namespace HBMSpec

def levelCount (info : HBMSpec) : Nat := info.standardName.levels.length

def levelScope (info : HBMSpec) : Nat :=
  if info.standardName.hasLevel .pseudoChannel then info.standardName.getLevelId .pseudoChannel
  else info.standardName.getLevelId .channel

/-- Not every standard has stack ids. -/
def levelSid (info : HBMSpec) : Option Nat :=
  if info.standardName.hasLevel .sid then some (info.standardName.getLevelId .sid) else none

def levelBg (info : HBMSpec) : Nat := info.standardName.getLevelId .bankGroup

def levelBank (info : HBMSpec) : Nat := info.standardName.getLevelId .bank

def scopeCount (info : HBMSpec) : Nat := info.levelSize info.levelScope

def sidCount (info : HBMSpec) : Nat := info.levelSid.elim 1 info.levelSize

def bankGroups (info : HBMSpec) : Nat := info.levelSize info.levelBg

def banksPerGroup (info : HBMSpec) : Nat := info.levelSize info.levelBank

def banksPerSid (info : HBMSpec) : Nat := info.bankGroups * info.banksPerGroup

def banksPerScope (info : HBMSpec) : Nat := info.sidCount * info.banksPerSid

/-- HBM1 and HBM2 have one set of banks in a scope, HBM3 and HBM4 one for each stack id. -/
def boundaryBlockSize (info : HBMSpec) : Nat :=
  if info.standardName = .HBM3 ∨ info.standardName = .HBM4 then info.banksPerSid else info.banksPerScope

/-- `flat_bank_in_scope`. -/
def flatBankInScope (info : HBMSpec) (addrVec : AddrVec) : Int :=
  let sid := info.levelSid.elim 0 addrVec.coord
  let flatBankInSid := addrVec.coord info.levelBg * info.banksPerGroup + addrVec.coord info.levelBank
  sid * info.banksPerSid + flatBankInSid

/-- `build_addr_vec`. A node is the path to it, and the root has the number of the channel. -/
def buildAddrVec (info : HBMSpec) (channelId : Int) : Option Path → AddrVec
  | none => List.replicate info.levelCount (-1)
  | some path =>
      channelId :: (path.map fun i : Nat => (i : Int)) ++ List.replicate (info.levelCount - 1 - path.length) (-1)

end HBMSpec

/-! ## State -/

/-- A bank with its place. Scope and flat bank are `-1` in the source where there is no node. -/
structure BankRef where
  node : Option Path := none
  scope : Nat := 0
  flatBank : Nat := 0
  deriving DecidableEq, Repr

structure RefpbSetState where
  banksByFlat : Nat → BankRef := fun _ => {}
  pendingBoundaryBank : Option Path := none
  pendingBoundaryEnqueueClk : Int := -1
  nextBlockAllowedClk : Int := 0

structure HBMPerBankRefreshCore where
  nextFlatBank : Nat := 0
  nextRefreshClk : Int
  sets : Nat → RefpbSetState := fun _ => {}
  pendingRefpbs : List BankRef := []

namespace HBMPerBankRefreshCore

/-! ## `init` -/

/-- The reference that the walk over the banks makes for a node. The channel has no number yet. -/
def bankRef (info : HBMSpec) (path : Path) : BankRef :=
  let addrVec := info.buildAddrVec 0 (some path)
  { node := some path
    scope := (addrVec.coord info.levelScope).toNat
    flatBank := (info.flatBankInScope addrVec).toNat }

/-- One node of the walk. -/
def placeBank (info : HBMSpec) (slots : Nat → Nat → BankRef) (path : Path) :
    Except String (Nat → Nat → BankRef) :=
  let ref := bankRef info path
  if (slots ref.scope ref.flatBank).node.isSome then
    .error "HBMPerBankRefresh found duplicate bank node in a REFpb set"
  else .ok (Function.update slots ref.scope (Function.update (slots ref.scope) ref.flatBank ref))

/-- `build_refpb_sets`. -/
def buildRefpbSets (info : HBMSpec) (device : DRAMDevice) : Except String (Nat → Nat → BankRef) := do
  let nodes := (device.root.forEachAtLevel info.levelBank).map Prod.fst
  let slots ← nodes.foldlM (placeBank info) fun _ _ => {}
  if ∃ scope < info.scopeCount, ∃ flat < info.banksPerScope, (slots scope flat).node = none then
    .error "HBMPerBankRefresh found an incomplete REFpb set"
  else .ok slots

def init (info : HBMSpec) (device : DRAMDevice) : Except String HBMPerBankRefreshCore :=
  (buildRefpbSets info device).map fun slots =>
    { nextRefreshClk := info.nRefiPb, sets := fun scope => { banksByFlat := slots scope } }

/-! ## `tick` -/

/-- `m_cmd_history[m_cmd_refpb]` of a bank. -/
def refpbHistory (device : DRAMDevice) (path : Path) : List Int :=
  ((device.root.timingAt path).map fun timing => timing.cmdHistory .REFpb).getD []

/-- `observe_boundary_refpbs`, for one set. -/
def observeBoundary (info : HBMSpec) (device : DRAMDevice) (set : RefpbSetState) : Except String RefpbSetState :=
  match set.pendingBoundaryBank with
  | none => .ok set
  | some path =>
      match refpbHistory device path with
      | [] => .error "HBMPerBankRefresh requires Bank-level REFpb timing history"
      | issueClk :: _ =>
          if issueClk < set.pendingBoundaryEnqueueClk then .ok set
          else .ok { set with
            pendingBoundaryBank := none
            pendingBoundaryEnqueueClk := -1
            nextBlockAllowedClk := issueClk + info.nRfcPb }

def observeBoundaryRefpbs (info : HBMSpec) (device : DRAMDevice) (core : HBMPerBankRefreshCore) :
    Except String HBMPerBankRefreshCore :=
  ((List.range info.scopeCount).foldlM
    (fun sets scope => (observeBoundary info device (sets scope)).map (Function.update sets scope))
    core.sets).map fun sets => { core with sets := sets }

/-- Some scope waits for the end of a block. -/
def isPaused (info : HBMSpec) (clk : Int) (core : HBMPerBankRefreshCore) : Bool :=
  (List.range info.scopeCount).any fun scope =>
    (core.sets scope).pendingBoundaryBank.isSome || clk < (core.sets scope).nextBlockAllowedClk

/-- `seed_pending_refpbs`, where no scope waits. -/
def seedPendingRefpbs (info : HBMSpec) (core : HBMPerBankRefreshCore) : HBMPerBankRefreshCore :=
  { core with
    pendingRefpbs := core.pendingRefpbs ++
      (List.range info.scopeCount).map fun scope => (core.sets scope).banksByFlat core.nextFlatBank
    nextFlatBank := (core.nextFlatBank + 1) % info.banksPerScope }

/-- A request that the controller has taken, with the bank it is for. -/
structure Enqueued where
  ref : BankRef
  req : Request Command Unit
  clk : Int
  deriving DecidableEq, Repr

def refpbRequest (info : HBMSpec) (channelId : Int) (ref : BankRef) : Request Command Unit :=
  Request.ofCommand (info.buildAddrVec channelId ref.node) .REFpb

/-- `service_pending_refpb`, where a request is pending. -/
def servicePendingRefpb (info : HBMSpec) (channelId clk : Int) (prioritySend : Request Command Unit → Bool)
    (pending : BankRef) (rest : List BankRef) (core : HBMPerBankRefreshCore) :
    HBMPerBankRefreshCore × Option Enqueued :=
  let req := refpbRequest info channelId pending
  if prioritySend req then
    let set := core.sets pending.scope
    let set :=
      if (pending.flatBank + 1) % info.boundaryBlockSize = 0 then
        { set with pendingBoundaryBank := pending.node, pendingBoundaryEnqueueClk := clk }
      else set
    ({ core with pendingRefpbs := rest, sets := Function.update core.sets pending.scope set },
      some ⟨pending, req, clk⟩)
  else (core, none)

/-- The second half of `tick`, after the histories have been read. -/
def serve (info : HBMSpec) (channelId clk : Int) (prioritySend : Request Command Unit → Bool)
    (core : HBMPerBankRefreshCore) : HBMPerBankRefreshCore × Option Enqueued :=
  match core.pendingRefpbs with
  | pending :: rest => core.servicePendingRefpb info channelId clk prioritySend pending rest
  | [] =>
      if clk < core.nextRefreshClk then (core, none)
      else if core.isPaused info clk then (core, none)
      else
        let core := core.seedPendingRefpbs info
        let served := match core.pendingRefpbs with
          | pending :: rest => core.servicePendingRefpb info channelId clk prioritySend pending rest
          | [] => (core, none)
        ({ served.1 with nextRefreshClk := served.1.nextRefreshClk + info.nRefiPb }, served.2)

/-- `tick`. It enqueues one request at most. -/
def tick (info : HBMSpec) (device : DRAMDevice) (clk : Int) (prioritySend : Request Command Unit → Bool)
    (core : HBMPerBankRefreshCore) : Except String (HBMPerBankRefreshCore × Option Enqueued) :=
  (core.observeBoundaryRefpbs info device).map (serve info device.channelId clk prioritySend)

end HBMPerBankRefreshCore

/-! ## The controller around it -/

/-- A command of one clock: the refresh that the `i`-th enqueued request asks for, or some other one. -/
inductive HBMIssue where
  | refpb (i : Nat)
  | other (c : Command) (addrVec : AddrVec)

/-- The answers of the controller to the manager in one clock, and the commands that follow. -/
structure HBMClock where
  prioritySend : Request Command Unit → Bool
  issues : List HBMIssue

/-- The manager with its controller. `enqueued` are the requests taken, of which those in `waiting` are still
to be served; `issued` are the clocks at which the others were. -/
structure HBMRefreshRun where
  clk : Int := 0
  device : DRAMDevice
  core : HBMPerBankRefreshCore
  enqueued : List HBMPerBankRefreshCore.Enqueued := []
  waiting : List Nat := []
  issued : List (Nat × Int) := []

namespace HBMRefreshRun

/-- A command issues. One that refreshes a bank does so for a request that waits. -/
def issue (info : HBMSpec) (r : HBMRefreshRun) : HBMIssue → HBMRefreshRun
  | .refpb i =>
      match r.enqueued[i]? with
      | none => r
      | some x =>
          if i ∈ r.waiting then
            { r with
              device := r.device.issueCommand info.toStandard .REFpb x.req.addrVec r.clk
              waiting := r.waiting.erase i
              issued := r.issued ++ [(i, r.clk)] }
          else r
  | .other c addrVec =>
      if c = .REFpb then r
      else { r with device := r.device.issueCommand info.toStandard c addrVec r.clk }

/-- The controller has taken a request. -/
def enqueue (x : Option HBMPerBankRefreshCore.Enqueued) (r : HBMRefreshRun) : HBMRefreshRun :=
  match x with
  | none => r
  | some x => { r with enqueued := r.enqueued ++ [x], waiting := r.waiting ++ [r.enqueued.length] }

/-- One clock: the manager ticks, and commands issue. -/
def step (info : HBMSpec) (input : HBMClock) (r : HBMRefreshRun) : Except String HBMRefreshRun :=
  (r.core.tick info r.device (r.clk + 1) input.prioritySend).map fun (core, x) =>
    input.issues.foldl (issue info) ({ r with clk := r.clk + 1, core := core }.enqueue x)

/-- The states of a run. The manager is set up before the channel gets its number. -/
def Reached (info : HBMSpec) (channelId : Int) (r : HBMRefreshRun) : Prop :=
  ∃ core, HBMPerBankRefreshCore.init info (DRAMDevice.init info.toStandard 0) = .ok core ∧
    Reachable { device := DRAMDevice.init info.toStandard channelId, core := core }
      (fun r input r' => step info input r = .ok r') r

end HBMRefreshRun

end Ramulator.Controller
