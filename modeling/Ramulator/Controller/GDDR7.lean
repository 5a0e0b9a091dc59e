/-
# Ramulator.Controller.GDDR7 — the GDDR7 controller, which starts and stops the read clock.

`GDDR7Controller` (`controller/impl/gddr7_controller.cpp`) is an HBM controller whose column bus also
carries `RCKSTRT` and `RCKSTOP`. The controller issues these itself, in place of a column command, unless
the mode leaves the read clock on for good. The state of the clock is brought up to date after both slots
of a tick.

For the sake of statements the state keeps a history of what has been issued, each command with its clock
and with the reads that waited for their column command then. No operation reads it.
-/
import Ramulator.Controller.HBM

namespace Ramulator.Controller

open Ramulator.Base (Request)
open Ramulator.Dram Ramulator.Lib

variable {K : Type}

inductive RCKMode where
  | alwaysOn
  | startWithRead
  | startWithRckStrt
  deriving DecidableEq, Repr

inductive RCKState where
  | stopped
  | toggling
  deriving DecidableEq, Repr

structure GDDR7Config extends HBMConfig where
  rckMode : RCKMode
  rckIdleThreshold : Int

def isReadLike (c : Command) : Bool := c = .RD || c = .RDA

/-! ## The history -/

/-- The event says that a column command was issued for the read. -/
def servesRead (uid : Nat) : Event → Bool
  | .issued u c _ _ _ => u = uid && isReadLike c
  | _ => false

/-- The event says that a read with this number entered the read buffer. -/
def buffersRead : Event → Option Nat
  | .accepted uid typeId _ .buffered => if typeId = Request.read then some uid else none
  | _ => none

/-- The accepted reads that have not had their column command. -/
def waitingReads (log : List Event) : List Nat :=
  (log.filterMap buffersRead).filter fun uid => !log.any (servesRead uid)

structure RckIssue where
  command : Command
  clk : Int
  waiting : List Nat
  deriving DecidableEq, Repr

/-! ## State -/

structure GDDR7State where
  rckState : RCKState
  lastReadClk : Int := -1
  numRckstrtIssued : Nat := 0
  numRckstopIssued : Nat := 0
  issues : List RckIssue := []
  deriving DecidableEq, Repr

/-- The history goes on. -/
def GDDR7State.note (log : List Event) (issued : Option IssuedCommand) (own : GDDR7State) : GDDR7State :=
  { own with issues := own.issues ++ issued.toList.map fun c => ⟨c.command, c.clk, waitingReads log⟩ }

namespace GDDR7Config

/-- The values of the parameter `rck_mode`. -/
def parseRckMode (rckMode : String) : Except String RCKMode :=
  if rckMode = "always_on" then .ok .alwaysOn
  else if rckMode = "start_with_read" then .ok .startWithRead
  else if rckMode = "start_with_rckstrt" then .ok .startWithRckStrt
  else .error ("GDDR7: unsupported rck_mode '" ++ rckMode ++
    "'; allowed values are 'always_on', 'start_with_read', and 'start_with_rckstrt'")

/-- `init`. -/
def init (h : HBMConfig) (rckMode : String := "always_on") (rckIdleThreshold : Int := 32) :
    Except String GDDR7Config :=
  (parseRckMode rckMode).bind fun mode =>
    if rckIdleThreshold < 0 then .error "GDDR7: rck_idle_threshold must be non-negative"
    else .ok { h with rckMode := mode, rckIdleThreshold := rckIdleThreshold }

/-- The added fields at the start. -/
def start (g : GDDR7Config) : GDDR7State where
  rckState := if g.rckMode = .alwaysOn then .toggling else .stopped

/-! ## Priority requests -/

/-- What `priority_send` refuses before it passes the request on. -/
def checkRck (g : GDDR7Config) (req : Request Command K) : Except String Unit :=
  if g.rckMode = .alwaysOn ∧ (req.finalCommand = some .RCKSTRT ∨ req.finalCommand = some .RCKSTOP) then
    .error "GDDR7: RCKSTRT/RCKSTOP are not legal when rck_mode='always_on'"
  else if g.rckMode = .startWithRead ∧ req.finalCommand = some .RCKSTRT then
    .error "GDDR7: RCKSTRT is not legal when rck_mode='start_with_read'"
  else .ok ()

/-- `priority_send`. -/
def prioritySend (cfg : Config) (g : GDDR7Config) (req : Request Command K) (s : ControllerBase K) :
    Except String (Bool × ControllerBase K) := do
  g.checkRck req
  s.prioritySend cfg req

/-- The same check for the requests of a hook. -/
def checkHook (g : GDDR7Config) (reqs : List (Request Command K)) : Except String Unit :=
  reqs.forM g.checkRck

/-! ## The read clock -/

/-- `slot_matches`: no read while the clock has to be started for it. -/
def slotMatches (g : GDDR7Config) (own : GDDR7State) (slot : SlotType) (e : Entry K) : Bool :=
  if g.toHBMConfig.slotMatches slot e = false then false
  else !(g.rckMode = .startWithRckStrt && own.rckState = .stopped && isReadLike e.cmd)

def priorityBufferContains (c : Command) (s : ControllerBase K) : Bool :=
  s.priority.any fun e => e.finalCommand = some c

def readsWaiting (s : ControllerBase K) : Bool :=
  0 < s.read.length || s.active.any fun e => e.typeId = Request.read

/-- `get_rck_cmd`; `none` is `-1` in the source. -/
def getRckCmd (g : GDDR7Config) (own : GDDR7State) (s : ControllerBase K) : Option Command :=
  if g.rckMode = .alwaysOn then none
  else if g.rckMode = .startWithRckStrt ∧ own.rckState = .stopped ∧ readsWaiting s = true ∧
      priorityBufferContains .RCKSTRT s = false then some .RCKSTRT
  else if own.rckState = .toggling ∧ 0 ≤ own.lastReadClk ∧ readsWaiting s = false ∧
      g.rckIdleThreshold ≤ s.clk - own.lastReadClk ∧ priorityBufferContains .RCKSTOP s = false then
    some .RCKSTOP
  else none

/-- The clock commands address the channel. -/
def channelAddr (cfg : Config) : AddrVec :=
  (List.replicate cfg.spec.levelSizes.length (-1)).set 0 cfg.channelId

/-- `try_issue_internal_rck`. The request is made up on the spot, row policy and plugins are told. -/
def tryIssueInternalRck (cfg : Config) (g : GDDR7Config) (own : GDDR7State)
    (onIssue : List (Request Command K)) (s : ControllerBase K) :
    Except String (ControllerBase K × Option IssuedCommand) :=
  match g.getRckCmd own s with
  | none => .ok (s, none)
  | some c =>
      let addr := channelAddr cfg
      if s.device.checkTiming c addr s.clk = false then .ok (s, none)
      else
        let req : Request Command K := { Request.ofCommand addr c with command := some c }
        let s := { s with device := s.device.issueCommand cfg.spec c addr s.clk }
        ((s.rowPolicyOnIssue cfg (Entry.ofRequest s.nextUid req)).prioritySendAll cfg onIssue).map
          fun s => (s, some ⟨c, addr, s.clk⟩)

/-- `update_rck_state_on_issue`. -/
def updateRckStateOnIssue (g : GDDR7Config) (clk : Int) (issued : Option IssuedCommand)
    (own : GDDR7State) : GDDR7State :=
  match issued with
  | none => own
  | some c =>
      if c.command = .RCKSTRT then
        { own with rckState := .toggling, numRckstrtIssued := own.numRckstrtIssued + 1 }
      else if c.command = .RCKSTOP then
        { own with rckState := .stopped, numRckstopIssued := own.numRckstopIssued + 1 }
      else if isReadLike c.command then
        { own with
          rckState :=
            if g.rckMode = .startWithRead ∧ own.rckState = .stopped then .toggling else own.rckState
          lastReadClk := clk }
      else own

/-- What the column bus carries: a clock command, or else the command of a request. -/
def columnBus (cfg : Config) (g : GDDR7Config) (own : GDDR7State) (onIssue : List (Request Command K))
    (s : ControllerBase K) : Except String (ControllerBase K × Option IssuedCommand) := do
  let (s, rck) ← g.tryIssueInternalRck cfg own onIssue s
  if rck.isSome then pure (s, rck)
  else s.tryIssueSlot cfg (g.slotMatches own .columnBus) .columnBus onIssue

/-- `tick`. -/
def tick (cfg : Config) (g : GDDR7Config) (inputs : SlotInputs K) (d : Derived K GDDR7State) :
    Except String (Derived K GDDR7State) := do
  g.checkHook (inputs.refresh ++ inputs.preSchedule)
  let s₁ ← d.base.preTick cfg inputs.toTickInputs
  let (s₂, col) ← g.columnBus cfg d.own inputs.onIssue s₁
  g.checkHook (if col.isSome then inputs.onIssue else [])
  let (s₃, row) ← s₂.tryIssueSlot cfg (g.slotMatches d.own .rowBus) .rowBus inputs.onRowIssue
  g.checkHook (if row.isSome then inputs.onRowIssue else [])
  let own := g.updateRckStateOnIssue s₃.clk row (g.updateRckStateOnIssue s₃.clk col d.own)
  g.checkHook inputs.postSchedule
  let base ← s₃.prioritySendAll cfg inputs.postSchedule
  pure { base := base, own := (own.note s₁.log col).note s₂.log row }

/-! ## Runs -/

inductive Call (K : Type) where
  | send (apply : Request Command K → AddrVec) (req : Request Command K)
  | prioritySend (req : Request Command K)
  | tick (inputs : SlotInputs K)

def call (cfg : Config) (g : GDDR7Config) (c : Call K) (d : Derived K GDDR7State) :
    Except String (Derived K GDDR7State) :=
  match c with
  | .send apply req => (d.base.send cfg apply req).map fun r => { d with base := r.2.2 }
  | .prioritySend req => (g.prioritySend cfg req d.base).map fun r => { d with base := r.2 }
  | .tick inputs => g.tick cfg inputs d

/-- The states that calls satisfying `allowed` lead to. -/
def ReachedIf (cfg : Config) (g : GDDR7Config) (allowed : Call K → Prop) : Derived K GDDR7State → Prop :=
  Reachable ⟨ControllerBase.init cfg, g.start⟩ fun d c d' => allowed c ∧ g.call cfg c d = .ok d'

end GDDR7Config

end Ramulator.Controller
