/-
# Ramulator.Controller.GenericDDR — the generic DDR controller as a transition system.

`GenericDDRController::tick` (`controller/impl/generic_ddr_controller.cpp`): prologue, refresh and
pre-schedule hooks, one candidate from the active, the priority or the read/write buffer, its issue,
and the request's advance. Refresh manager and plugins act on the controller only by enqueueing
priority requests in their hooks, so a tick takes as input what each hook enqueues; every refresh
manager and every set of plugins is covered by some choice of these lists.
-/
import Ramulator.Controller.Scheduler
import Ramulator.Controller.RowPolicy
import Ramulator.Lib.Run

namespace Ramulator.Controller

open Ramulator.Base (Request)
open Ramulator.Dram Ramulator.Lib

variable {K : Type}

/-- What the hooks of one tick enqueue: the refresh manager, the plugins before scheduling, the
plugins on the issued command, and the plugins after scheduling. -/
structure TickInputs (K : Type) where
  refresh : List (Request Command K) := []
  preSchedule : List (Request Command K) := []
  onIssue : List (Request Command K) := []
  postSchedule : List (Request Command K) := []

namespace ControllerBase

/-- The part of the tick before the candidate is chosen. -/
def preTick (cfg : Config) (inputs : TickInputs K) (s : ControllerBase K) :
    Except String (ControllerBase K) := do
  let s ← s.tickPrologue.prioritySendAll cfg inputs.refresh
  let s ← s.rowPolicyPreSchedule cfg
  s.prioritySendAll cfg inputs.preSchedule

/-- The best active request that passes the filter, unless the active buffer is left out. -/
def pickActiveIf (cfg : Config) (activeOk : Option (Entry K → Bool)) (s : ControllerBase K) :
    ControllerBase K × Option Nat :=
  match activeOk with
  | some filter => s.pickBestReadyFrom cfg .active filter
  | none => (s, none)

/-- The choice of a candidate under filters: active, then priority, then read/write. -/
def scheduleWith (cfg : Config) (activeOk : Option (Entry K → Bool)) (priorityOk rwOk : Entry K → Bool)
    (s : ControllerBase K) : ControllerBase K × Option (Buf × Nat) :=
  match s.pickActiveIf cfg activeOk with
  | (s, some i) => (s, some (.active, i))
  | (s, none) =>
      match s.pickPriorityIf cfg priorityOk with
      | (s, true) => (s, some (.priority, 0))
      | (s, false) => if s.priority.length = 0 then s.pickRwIf cfg rwOk else (s, none)

/-- The choice of the candidate. -/
def schedule (cfg : Config) (s : ControllerBase K) : ControllerBase K × Option (Buf × Nat) :=
  s.scheduleWith cfg (some fun _ => true) (fun _ => true) fun _ => true

/-- The request that `schedule` chooses in `s`, with its buffer. -/
def candidate (cfg : Config) (s : ControllerBase K) : Option (Buf × Entry K) :=
  match s.schedule cfg with
  | (s, some (b, i)) => ((s.bufs b)[i]?).map fun e => (b, e)
  | (_, none) => none

/-- `issue_command` for the request `e`. -/
def issue (cfg : Config) (e : Entry K) (s : ControllerBase K) : ControllerBase K :=
  { s with device := s.device.issueCommand cfg.spec e.cmd e.addrVec s.clk }.record
    (.issued e.uid e.cmd e.addrVec
      ((s.device.targetBanks cfg.spec e.cmd e.addrVec).map fun b => (b, s.device.banks b))
      (s.active.map fun (a : Entry K) => (a.uid, bankOf cfg a)))

/-- Issue the command of `e` and tell the row policy and the plugins. -/
def issueAndNotify (cfg : Config) (onIssue : List (Request Command K)) (e : Entry K)
    (s : ControllerBase K) : Except String (ControllerBase K) :=
  ((s.issue cfg e).rowPolicyOnIssue cfg e).prioritySendAll cfg onIssue

/-- The `i`-th request of `b` just before its command is issued, with the commands of `e`: it is
counted. -/
def count (cfg : Config) (b : Buf) (i : Nat) (e : Entry K) (s : ControllerBase K) :
    Entry K × ControllerBase K :=
  let s := if e.isStatUpdated then s else s.updateRequestStats cfg e
  let e := { e with isStatUpdated := true }
  (e, s.setBuf b ((s.bufs b).set i e))

/-- The candidate just before its command is issued: upgraded by the row policy, counted. -/
def prepare (cfg : Config) (b : Buf) (i : Nat) (e : Entry K) (s : ControllerBase K) :
    Entry K × ControllerBase K :=
  s.count cfg b i (s.tryUpgradeCommand cfg e)

/-- Advance a request whose command has been issued. -/
def advance (cfg : Config) (b : Buf) (i : Nat) (e : Entry K) (s : ControllerBase K) :
    ControllerBase K :=
  if e.cmd = e.final then s.retireRequest cfg b i e
  else if e.cmd.commandMeta.isOpening then s.promoteToActive cfg b i e
  else s

/-- Serve the candidate, the `i`-th request `e` of buffer `b`. -/
def serveCandidate (cfg : Config) (onIssue : List (Request Command K)) (b : Buf) (i : Nat)
    (e : Entry K) (s : ControllerBase K) : Except String (ControllerBase K) := do
  let (e, s) := s.prepare cfg b i e
  let s ← s.issueAndNotify cfg onIssue e
  pure (s.advance cfg b i e)

/-- Serve what `schedule` found. -/
def serve (cfg : Config) (onIssue : List (Request Command K)) :
    ControllerBase K × Option (Buf × Nat) → Except String (ControllerBase K)
  | (s, none) => .ok s
  | (s, some (b, i)) =>
      match (s.bufs b)[i]? with
      | none => .ok s
      | some e => s.serveCandidate cfg onIssue b i e

/-- `GenericDDRController::tick`. -/
def tick (cfg : Config) (inputs : TickInputs K) (s : ControllerBase K) :
    Except String (ControllerBase K) := do
  let s ← s.preTick cfg inputs
  let s ← serve cfg inputs.onIssue (s.schedule cfg)
  s.prioritySendAll cfg inputs.postSchedule

end ControllerBase

/-- The calls on a controller. A send comes with the address mapping in force at that moment. -/
inductive Call (K : Type) where
  | send (apply : Request Command K → AddrVec) (req : Request Command K)
  | prioritySend (req : Request Command K)
  | tick (inputs : TickInputs K)

/-- One call; a call that throws ends the run. -/
def call (cfg : Config) (c : Call K) (s : ControllerBase K) : Except String (ControllerBase K) :=
  match c with
  | .send apply req => (s.send cfg apply req).map (·.2.2)
  | .prioritySend req => (s.prioritySend cfg req).map (·.2)
  | .tick inputs => s.tick cfg inputs

/-- The states of a controller that calls satisfying `allowed` lead to. -/
def ReachableIf (cfg : Config) (allowed : ControllerBase K → Call K → Prop) :
    ControllerBase K → Prop :=
  Reachable (ControllerBase.init cfg) fun s c s' => allowed s c ∧ call cfg c s = .ok s'

/-- The calls whose ticks only have candidates that satisfy `p` in the state in which they are chosen. -/
def OnlyCandidates (cfg : Config) (p : ControllerBase K → Buf → Entry K → Prop)
    (s : ControllerBase K) (c : Call K) : Prop :=
  ∀ inputs s₁ b e, c = .tick inputs → s.preTick cfg inputs = .ok s₁ →
    s₁.candidate cfg = some (b, e) → p s₁ b e

/-- The same as a check. -/
def onlyCandidates (cfg : Config) (p : ControllerBase K → Buf → Entry K → Bool)
    (s : ControllerBase K) : Call K → Bool
  | .tick inputs =>
      match s.preTick cfg inputs with
      | .ok s₁ => (s₁.candidate cfg).all fun (b, e) => p s₁ b e
      | .error _ => true
  | _ => true

theorem onlyCandidates_sound {cfg : Config} {p : ControllerBase K → Buf → Entry K → Prop}
    {q : ControllerBase K → Buf → Entry K → Bool} (hq : ∀ s b e, q s b e = true → p s b e)
    {s : ControllerBase K} {c : Call K} (h : onlyCandidates cfg q s c = true) :
    OnlyCandidates cfg p s c := by
  rintro inputs s₁ b e rfl hpre hcand
  simp only [onlyCandidates, hpre, hcand, Option.all_some] at h
  exact hq s₁ b e h

/-! ## Controllers with fields of their own -/

/-- The state of a controller that adds fields of type `X` to those of `ControllerBase`. -/
structure Derived (K X : Type) where
  base : ControllerBase K
  own : X

/-! ## A small instance

One channel, one rank, one bank group of two banks, with few commands and few constraints. -/

def smallTimingCons (level : Nat) (c : Command) : List (TimingConsEntry Command) :=
  match level, c with
  | 3, .ACT => [{ cmd := .RD, val := 2 }, { cmd := .RDA, val := 2 }, { cmd := .WR, val := 6 },
      { cmd := .WRA, val := 6 }, { cmd := .PREpb, val := 5 }]
  | 3, .RD => [{ cmd := .PREpb, val := 3 }]
  | 3, .PREpb => [{ cmd := .ACT, val := 2 }]
  | _, _ => []

def smallDDR : Standard where
  commands := Command.all
  commands_complete := Command.mem_all
  rowLevel := 4
  levelSizes := [1, 1, 1, 2, 16, 16]
  timingCons := smallTimingCons
  commandCycles := fun _ => 1
  bankLevel := 3
  supports := fun c => c ∈ [Command.ACT, .PREpb, .PREab, .RD, .WR, .RDA, .WRA, .REFab]
  readLatency := 4
  readCommand := .RD
  writeCommand := .WR

def smallConfig : Config where
  spec := smallDDR
  channelId := 0
  readBufferSize := 4
  writeBufferSize := 4
  priorityBufferSize := 4
  aboveHighWatermark := fun n => n > 3
  belowLowWatermark := fun n => n < 1
  scheduler := .frfcfs
  rowPolicy := .closedCAP 1

/-- The row of the small instance that concrete runs access. -/
def smallRow : AddrVec := [0, 0, 0, 0, 5, 0]

/-- A read or a write to that row. -/
def smallSend (addr type : Int) : Call Unit :=
  .send (fun _ => smallRow) (Request.ofAddr addr type)

end Ramulator.Controller
