/-
# Ramulator.Controller.LPDDR — the LPDDR controllers: split activation and WCK synchronization.

`LPDDRControllerBase` (`controller/impl/lpddr_controller_base.{h,cpp}`). A row is activated by `ACT1`,
after which the request waits in the activating buffer for its `ACT2`, due at a deadline of its bank.
A column command needs the data clock: while it is not running, a `CAS` goes first and the column
command follows in a later tick. LPDDR5 and LPDDR6 differ in command names and timing values.

A failed `assert` of the source does not stop a release build. Here it is recorded in `assertsHold`
and the controller goes on.
-/
import Ramulator.Controller.GenericDDR

namespace Ramulator.Controller

open Ramulator.Base (Request)
open Ramulator.Dram

variable {K : Type}

/-! ## Configuration and state -/

inductive WCKSyncMode where
  | needSync
  | alwaysOn
  deriving DecidableEq, Repr

/-- The command ids that `init` looks up besides `ACT1` and `ACT2`; `-1` is `none`. -/
structure LPDDRCommands where
  cas : Option Command := none
  casRd : Option Command := none
  casWr : Option Command := none
  rd : Option Command := none
  wr : Option Command := none
  rda : Option Command := none
  wra : Option Command := none
  rdL : Option Command := none
  wrL : Option Command := none
  rdaL : Option Command := none
  wraL : Option Command := none

def lpddr5Commands : LPDDRCommands where
  casRd := some .CAS_RD
  casWr := some .CAS_WR
  rd := some .RD
  wr := some .WR
  rda := some .RDA
  wra := some .WRA

def lpddr6Commands : LPDDRCommands where
  cas := some .CAS
  rd := some .RD_S
  wr := some .WR_S
  rda := some .RDA_S
  wra := some .WRA_S
  rdL := some .RD_L
  wrL := some .WR_L
  rdaL := some .RDA_L
  wraL := some .WRA_L

structure LPDDRConfig extends LPDDRCommands where
  nAAD : Int
  readLatency : Int
  writeLatency : Int
  burstCycles : Int
  burstCyclesLong : Int := 0
  nWCKPST : Int
  casDeadlineGuard : Int
  wckSyncMode : WCKSyncMode := .needSync

/-- The fields of the controller. `cas` is `m_cas_issued` with the request whose column command is to
follow, by its buffer and its place there: until it is served nothing leaves a buffer. -/
structure LPDDRState where
  act2OwnerValid : Int → Bool := fun _ => false
  act2Deadline : Int → Int := fun _ => -1
  wckExpiry : Int := 0
  cas : Option (Buf × Nat) := none
  numCasIssued : Nat := 0
  numCasSkipped : Nat := 0
  numAct2DeadlineForced : Nat := 0
  numAct2Deferred : Nat := 0
  assertsHold : Bool := true

abbrev LPDDR (K : Type) := Derived K LPDDRState

inductive Act2IssueKind where
  | urgent
  | deferred
  deriving DecidableEq, Repr

namespace LPDDRConfig

def isAccessCmd (lp : LPDDRConfig) (c : Command) : Bool :=
  some c ∈ [lp.rd, lp.wr, lp.rda, lp.wra, lp.rdL, lp.wrL, lp.rdaL, lp.wraL]

def isReadCmd (lp : LPDDRConfig) (c : Command) : Bool := some c ∈ [lp.rd, lp.rda, lp.rdL, lp.rdaL]

def isCasCmd (lp : LPDDRConfig) (c : Command) : Bool := some c ∈ [lp.cas, lp.casRd, lp.casWr]

def burstCyclesForCmd (lp : LPDDRConfig) (c : Command) : Int :=
  if some c ∈ [lp.rdL, lp.wrL, lp.rdaL, lp.wraL] ∧ 0 < lp.burstCyclesLong then lp.burstCyclesLong
  else lp.burstCycles

/-- The `CAS` that goes before column command `c`. -/
def casFor (lp : LPDDRConfig) (c : Command) : Command :=
  match lp.cas with
  | some cas => cas
  | none => (if lp.isReadCmd c then lp.casRd else lp.casWr).getD default

end LPDDRConfig

namespace LPDDR

/-! ## Predicates -/

def assert (holds : Bool) (s : LPDDR K) : LPDDR K :=
  { s with own := { s.own with assertsHold := s.own.assertsHold && holds } }

def needsWckSync (lp : LPDDRConfig) (s : LPDDR K) (c : Command) : Bool :=
  if lp.isAccessCmd c = false then false
  else if lp.wckSyncMode = .alwaysOn then false
  else s.own.wckExpiry ≤ s.base.clk

/-- `extend_wck_expiry`, unless the clock is always on. -/
def extendWckExpiry (lp : LPDDRConfig) (clk : Int) (c : Command) (own : LPDDRState) : LPDDRState :=
  let lat := if lp.isReadCmd c then lp.readLatency else lp.writeLatency
  let exp := clk + lat + lp.burstCyclesForCmd c + lp.nWCKPST
  if lp.wckSyncMode = .needSync then { own with wckExpiry := max own.wckExpiry exp } else own

def ownerValid (cfg : Config) (s : LPDDR K) (e : Entry K) : Bool :=
  s.own.act2OwnerValid (ControllerBase.bankOf cfg e)

def deadline (cfg : Config) (s : LPDDR K) (e : Entry K) : Int :=
  s.own.act2Deadline (ControllerBase.bankOf cfg e)

/-- The `CAS` and its column command would use up the last slot of a pending `ACT2`. -/
def casWouldBlockDeadline (cfg : Config) (lp : LPDDRConfig) (s : LPDDR K) : Bool :=
  (List.range cfg.spec.bankCount).any fun i =>
    s.own.act2OwnerValid i && s.own.act2Deadline i ≤ s.base.clk + lp.casDeadlineGuard

def wouldBlockActivating (cfg : Config) (s : LPDDR K) (c : Command) (addr : AddrVec) : Bool :=
  if c.commandMeta.isClosing = false ∧ c.commandMeta.isRefreshing = false then false
  else (s.base.device.targetBanks cfg.spec c addr).any s.own.act2OwnerValid

def hasPendingAct2 (cfg : Config) (s : LPDDR K) : Bool :=
  (List.range cfg.spec.bankCount).any fun i => s.own.act2OwnerValid i

def isAllowedDuringPendingAct2 (cfg : Config) (lp : LPDDRConfig) (s : LPDDR K) (e : Entry K) : Bool :=
  if s.hasPendingAct2 cfg = false then true
  else if e.cmd = .ACT1 then false
  else if lp.isCasCmd e.cmd ∨ lp.isAccessCmd e.cmd then true
  else if e.cmd.commandMeta.isRefreshing then false
  else if e.cmd.commandMeta.isClosing then !s.wouldBlockActivating cfg e.cmd e.addrVec
  else false

/-- An `ACT1` may start if its `ACT2` could follow at once. -/
def canStartAct1 (cfg : Config) (s : LPDDR K) (e : Entry K) : Bool :=
  if e.cmd ≠ .ACT1 then true
  else s.base.device.checkTiming .ACT2 e.addrVec (s.base.clk + cfg.spec.commandCycles .ACT1)

/-- `is_owned_act2_candidate`: only the owner, in the activating buffer, may issue `ACT2`. -/
def isOwnedAct2Candidate (e : Entry K) : Bool := e.cmd ≠ .ACT2

/-- The filter of the active buffer. -/
def activeOk (cfg : Config) (lp : LPDDRConfig) (s : LPDDR K) (e : Entry K) : Bool :=
  s.isAllowedDuringPendingAct2 cfg lp e && s.canStartAct1 cfg e

/-- The filter of the other buffers. -/
def otherOk (cfg : Config) (lp : LPDDRConfig) (s : LPDDR K) (e : Entry K) : Bool :=
  isOwnedAct2Candidate e && s.activeOk cfg lp e

/-! ## Candidates -/

/-- The assertion inside `is_owned_act2_candidate`, over the requests on which `select_normal_candidate`
evaluates it: the first priority request if its timing is met, or without priority requests the whole
read or write buffer. -/
def foreignAct2Owned (cfg : Config) (lp : LPDDRConfig) (s : LPDDR K) : Bool :=
  let owned := fun e : Entry K => isOwnedAct2Candidate e || s.ownerValid cfg e
  match s.base.pickActiveIf cfg (some (s.activeOk cfg lp)) with
  | (_, some _) => true
  | (base, none) =>
      match base.priority with
      | e :: _ =>
          let e := resolve cfg.spec base.device e
          !base.device.checkTiming e.cmd e.addrVec base.clk || owned e
      | [] =>
          let base := base.setWriteMode cfg
          (base.bufs (if base.isWriteMode then .write else .read)).all fun e =>
            owned (resolve cfg.spec base.device e)

def selectNormalCandidate (cfg : Config) (lp : LPDDRConfig) (s : LPDDR K) :
    LPDDR K × Option (Buf × Nat) :=
  let s := s.assert (s.foreignAct2Owned cfg lp)
  let (base, cand) :=
    s.base.scheduleWith cfg (some (s.activeOk cfg lp)) (s.otherOk cfg lp) (s.otherOk cfg lp)
  ({ s with base := base }, cand)

/-- An active request whose `CAS` may issue now and whose column command will be ready behind it. -/
def pickCasLookaheadCandidate (cfg : Config) (lp : LPDDRConfig) (s : LPDDR K) :
    LPDDR K × Option (Buf × Nat) :=
  if s.casWouldBlockDeadline cfg lp then (s, none)
  else
    let filter := fun e : Entry K =>
      lp.isAccessCmd e.cmd && s.needsWckSync lp e.cmd && s.isAllowedDuringPendingAct2 cfg lp e &&
        (s.base.device.checkTiming (lp.casFor e.cmd) e.addrVec s.base.clk &&
          s.base.device.checkTiming e.cmd e.addrVec (s.base.clk + lp.casDeadlineGuard))
    let (buf, best) := getBestRequest cfg s.base.device s.base.clk filter s.base.active
    ({ s with base := s.base.setBuf .active buf }, best.map fun c => (.active, c.index))

/-- The normal candidate, or else a lookahead. -/
def selectCandidate (cfg : Config) (lp : LPDDRConfig) (s : LPDDR K) : LPDDR K × Option (Buf × Nat) :=
  match s.selectNormalCandidate cfg lp with
  | (s, some cand) => (s, some cand)
  | (s, none) => s.pickCasLookaheadCandidate cfg lp

/-- One iteration of the scan for an `ACT2`: the earliest deadline, then the earliest arrival. -/
def challengeAct2 (deadline : Entry K → Int) (eligible : Entry K → Bool)
    (incumbent : Option (Entry K × Nat)) (challenger : Entry K × Nat) : Option (Entry K × Nat) :=
  if eligible challenger.1 = false then incumbent
  else
    match incumbent with
    | none => some challenger
    | some best =>
        if deadline challenger.1 < deadline best.1 ∨
            (deadline challenger.1 = deadline best.1 ∧ challenger.1.arrive < best.1.arrive)
        then some challenger
        else some best

/-- The scan of the activating buffer, which names `ACT2` as the next command of every request. -/
def pickAct2 (cfg : Config) (asserted eligible : Entry K → Bool) (s : LPDDR K) :
    LPDDR K × Option Nat :=
  let buf := (s.base.bufs .activating).map fun e => { e with command := some .ACT2 }
  let best := buf.zipIdx.foldl (challengeAct2 (s.deadline cfg) eligible) none
  let s := s.assert (buf.all fun e => s.ownerValid cfg e && 0 ≤ s.deadline cfg e && asserted e)
  ({ s with base := s.base.setBuf .activating buf }, best.map (·.2))

def timingOk (s : LPDDR K) (e : Entry K) : Bool :=
  s.base.device.checkTiming e.cmd e.addrVec s.base.clk

def pickUrgentAct2 (cfg : Config) (s : LPDDR K) : LPDDR K × Option Nat :=
  s.pickAct2 cfg (fun e => s.base.clk < s.deadline cfg e || s.timingOk e)
    (fun e => s.deadline cfg e ≤ s.base.clk && s.timingOk e)

def pickDeferredAct2 (cfg : Config) (s : LPDDR K) : LPDDR K × Option Nat :=
  s.pickAct2 cfg (fun _ => true) s.timingOk

/-! ## Issuing -/

/-- `m_activating_buffer.enqueue`, on the way out of buffer `b`. The write-forwarding set follows, since
neither later move looks at it. -/
def enterActivating (cfg : Config) (b : Buf) (e : Entry K) (s : ControllerBase K) :
    ControllerBase K :=
  { if (s.bufs .activating).length < cfg.spec.bankCount
      then s.setBuf .activating (s.bufs .activating ++ [e]) else s with
    bufferedWriteAddrs := if b = Buf.write then s.bufferedWriteAddrs.erase e.addr
      else s.bufferedWriteAddrs }

/-- `move_to_activating`. -/
def moveToActivating (cfg : Config) (lp : LPDDRConfig) (b : Buf) (i : Nat) (e : Entry K)
    (s : LPDDR K) : LPDDR K :=
  let s := s.assert (!s.ownerValid cfg e && (s.base.bufs .activating).length < cfg.spec.bankCount)
  let bank := ControllerBase.bankOf cfg e
  { base := (enterActivating cfg b e s.base).removeAt b i
    own := { s.own with
      act2OwnerValid := Function.update s.own.act2OwnerValid bank true
      act2Deadline := Function.update s.own.act2Deadline bank (s.base.clk + lp.nAAD) } }

/-- `promote_from_activating`. -/
def promoteFromActivating (cfg : Config) (i : Nat) (e : Entry K) (s : LPDDR K) : LPDDR K :=
  let base := s.base.promoteToActive cfg .activating i e
  let bank := ControllerBase.bankOf cfg e
  let s := s.assert (s.ownerValid cfg e && s.base.clk ≤ s.deadline cfg e &&
    base.active.length == s.base.active.length + 1)
  { s with
    base := base
    own := { s.own with
      act2OwnerValid := Function.update s.own.act2OwnerValid bank false
      act2Deadline := Function.update s.own.act2Deadline bank (-1) } }

/-- `issue_owned_act2` for the `i`-th activating request. -/
def issueOwnedAct2 (cfg : Config) (onIssue : List (Request Command K)) (kind : Act2IssueKind) (i : Nat)
    (s : LPDDR K) : Except String (LPDDR K) :=
  match (s.base.bufs .activating)[i]? with
  | none => .ok s
  | some e => do
      let s := s.assert (s.ownerValid cfg e && 0 ≤ s.deadline cfg e && s.base.clk ≤ s.deadline cfg e)
      let (e, base) := s.base.count cfg .activating i e
      let base ← base.issueAndNotify cfg onIssue e
      let s := promoteFromActivating cfg i e { s with base := base }
      pure { s with
        own := match kind with
          | .urgent => { s.own with numAct2DeadlineForced := s.own.numAct2DeadlineForced + 1 }
          | .deferred => { s.own with numAct2Deferred := s.own.numAct2Deferred + 1 } }

/-- A deferred `ACT2`, if one is ready. -/
def issueDeferredAct2 (cfg : Config) (onIssue : List (Request Command K)) (required : Bool)
    (s : LPDDR K) : Except String (LPDDR K) :=
  match s.pickDeferredAct2 cfg with
  | (s, some i) => s.issueOwnedAct2 cfg onIssue .deferred i
  | (s, none) => .ok (s.assert (!required))

/-- The `CAS` branch of `try_issue_cas_sync`: the request keeps its next command. -/
def issueCas (cfg : Config) (lp : LPDDRConfig) (onIssue : List (Request Command K)) (b : Buf) (i : Nat)
    (e : Entry K) (s : LPDDR K) : Except String (LPDDR K) := do
  let cas := lp.casFor e.cmd
  if s.base.device.checkTiming cas e.addrVec s.base.clk then
    let base ← s.base.issueAndNotify cfg onIssue { e with command := some cas }
    pure { s with base := base, own := { s.own with cas := some (b, i) } }
  else pure s

/-- A column command that needs no `CAS` keeps the clock running. -/
def skipCas (lp : LPDDRConfig) (clk : Int) (c : Command) (own : LPDDRState) : LPDDRState :=
  if lp.isAccessCmd c then
    { extendWckExpiry lp clk c own with numCasSkipped := own.numCasSkipped + 1 }
  else own

/-- `issue_standard_candidate`. -/
def issueStandardCandidate (cfg : Config) (lp : LPDDRConfig) (onIssue : List (Request Command K))
    (b : Buf) (i : Nat) (e : Entry K) (s : LPDDR K) : Except String (LPDDR K) := do
  let e := s.base.tryUpgradeCommand cfg e
  let s := s.assert (e.cmd ≠ .ACT1 || !s.ownerValid cfg e)
  let s := { s with own := skipCas lp s.base.clk e.cmd s.own }
  let (e, base) := s.base.count cfg b i e
  let base ← base.issueAndNotify cfg onIssue e
  if e.cmd = .ACT1 then pure (moveToActivating cfg lp b i e { s with base := base })
  else pure { s with base := base.advance cfg b i e }

/-- `try_issue_cas_sync`, and `issue_standard_candidate` if that has nothing to do. -/
def issueCandidate (cfg : Config) (lp : LPDDRConfig) (onIssue : List (Request Command K)) (b : Buf)
    (i : Nat) (e : Entry K) (s : LPDDR K) : Except String (LPDDR K) :=
  if s.needsWckSync lp e.cmd = false then s.issueStandardCandidate cfg lp onIssue b i e
  else if s.casWouldBlockDeadline cfg lp then s.issueDeferredAct2 cfg onIssue true
  else s.issueCas cfg lp onIssue b i e

/-- The column command after a `CAS`, once its timing is met. -/
def continueCas (cfg : Config) (lp : LPDDRConfig) (onIssue : List (Request Command K)) (b : Buf)
    (i : Nat) (s : LPDDR K) : Except String (LPDDR K) :=
  match (s.base.bufs b)[i]? with
  | none => .ok s
  | some e =>
      if s.timingOk e then do
        let own := extendWckExpiry lp s.base.clk e.cmd
          { s.own with cas := none, numCasIssued := s.own.numCasIssued + 1 }
        let (e, base) := s.base.count cfg b i e
        let base ← base.issueAndNotify cfg onIssue e
        pure { base := if e.cmd = e.final then base.retireRequest cfg b i e else base, own := own }
      else .ok s

/-- What a tick issues when no `CAS` is waiting; `urgent` is the `ACT2` that has to go. -/
def serveTick (cfg : Config) (lp : LPDDRConfig) (onIssue : List (Request Command K))
    (urgent : Option Nat) (s : LPDDR K) : Except String (LPDDR K) :=
  match urgent with
  | some i => s.issueOwnedAct2 cfg onIssue .urgent i
  | none =>
      match s.selectCandidate cfg lp with
      | (s, none) => s.issueDeferredAct2 cfg onIssue false
      | (s, some (b, i)) =>
          match (s.base.bufs b)[i]? with
          | none => .ok s
          | some e => s.issueCandidate cfg lp onIssue b i e

/-- The tick between its hooks. -/
def issueTick (cfg : Config) (lp : LPDDRConfig) (onIssue : List (Request Command K)) (s : LPDDR K) :
    Except String (LPDDR K) :=
  let (s, urgent) := s.pickUrgentAct2 cfg
  match s.own.cas with
  | some (b, i) => (s.assert urgent.isNone).continueCas cfg lp onIssue b i
  | none => s.serveTick cfg lp onIssue urgent

end LPDDR

/-- `LPDDRControllerBase::tick`. -/
def lpddrTick (cfg : Config) (lp : LPDDRConfig) (inputs : TickInputs K) (s : LPDDR K) :
    Except String (LPDDR K) := do
  let base ← s.base.preTick cfg inputs
  let s ← LPDDR.issueTick cfg lp inputs.onIssue { s with base := base }
  let base ← s.base.prioritySendAll cfg inputs.postSchedule
  pure { s with base := base }

end Ramulator.Controller
