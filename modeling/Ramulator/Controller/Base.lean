/-
# Ramulator.Controller.Base — the state and the shared operations of the DRAM controllers.

`ControllerBase` (`controller/controller_base.{h,cpp}`) owns the request buffers, the pending reads,
the write-forwarding set, the per-bank count of active requests and the statistics, and gives the
concrete controllers their building blocks: `send`, `priority_send`, the tick prologue, the candidate
selection, `retire_request` and `promote_to_active`. The choice inside a buffer is the scheduler's
(`Ramulator.Controller.Scheduler`).

Two things are added for the sake of statements: every admitted request gets a number (`uid`), and
the state keeps a log of what the outside can observe. Neither is read by any operation. The two
float comparisons of `set_write_mode` are parameters.
-/
import Ramulator.Base.Request
import Ramulator.Dram.Device
import Mathlib.Data.Finset.Basic

namespace Ramulator.Controller

open Ramulator.Base (Request)
open Ramulator.Dram

/-! ## Requests in the buffers -/

/-- A request inside the controller, with its admission number. -/
structure Entry (K : Type) extends Request Command K where
  uid : Nat

/-- A request at its admission. -/
def Entry.ofRequest {K : Type} (uid : Nat) (req : Request Command K) : Entry K :=
  { req with uid := uid }

/-- The command to issue next. Every request in a buffer has a terminal command, and a next command
once the scheduler has looked at it. -/
def Entry.cmd {K : Type} (e : Entry K) : Command := e.command.getD default

/-- The terminal command. -/
def Entry.final {K : Type} (e : Entry K) : Command := e.finalCommand.getD default

/-- A read whose departure is known (`PendingRead`). -/
structure PendingRead (K : Type) where
  depart : Int
  sequence : Nat
  req : Entry K

/-- The order of the priority queue: by departure, then by insertion. -/
def PendingRead.before {K : Type} (p q : PendingRead K) : Bool :=
  p.depart < q.depart || (p.depart == q.depart && p.sequence < q.sequence)

/-- The request buffers: those of `ControllerBase`, and the ones that the LPDDR and the PRAC controller
add. -/
inductive Buf where
  | active
  | priority
  | read
  | write
  | activating
  | prac
  deriving DecidableEq, Repr

/-! ## The observable events -/

/-- Where an accepted request went. -/
inductive Route where
  | buffered
  | forwarded
  | coalesced
  deriving DecidableEq, Repr

/-- What can be observed of a run. An issued command is recorded with the banks it targets and their
states at that moment, and with the requests of the active buffer and their banks. A completion is
recorded whether or not the request has a callback; `called` says if it has. -/
inductive Event where
  | accepted (uid : Nat) (typeId addr : Int) (route : Route)
  | issued (uid : Nat) (c : Command) (addr : AddrVec) (targets : List (Int × BankState))
      (active : List (Nat × Int))
  | departureScheduled (uid : Nat) (depart : Int)
  | completedRead (uid : Nat) (clk depart : Int) (sequence : Nat) (called : Bool)
  | completedWrite (uid : Nat) (clk : Int) (called : Bool)
  deriving DecidableEq, Repr

/-! ## Statistics -/

structure RowStats where
  hits : Nat := 0
  misses : Nat := 0
  conflicts : Nat := 0
  deriving DecidableEq, Repr

structure Stats where
  rows : RowStats := {}
  readRows : RowStats := {}
  writeRows : RowStats := {}
  readRowsPerCore : List RowStats := []
  numReadReqs : Nat := 0
  numWriteReqs : Nat := 0
  numMaintenanceReqs : Nat := 0
  numReadReqsServed : Nat := 0
  numWriteReqsServed : Nat := 0
  numMaintenanceReqsServed : Nat := 0
  numReadReqsForwarded : Nat := 0
  numWriteReqsCoalesced : Nat := 0
  queueLen : Nat := 0
  readQueueLen : Nat := 0
  writeQueueLen : Nat := 0
  priorityQueueLen : Nat := 0
  readLatency : Int := 0
  deriving DecidableEq, Repr

/-! ## Configuration and state -/

inductive SchedulerKind where
  | frfcfs
  | frfcfsRowHit
  deriving DecidableEq, Repr

inductive RowPolicyKind where
  | opened
  | closedCAP (cap : Int)
  deriving DecidableEq, Repr

/-- The configuration of a controller. `aboveHighWatermark n` is the comparison
`n > wr_high_watermark * max_size` of the write buffer, `belowLowWatermark n` is
`n < wr_low_watermark * max_size`. -/
structure Config where
  spec : Standard
  channelId : Int
  readBufferSize : Nat
  writeBufferSize : Nat
  priorityBufferSize : Nat
  aboveHighWatermark : Nat → Bool
  belowLowWatermark : Nat → Bool
  scheduler : SchedulerKind
  rowPolicy : RowPolicyKind
  numCores : Nat := 1

/-- The row policy's counters, per flat bank id. -/
structure RowPolicyState where
  colAccesses : Int → Int := fun _ => 0
  prepbInjected : Int → Bool := fun _ => false

/-- The state of a controller. `nextUid` and `log` are the additions. -/
structure ControllerBase (K : Type) where
  clk : Int
  measuredClk : Int := 0
  device : DRAMDevice
  bufs : Buf → List (Entry K) := fun _ => []
  pending : List (PendingRead K) := []
  pendingSequence : Nat := 0
  bufferedWriteAddrs : Finset Int := ∅
  isWriteMode : Bool := false
  activePerBank : Int → Int := fun _ => 0
  rowPolicy : RowPolicyState := {}
  stats : Stats := {}
  nextUid : Nat := 0
  log : List Event := []

variable {K : Type}

namespace ControllerBase

/-- The state after `init` and `setup`. -/
def init (cfg : Config) : ControllerBase K where
  clk := 0
  device := DRAMDevice.init cfg.spec cfg.channelId
  stats := { readRowsPerCore := List.replicate cfg.numCores {} }

def active (s : ControllerBase K) : List (Entry K) := s.bufs .active
def priority (s : ControllerBase K) : List (Entry K) := s.bufs .priority
def read (s : ControllerBase K) : List (Entry K) := s.bufs .read
def write (s : ControllerBase K) : List (Entry K) := s.bufs .write

def setBuf (b : Buf) (l : List (Entry K)) (s : ControllerBase K) : ControllerBase K :=
  { s with bufs := Function.update s.bufs b l }

def setStats (f : Stats → Stats) (s : ControllerBase K) : ControllerBase K :=
  { s with stats := f s.stats }

def record (e : Event) (s : ControllerBase K) : ControllerBase K := { s with log := s.log ++ [e] }

/-! ## Requests coming in -/

/-- `m_pending.push`: the queue is kept in the order in which it is popped. -/
def pushPending (e : Entry K) (s : ControllerBase K) : ControllerBase K :=
  let p : PendingRead K := ⟨e.depart, s.pendingSequence, e⟩
  { s with
    pending := s.pending.takeWhile (·.before p) ++ p :: s.pending.dropWhile (·.before p)
    pendingSequence := s.pendingSequence + 1 }

def notifyDepartureScheduled (uid : Nat) (depart : Int) (s : ControllerBase K) : ControllerBase K :=
  s.record (.departureScheduled uid depart)

/-- The number of the next admitted request is used up. -/
def accept (typeId addr : Int) (route : Route) (s : ControllerBase K) : ControllerBase K :=
  { s with nextUid := s.nextUid + 1 }.record (.accepted s.nextUid typeId addr route)

/-- The request as the controller sees it: mapped, on this channel, with its terminal command. -/
def mapped (cfg : Config) (apply : Request Command K → AddrVec) (req : Request Command K) :
    Request Command K :=
  { req with
    addrVec := (apply req).set 0 cfg.channelId
    finalCommand := some (if req.typeId = Request.read then cfg.spec.readCommand
      else cfg.spec.writeCommand) }

/-- A read that a buffered write answers. -/
def forward (req : Request Command K) (s : ControllerBase K) :
    Bool × Request Command K × ControllerBase K :=
  let req := { req with arrive := s.clk, depart := s.clk + 1 }
  let e := Entry.ofRequest s.nextUid req
  (true, req, (((s.accept req.typeId req.addr .forwarded).pushPending e).notifyDepartureScheduled
    e.uid e.depart).setStats fun st =>
      { st with
        numReadReqs := st.numReadReqs + 1, numReadReqsForwarded := st.numReadReqsForwarded + 1 })

/-- A write that a buffered write absorbs. -/
def coalesce (req : Request Command K) (s : ControllerBase K) :
    Bool × Request Command K × ControllerBase K :=
  (true, req, (((s.accept req.typeId req.addr .coalesced).notifyDepartureScheduled s.nextUid s.clk
    ).record (.completedWrite s.nextUid s.clk req.callback.isSome)).setStats fun st =>
      { st with
        numWriteReqs := st.numWriteReqs + 1
        numWriteReqsCoalesced := st.numWriteReqsCoalesced + 1 })

/-- A read that enters the read buffer. -/
def enqueueRead (req : Request Command K) (s : ControllerBase K) : ControllerBase K :=
  ((s.accept req.typeId req.addr .buffered).setBuf .read
    (s.read ++ [Entry.ofRequest s.nextUid req])).setStats fun st =>
      { st with numReadReqs := st.numReadReqs + 1 }

/-- A write that enters the write buffer, and with it the forwarding set. -/
def enqueueWrite (req : Request Command K) (s : ControllerBase K) : ControllerBase K :=
  { (s.accept req.typeId req.addr .buffered).setBuf .write
      (s.write ++ [Entry.ofRequest s.nextUid req]) with
    bufferedWriteAddrs := insert req.addr s.bufferedWriteAddrs }.setStats fun st =>
      { st with numWriteReqs := st.numWriteReqs + 1 }

/-- `send` from the mapped request on: forward, coalesce, enqueue or reject. -/
def sendMapped (cfg : Config) (req : Request Command K) (s : ControllerBase K) :
    Bool × Request Command K × ControllerBase K :=
  if req.typeId = Request.read ∧ req.addr ∈ s.bufferedWriteAddrs then s.forward req
  else if req.typeId = Request.read then
    if s.read.length < cfg.readBufferSize then
      (true, req.arrivedAt s.clk, s.enqueueRead (req.arrivedAt s.clk))
    else (false, req.arrivedAt (-1), s)
  else if req.addr ∈ s.bufferedWriteAddrs then s.coalesce (req.arrivedAt s.clk)
  else if s.write.length < cfg.writeBufferSize then
    (true, req.arrivedAt s.clk, s.enqueueWrite (req.arrivedAt s.clk))
  else (false, req.arrivedAt (-1), s)

/-- `ControllerBase::send`. The address mapper is a parameter: it writes `addr_vec`. The request comes
back as the caller's object looks afterwards. -/
def send (cfg : Config) (apply : Request Command K → AddrVec) (req : Request Command K)
    (s : ControllerBase K) : Except String (Bool × Request Command K × ControllerBase K) :=
  if req.typeId ≠ Request.read ∧ req.typeId ≠ Request.write then
    .error ("ControllerBase only supports Read (0) and Write (1) request types, got type_id " ++
      toString req.typeId)
  else .ok (s.sendMapped cfg (mapped cfg apply req))

/-- A request that enters the priority buffer. -/
def enqueuePriority (req : Request Command K) (s : ControllerBase K) : ControllerBase K :=
  ({ s with nextUid := s.nextUid + 1 }.setBuf .priority
    (s.priority ++ [Entry.ofRequest s.nextUid req])).setStats fun st =>
      if req.typeId = -1 then { st with numMaintenanceReqs := st.numMaintenanceReqs + 1 } else st

/-- `ControllerBase::priority_send`. -/
def prioritySend (cfg : Config) (req : Request Command K) (s : ControllerBase K) :
    Except String (Bool × ControllerBase K) :=
  if req.finalCommand.any cfg.spec.supports then
    if s.priority.length < cfg.priorityBufferSize then .ok (true, s.enqueuePriority req)
    else .ok (false, s)
  else .error "Invalid priority request final_command"

/-- The requests that a refresh manager or a plugin enqueues in one of its hooks; a full buffer drops
them, and the hook may see that. -/
def prioritySendAll (cfg : Config) (reqs : List (Request Command K)) (s : ControllerBase K) :
    Except String (ControllerBase K) :=
  reqs.foldlM (fun s req => (s.prioritySend cfg req).map (·.2)) s

/-! ## The tick prologue -/

/-- One completed read. -/
def serveRead (s : ControllerBase K) (p : PendingRead K) : ControllerBase K :=
  (s.setStats fun st =>
    { st with
      readLatency := st.readLatency + (p.req.depart - p.req.arrive)
      numReadReqsServed := st.numReadReqsServed + 1 }).record
    (.completedRead p.req.uid s.clk p.depart p.sequence p.req.callback.isSome)

/-- `serve_completed_reads`: pop while the first departure has arrived. -/
def serveCompletedReads (s : ControllerBase K) : ControllerBase K :=
  (s.pending.takeWhile (·.depart ≤ s.clk)).foldl serveRead
    { s with pending := s.pending.dropWhile (·.depart ≤ s.clk) }

/-- `tick_prologue`. -/
def tickPrologue (s : ControllerBase K) : ControllerBase K :=
  { s with
    clk := s.clk + 1
    measuredClk := s.measuredClk + 1
    stats :=
      { s.stats with
        queueLen := s.stats.queueLen + (s.read.length + s.write.length + s.priority.length)
        readQueueLen := s.stats.readQueueLen + s.read.length
        writeQueueLen := s.stats.writeQueueLen + s.write.length
        priorityQueueLen := s.stats.priorityQueueLen + s.priority.length }
    }.serveCompletedReads

/-! ## Requests moving on -/

/-- The flat bank of a request. -/
def bankOf (cfg : Config) (e : Entry K) : Int := cfg.spec.flatBankId e.addrVec

/-- Leaving a buffer: the shadow structures of the active and the write buffer follow. -/
def leave (cfg : Config) (b : Buf) (e : Entry K) (s : ControllerBase K) : ControllerBase K :=
  { s with
    activePerBank := if b = .active
      then Function.update s.activePerBank (bankOf cfg e) (s.activePerBank (bankOf cfg e) - 1)
      else s.activePerBank
    bufferedWriteAddrs := if b = .write then s.bufferedWriteAddrs.erase e.addr
      else s.bufferedWriteAddrs }

/-- What a terminal command means for a request of each type. -/
def finish (cfg : Config) (e : Entry K) (s : ControllerBase K) : ControllerBase K :=
  if e.typeId = Request.read then
    let e : Entry K := { e with depart := s.clk + cfg.spec.readLatency }
    (s.pushPending e).notifyDepartureScheduled e.uid e.depart
  else if e.typeId = Request.write then
    ((s.notifyDepartureScheduled e.uid s.clk).record
      (.completedWrite e.uid s.clk e.callback.isSome)).setStats fun st =>
        { st with numWriteReqsServed := st.numWriteReqsServed + 1 }
  else if e.typeId = -1 then
    s.setStats fun st => { st with numMaintenanceReqsServed := st.numMaintenanceReqsServed + 1 }
  else s

/-- `buffer.remove`. -/
def removeAt (b : Buf) (i : Nat) (s : ControllerBase K) : ControllerBase K :=
  s.setBuf b ((s.bufs b).eraseIdx i)

/-- `retire_request` of the `i`-th request `e` of buffer `b`. -/
def retireRequest (cfg : Config) (b : Buf) (i : Nat) (e : Entry K) (s : ControllerBase K) :
    ControllerBase K :=
  ((s.leave cfg b e).finish cfg e).removeAt b i

/-- Entering the active buffer, on the way out of buffer `b`. -/
def enterActive (cfg : Config) (b : Buf) (e : Entry K) (s : ControllerBase K) : ControllerBase K :=
  { s.setBuf .active (s.active ++ [e]) with
    activePerBank :=
      Function.update s.activePerBank (bankOf cfg e) (s.activePerBank (bankOf cfg e) + 1)
    bufferedWriteAddrs := if b = Buf.write then s.bufferedWriteAddrs.erase e.addr
      else s.bufferedWriteAddrs }

/-- `promote_to_active` of the `i`-th request `e` of buffer `b`. The active buffer has room for one
request per bank. -/
def promoteToActive (cfg : Config) (b : Buf) (i : Nat) (e : Entry K) (s : ControllerBase K) :
    ControllerBase K :=
  if s.active.length < cfg.spec.bankCount then (s.enterActive cfg b e).removeAt b i else s

/-! ## Scheduling helpers -/

/-- `would_close_active`: the request's next command closes a bank with an active request. -/
def wouldCloseActive (cfg : Config) (s : ControllerBase K) (e : Entry K) : Bool :=
  if e.cmd.commandMeta.isClosing = false then false
  else if s.active.length = 0 then false
  else
    match e.cmd.bankTarget with
    | .single => s.activePerBank (bankOf cfg e) > 0
    | target =>
        (List.range cfg.spec.bankCount).any fun i =>
          s.activePerBank i ≠ 0 &&
            !(target = .sameBank && cfg.spec.bankId i ≠ e.addrVec.coord cfg.spec.bankLevel) &&
            cfg.spec.bankMatches s.device.channelId i e.addrVec

/-- `set_write_mode`. -/
def setWriteMode (cfg : Config) (s : ControllerBase K) : ControllerBase K :=
  if s.isWriteMode = false then
    if cfg.aboveHighWatermark s.write.length ∨ s.read.length = 0 then { s with isWriteMode := true }
    else s
  else if (s.write.length = 0 ∨ cfg.belowLowWatermark s.write.length) ∧ s.read.length ≠ 0 then
    { s with isWriteMode := false }
  else s

/-- How a request finds its row. -/
def bumpRow (hit opened : Bool) (st : RowStats) : RowStats :=
  if hit then { st with hits := st.hits + 1 }
  else if opened then { st with conflicts := st.conflicts + 1 }
  else { st with misses := st.misses + 1 }

/-- The counters of `update_request_stats`. -/
def updateRequestStats (cfg : Config) (e : Entry K) (s : ControllerBase K) : ControllerBase K :=
  let bump := bumpRow (s.device.checkRowbufferHit cfg.spec e.final e.addrVec)
    (s.device.checkNodeOpen cfg.spec e.final e.addrVec)
  if e.typeId = Request.read then
    s.setStats fun st =>
      { st with
        readRows := bump st.readRows
        rows := bump st.rows
        readRowsPerCore := if e.sourceId ≥ 0 then st.readRowsPerCore.modify e.sourceId.toNat bump
          else st.readRowsPerCore }
  else if e.typeId = Request.write then
    s.setStats fun st => { st with writeRows := bump st.writeRows, rows := bump st.rows }
  else s

end ControllerBase

end Ramulator.Controller
