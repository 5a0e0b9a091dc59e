/-
# Ramulator.Frontend.SimpleO3Core — a core of the SimpleO3 frontend.

`SimpleO3Core` (`frontend/impl/processor/simpleO3/core.{h,cpp}`) replays a trace through an instruction
window. A record is a number of instructions without memory access (bubbles), then a load, then a store
that is sent as a writeback and is not an instruction of its own. A core issues a fixed number of
instructions, its region of interest, and nothing after it.

The window is the list of its entries, the next to retire first: the source keeps them in a ring of
`depth` places. The way from the core through address translation to the cache is a parameter, the
port, with a state of its own: it takes a request or refuses it, and the core goes on in the same way
whichever of the two refused. An unset address is `none`.
-/
import Ramulator.Base.Request
import Ramulator.Dram.Command
import Ramulator.Lib.Run
import Mathlib.Algebra.GroupWithZero.Nat

namespace Ramulator.Frontend.O3

open Ramulator.Base (Request)
open Ramulator.Dram Ramulator.Lib

/-! ## Requests and exceptions -/

/-- What is done when a request of full line size returns: `SimpleO3::receive`, or the counters of
evicted lines. -/
inductive Completion where
  | receive
  | writebackDone
  deriving DecidableEq, Repr

/-- The callbacks of requests: a completion, or one part of a request that was split. -/
inductive Callback where
  | whole (c : Completion)
  | part (group : Nat)
  deriving DecidableEq, Repr

abbrev Req : Type := Request Command Callback

/-- The exceptions: a request that the cache refuses to take, a contradiction in the cache's own
bookkeeping, and those of the cores. -/
inductive Fault where
  | request (what : String)
  | cache (what : String)
  | core (what : String)
  deriving DecidableEq, Repr

/-! ## Traces -/

/-- A record. The parser refuses one without an instruction. -/
structure Inst where
  bubbleCount : Nat
  loadAddr : Option Int := none
  storeAddr : Option Int := none
  contributes : 0 < bubbleCount ∨ loadAddr.isSome = true := by decide
  deriving DecidableEq

namespace Inst

/-- Stores are attached writebacks, not additional instructions. -/
def instructions (i : Inst) : Nat := i.bubbleCount + if i.loadAddr.isSome then 1 else 0

theorem instructions_pos (i : Inst) : 0 < i.instructions := by
  have hi := i.contributes
  unfold instructions
  rcases hi with hi | hi
  · omega
  · simp [hi]

end Inst

/-- The configuration of a core, with what its constructor checks. -/
structure CoreConfig where
  id : Int
  ipc : Nat := 4
  depth : Nat := 128
  numExpectedInsts : Nat
  insts : List Inst
  allowTraceWrap : Bool := true
  critTrace : Bool := false
  ipc_pos : 0 < ipc := by decide
  depth_pos : 0 < depth := by decide
  numExpectedInsts_pos : 0 < numExpectedInsts := by decide
  insts_pos : 0 < insts.length := by decide
  supplies : allowTraceWrap = true ∨ numExpectedInsts ≤ (insts.map (·.instructions)).sum := by decide

/-! ## The state of a core -/

/-- An instruction in flight. -/
structure WindowEntry where
  ready : Bool
  addr : Int := -1
  frontendId : Int := -1
  deriving DecidableEq, Repr

structure Core where
  window : List WindowEntry := []
  blockedCycles : Int → Int := fun _ => 0
  currTraceIdx : Nat := 0
  numBubbles : Nat := 0
  loadAddr : Option Int := none
  writebackAddr : Option Int := none
  loadFrontendId : Int := -1
  writebackFrontendId : Int := -1
  nextFrontendId : Int := 0
  roiIssueComplete : Bool := false
  issueCurrentWritebackAfterRoi : Bool := false
  lastMemCycle : Int := 0
  reachedExpectedNumInsts : Bool := false
  instsIssued : Nat := 0
  instsRetired : Nat := 0
  cyclesRecorded : Int := 0
  memAccessCycles : Int := 0

namespace Core

variable {E : Type}

/-! ### The window -/

def isFull (cfg : CoreConfig) (s : Core) : Bool := s.window.length = cfg.depth

/-- `tail_ready`: the next instruction to retire is ready. -/
def tailReady (s : Core) : Bool :=
  match s.window with
  | [] => false
  | x :: _ => x.ready

/-- `blocked_addr`: the load that retirement waits for. -/
def blockedAddr (s : Core) : Int :=
  match s.window with
  | [] => -1
  | x :: _ => if x.ready then -1 else x.addr

/-- The loop of `retire`: what stays, and how many instructions leave. -/
def retireFrom : Nat → List WindowEntry → List WindowEntry × Nat
  | 0, w => (w, 0)
  | _ + 1, [] => ([], 0)
  | n + 1, x :: w =>
      if x.ready then
        let (rest, retired) := retireFrom n w
        (rest, retired + 1)
      else (x :: w, 0)

/-- `set_ready`: the first entry of this identity. -/
def setReady (frontendId : Int) : List WindowEntry → Option (List WindowEntry)
  | [] => none
  | x :: w =>
      if x.frontendId = frontendId then some ({ x with ready := true } :: w)
      else (setReady frontendId w).map (x :: ·)

/-! ### The trace -/

/-- The next record in place. Its requests get their identities here, once. -/
def take (idx : Nat) (inst : Inst) (s : Core) : Core :=
  let next := if inst.loadAddr.isSome then s.nextFrontendId + 1 else s.nextFrontendId
  { s with
    currTraceIdx := idx + 1
    numBubbles := inst.bubbleCount
    loadAddr := inst.loadAddr
    writebackAddr := inst.storeAddr
    loadFrontendId := if inst.loadAddr.isSome then s.nextFrontendId else -1
    writebackFrontendId := if inst.storeAddr.isSome then next else -1
    nextFrontendId := if inst.storeAddr.isSome then next + 1 else next }

/-- `fetch_next_trace_inst`, with `get_next_inst`. -/
def fetchNextTraceInst (cfg : CoreConfig) (s : Core) : Except Fault Core :=
  if s.roiIssueComplete then
    .error (.core "SimpleO3 attempted to fetch beyond its fixed instruction ROI")
  else if s.currTraceIdx = cfg.insts.length ∧ cfg.allowTraceWrap = false then
    .error (.core "SimpleO3 attempted to wrap a no-wrap input trace")
  else
    let idx := if s.currTraceIdx = cfg.insts.length then 0 else s.currTraceIdx
    match cfg.insts[idx]? with
    | none => .error (.core "trace index out of bounds")
    | some inst => .ok (s.take idx inst)

/-- `finish_issue_roi`. -/
def finishIssueRoi (cfg : CoreConfig) (keepCurrentWriteback : Bool) (s : Core) : Except Fault Core :=
  if s.instsIssued ≠ cfg.numExpectedInsts then
    .error (.core "SimpleO3 fixed issue ROI ended at an inconsistent instruction count")
  else
    let keep := keepCurrentWriteback && s.writebackAddr.isSome
    .ok { s with
      roiIssueComplete := true
      issueCurrentWritebackAfterRoi := keep
      numBubbles := 0
      loadAddr := none
      writebackAddr := if keep then s.writebackAddr else none }

/-! ### A tick -/

/-- The account of blocked cycles: `tick` adds one, `fast_forward` the ticks it skips. -/
def countBlocked (cfg : CoreConfig) (ticks : Int) (s : Core) : Core :=
  if cfg.critTrace && s.blockedAddr != -1 then
    { s with blockedCycles :=
        Function.update s.blockedCycles s.blockedAddr (s.blockedCycles s.blockedAddr + ticks) }
  else s

/-- The first part of `tick`: retirement, the account of blocked cycles, the end of the region. -/
def retire (cfg : CoreConfig) (clk : Int) (s : Core) : Core :=
  let (window, retired) := retireFrom cfg.ipc s.window
  let s := { s with window := window, instsRetired := s.instsRetired + retired }.countBlocked cfg 1
  if s.reachedExpectedNumInsts = false ∧ s.instsRetired ≥ cfg.numExpectedInsts then
    { s with reachedExpectedNumInsts := true, cyclesRecorded := clk }
  else s

def loadRequest (cfg : CoreConfig) (addr : Int) (s : Core) : Req :=
  { addr := addr, typeId := Request.read, sourceId := cfg.id, callback := some (.whole .receive),
    frontendId := s.loadFrontendId }

def writebackRequest (cfg : CoreConfig) (addr : Int) (s : Core) : Req :=
  { addr := addr, typeId := Request.write, sourceId := cfg.id, callback := some (.whole .receive),
    frontendId := s.writebackFrontendId }

/-- One bubble enters the window. -/
def insertBubble (s : Core) : Core :=
  { s with
    window := s.window ++ [{ ready := true }]
    instsIssued := s.instsIssued + 1
    numBubbles := s.numBubbles - 1 }

/-- The loop over the bubbles, with the number inserted so far. `none` is a return from `tick`. -/
def issueBubbles (cfg : CoreConfig) : Nat → Nat → Core → Except Fault (Core × Option Nat)
  | 0, inserted, s => .ok (s, some inserted)
  | n + 1, inserted, s =>
      if inserted = cfg.ipc then .ok (s, none)
      else if s.isFull cfg then .ok (s, none)
      else if s.insertBubble.instsIssued = cfg.numExpectedInsts then
        (s.insertBubble.finishIssueRoi cfg false).map fun s => (s, none)
      else issueBubbles cfg n (inserted + 1) s.insertBubble

/-- An accepted load enters the window. -/
def insertLoad (req : Req) (s : Core) : Core :=
  { s with
    window := s.window ++ [{ ready := false, addr := req.addr, frontendId := req.frontendId }]
    instsIssued := s.instsIssued + 1
    loadAddr := none }

/-- The port to translation and cache: the translated request if it is taken. -/
abbrev Port (E : Type) : Type := Req → E → Except Fault (Option Req × E)

/-- The load of the record. The last component tells whether `tick` goes on. -/
def issueLoad (cfg : CoreConfig) (port : Port E) (inserted : Nat) (s : Core) (e : E) :
    Except Fault (Core × E × Bool) :=
  match s.loadAddr with
  | none => .ok (s, e, true)
  | some addr =>
      if inserted = cfg.ipc then .ok (s, e, false)
      else if s.isFull cfg then .ok (s, e, false)
      else
        port (s.loadRequest cfg addr) e >>= fun
          | (none, e) => .ok (s, e, false)
          | (some req, e) =>
              if (s.insertLoad req).instsIssued = cfg.numExpectedInsts then
                ((s.insertLoad req).finishIssueRoi cfg true).map fun s => (s, e, false)
              else .ok (s.insertLoad req, e, s.writebackAddr.isNone)

/-- The store of the record, and the next record. -/
def issueWriteback (cfg : CoreConfig) (port : Port E) (s : Core) (e : E) : Except Fault (Core × E) :=
  match s.writebackAddr with
  | none => (s.fetchNextTraceInst cfg).map fun s => (s, e)
  | some addr =>
      port (s.writebackRequest cfg addr) e >>= fun
        | (none, e) => .ok (s, e)
        | (some _, e) =>
            ({ s with writebackAddr := none }.fetchNextTraceInst cfg).map fun s => (s, e)

/-- The store of the last record of the region. -/
def issueLastWriteback (cfg : CoreConfig) (port : Port E) (s : Core) (e : E) :
    Except Fault (Core × E) :=
  if s.issueCurrentWritebackAfterRoi then
    (port (s.writebackRequest cfg (s.writebackAddr.getD (-1))) e).map fun
      | (none, e) => (s, e)
      | (some _, e) => ({ s with writebackAddr := none, issueCurrentWritebackAfterRoi := false }, e)
  else .ok (s, e)

/-- The second part of `tick`. -/
def issue (cfg : CoreConfig) (port : Port E) (s : Core) (e : E) : Except Fault (Core × E) :=
  if s.roiIssueComplete then s.issueLastWriteback cfg port e
  else
    issueBubbles cfg s.numBubbles 0 s >>= fun
      | (s, none) => .ok (s, e)
      | (s, some inserted) =>
          s.issueLoad cfg port inserted e >>= fun
            | (s, e, true) => s.issueWriteback cfg port e
            | (s, e, false) => .ok (s, e)

def tick (cfg : CoreConfig) (clk : Int) (port : Port E) (s : Core) (e : E) : Except Fault (Core × E) :=
  (s.retire cfg clk).issue cfg port e

/-- The state that the constructor leaves. -/
def init (cfg : CoreConfig) : Except Fault Core := fetchNextTraceInst cfg {}

/-! ### Completions -/

/-- The account of memory cycles in `receive`. -/
def countMemCycles (req : Req) (s : Core) : Core :=
  if req.typeId = Request.read ∧ req.arrive ≠ -1 ∧ req.depart > s.lastMemCycle ∧
      s.reachedExpectedNumInsts = false then
    { s with
      memAccessCycles := s.memAccessCycles + (req.depart - max s.lastMemCycle req.arrive)
      lastMemCycle := req.depart }
  else s

/-- `receive`. -/
def receive (cfg : CoreConfig) (req : Req) (s : Core) : Except Fault Core :=
  if req.typeId ≠ Request.read ∧ req.typeId ≠ Request.write then
    .error (.core "SimpleO3 core received an unsupported logical request type")
  else if req.typeId = Request.read then
    let s := if cfg.critTrace then
        { s with blockedCycles := Function.update s.blockedCycles req.addr 0 } else s
    if req.frontendId < 0 then
      .error (.core "SimpleO3 completion is missing its stable frontend identity")
    else
      match setReady req.frontendId s.window with
      | none => .error (.core "SimpleO3 read completion does not match an in-flight ROB identity")
      | some window => .ok ({ s with window := window }.countMemCycles req)
  else .ok s

/-! ### Idle ticks -/

/-- `issue_roi_quiescent`. -/
def issueRoiQuiescent (s : Core) : Bool := s.roiIssueComplete && !s.issueCurrentWritebackAfterRoi

/-- `is_stalled`. -/
def isStalled (cfg : CoreConfig) (s : Core) : Bool :=
  if s.roiIssueComplete then !(s.issueCurrentWritebackAfterRoi || s.tailReady)
  else if !s.isFull cfg || s.tailReady then false
  else !(s.numBubbles == 0 && s.loadAddr.isNone && s.writebackAddr.isSome)

def fastForward (cfg : CoreConfig) (ticks : Int) (s : Core) : Core := s.countBlocked cfg ticks

/-! ## What a tick issues -/

/-- The core after `k` bubbles. -/
def bubbled (k : Nat) (s : Core) : Core :=
  { s with
    window := s.window ++ List.replicate k { ready := true }
    instsIssued := s.instsIssued + k
    numBubbles := s.numBubbles - k }

/-- The core at the end of its region. -/
def finished (keepCurrentWriteback : Bool) (s : Core) : Core :=
  let keep := keepCurrentWriteback && s.writebackAddr.isSome
  { s with
    roiIssueComplete := true
    issueCurrentWritebackAfterRoi := keep
    numBubbles := 0
    loadAddr := none
    writebackAddr := if keep then s.writebackAddr else none }

theorem bubbled_zero (s : Core) : s.bubbled 0 = s := by
  simp [bubbled]

theorem bubbled_insertBubble (k : Nat) (s : Core) :
    s.insertBubble.bubbled k = s.bubbled (k + 1) := by
  simp only [bubbled, insertBubble, List.append_assoc, List.singleton_append, ← List.replicate_succ,
    Nat.sub_sub, Nat.add_assoc, Nat.add_comm 1 k]

theorem finishIssueRoi_of_eq {cfg : CoreConfig} {s : Core} (h : s.instsIssued = cfg.numExpectedInsts)
    (keep : Bool) : s.finishIssueRoi cfg keep = .ok (s.finished keep) := by
  unfold finishIssueRoi
  rw [if_neg (not_not_intro h)]
  rfl

variable {cfg : CoreConfig} {port : Port E} {s s' : Core} {e e' : E}

/-- The loop stops short of the last bubble, ends the region, or gets through. -/
theorem issueBubbles_cases {n inserted : Nat} {stop : Option Nat}
    (hlt : s.instsIssued < cfg.numExpectedInsts)
    (h : issueBubbles cfg n inserted s = .ok (s', stop)) :
    (∃ k < n, s.instsIssued + k < cfg.numExpectedInsts ∧ stop = none ∧ s' = s.bubbled k) ∨
    (∃ k, 0 < k ∧ k ≤ n ∧ s.instsIssued + k = cfg.numExpectedInsts ∧ stop = none ∧
      s' = (s.bubbled k).finished false) ∨
    (s.instsIssued + n < cfg.numExpectedInsts ∧ stop = some (inserted + n) ∧ s' = s.bubbled n) := by
  induction n generalizing inserted s with
  | zero =>
      cases h
      exact .inr (.inr ⟨hlt, rfl, (bubbled_zero _).symm⟩)
  | succ n ih =>
      have hstop : ∀ t : Core, t = s → (∃ k < n + 1, s.instsIssued + k < cfg.numExpectedInsts ∧
          (none : Option Nat) = none ∧ t = s.bubbled k) := by
        rintro t rfl
        exact ⟨0, Nat.succ_pos n, hlt, rfl, (bubbled_zero t).symm⟩
      unfold issueBubbles at h
      split_ifs at h with hipc hfull hend
      · cases h
        exact .inl (hstop _ rfl)
      · cases h
        exact .inl (hstop _ rfl)
      · rw [finishIssueRoi_of_eq hend] at h
        cases h
        exact .inr (.inl ⟨1, Nat.one_pos, by omega, hend, rfl, rfl⟩)
      · have hlt' : s.insertBubble.instsIssued < cfg.numExpectedInsts :=
          lt_of_le_of_ne hlt hend
        have hcount : ∀ k, s.insertBubble.instsIssued + k = s.instsIssued + (k + 1) := by
          intro k
          show s.instsIssued + 1 + k = _
          omega
        rcases ih hlt' h with ⟨k, hk, hroom, rfl, rfl⟩ | ⟨k, hpos, hk, hend', rfl, rfl⟩ |
          ⟨hroom, rfl, rfl⟩
        · exact .inl ⟨k + 1, by omega, hcount k ▸ hroom, rfl, bubbled_insertBubble k s⟩
        · refine .inr (.inl ⟨k + 1, by omega, by omega, hcount k ▸ hend', rfl, ?_⟩)
          rw [bubbled_insertBubble]
        · refine .inr (.inr ⟨hcount n ▸ hroom, ?_, bubbled_insertBubble n s⟩)
          rw [Nat.add_assoc, Nat.add_comm 1 n]

/-- The ways in which the second part of a tick may end, with the answers of the port. -/
inductive Issue (cfg : CoreConfig) (port : Port E) (s : Core) (e : E) : Core → E → Prop where
  | quiescent (hroi : s.roiIssueComplete = true) (hlast : s.issueCurrentWritebackAfterRoi = false) :
      Issue cfg port s e s e
  | lastRefused {e' : E} (hroi : s.roiIssueComplete = true)
      (hlast : s.issueCurrentWritebackAfterRoi = true)
      (hport : port (s.writebackRequest cfg (s.writebackAddr.getD (-1))) e = .ok (none, e')) :
      Issue cfg port s e s e'
  | lastSent {e' : E} {req : Req} (hroi : s.roiIssueComplete = true)
      (hlast : s.issueCurrentWritebackAfterRoi = true)
      (hport : port (s.writebackRequest cfg (s.writebackAddr.getD (-1))) e = .ok (some req, e')) :
      Issue cfg port s e { s with writebackAddr := none, issueCurrentWritebackAfterRoi := false } e'
  | bubbles {k : Nat} (hroi : s.roiIssueComplete = false) (hk : k < s.numBubbles)
      (hroom : s.instsIssued + k < cfg.numExpectedInsts) : Issue cfg port s e (s.bubbled k) e
  | lastBubble {k : Nat} (hroi : s.roiIssueComplete = false) (hpos : 0 < k) (hk : k ≤ s.numBubbles)
      (hend : s.instsIssued + k = cfg.numExpectedInsts) :
      Issue cfg port s e ((s.bubbled k).finished false) e
  | loadWaits {addr : Int} (hroi : s.roiIssueComplete = false)
      (hroom : s.instsIssued + s.numBubbles < cfg.numExpectedInsts) (hload : s.loadAddr = some addr) :
      Issue cfg port s e (s.bubbled s.numBubbles) e
  | loadRefused {e' : E} {addr : Int} (hroi : s.roiIssueComplete = false)
      (hroom : s.instsIssued + s.numBubbles < cfg.numExpectedInsts) (hload : s.loadAddr = some addr)
      (hport : port (s.loadRequest cfg addr) e = .ok (none, e')) :
      Issue cfg port s e (s.bubbled s.numBubbles) e'
  | lastLoad {e' : E} {addr : Int} {req : Req} (hroi : s.roiIssueComplete = false)
      (hload : s.loadAddr = some addr)
      (hend : s.instsIssued + s.numBubbles + 1 = cfg.numExpectedInsts)
      (hport : port (s.loadRequest cfg addr) e = .ok (some req, e')) :
      Issue cfg port s e (((s.bubbled s.numBubbles).insertLoad req).finished true) e'
  | loadSent {e' : E} {addr store : Int} {req : Req} (hroi : s.roiIssueComplete = false)
      (hload : s.loadAddr = some addr) (hstore : s.writebackAddr = some store)
      (hroom : s.instsIssued + s.numBubbles + 1 < cfg.numExpectedInsts)
      (hport : port (s.loadRequest cfg addr) e = .ok (some req, e')) :
      Issue cfg port s e ((s.bubbled s.numBubbles).insertLoad req) e'
  | loadOnly {e' : E} {addr : Int} {req : Req} {s' : Core} (hroi : s.roiIssueComplete = false)
      (hload : s.loadAddr = some addr) (hstore : s.writebackAddr = none)
      (hroom : s.instsIssued + s.numBubbles + 1 < cfg.numExpectedInsts)
      (hport : port (s.loadRequest cfg addr) e = .ok (some req, e'))
      (hfetch : ((s.bubbled s.numBubbles).insertLoad req).fetchNextTraceInst cfg = .ok s') :
      Issue cfg port s e s' e'
  | noAccess {s' : Core} (hroi : s.roiIssueComplete = false) (hload : s.loadAddr = none)
      (hstore : s.writebackAddr = none)
      (hroom : s.instsIssued + s.numBubbles < cfg.numExpectedInsts)
      (hfetch : (s.bubbled s.numBubbles).fetchNextTraceInst cfg = .ok s') : Issue cfg port s e s' e
  | storeRefused {e' : E} {addr : Int} (hroi : s.roiIssueComplete = false) (hload : s.loadAddr = none)
      (hstore : s.writebackAddr = some addr)
      (hroom : s.instsIssued + s.numBubbles < cfg.numExpectedInsts)
      (hport : port (s.writebackRequest cfg addr) e = .ok (none, e')) :
      Issue cfg port s e (s.bubbled s.numBubbles) e'
  | storeSent {e' : E} {addr : Int} {req : Req} {s' : Core} (hroi : s.roiIssueComplete = false)
      (hload : s.loadAddr = none) (hstore : s.writebackAddr = some addr)
      (hroom : s.instsIssued + s.numBubbles < cfg.numExpectedInsts)
      (hport : port (s.writebackRequest cfg addr) e = .ok (some req, e'))
      (hfetch : { s.bubbled s.numBubbles with writebackAddr := none }.fetchNextTraceInst cfg = .ok s') :
      Issue cfg port s e s' e'

theorem issue_spec (hlt : s.roiIssueComplete = false → s.instsIssued < cfg.numExpectedInsts)
    (h : s.issue cfg port e = .ok (s', e')) : Issue cfg port s e s' e' := by
  unfold issue at h
  split_ifs at h with hroi
  · unfold issueLastWriteback at h
    split_ifs at h with hlast
    · obtain ⟨⟨sent, e₁⟩, hport, heq⟩ := except_map_eq_ok.mp h
      cases sent with
      | none =>
          cases heq
          exact .lastRefused hroi hlast hport
      | some req =>
          cases heq
          exact .lastSent hroi hlast hport
    · cases h
      exact .quiescent hroi (Bool.eq_false_iff.mpr hlast)
  · have hroi := Bool.eq_false_iff.mpr hroi
    obtain ⟨⟨t, stop⟩, hbubbles, h⟩ := except_bind_eq_ok.mp h
    rcases issueBubbles_cases (hlt hroi) hbubbles with ⟨k, hk, hroom, rfl, rfl⟩ |
      ⟨k, hpos, hk, hend, rfl, rfl⟩ | ⟨hroom, rfl, rfl⟩
    · cases h
      exact .bubbles hroi hk hroom
    · cases h
      exact .lastBubble hroi hpos hk hend
    · -- all bubbles are through
      obtain ⟨⟨u, e₁, goesOn⟩, hload, h⟩ := except_bind_eq_ok.mp h
      unfold issueLoad at hload
      cases haddr : (s.bubbled s.numBubbles).loadAddr with
      | none =>
          simp only [haddr] at hload
          cases hload
          unfold issueWriteback at h
          cases hwb : (s.bubbled s.numBubbles).writebackAddr with
          | none =>
              simp only [hwb] at h
              obtain ⟨v, hfetch, heq⟩ := except_map_eq_ok.mp h
              cases heq
              exact .noAccess hroi haddr hwb hroom hfetch
          | some addr =>
              simp only [hwb] at h
              obtain ⟨⟨sent, e₂⟩, hport, h⟩ := except_bind_eq_ok.mp h
              cases sent with
              | none =>
                  cases h
                  exact .storeRefused hroi haddr hwb hroom hport
              | some req =>
                  obtain ⟨v, hfetch, heq⟩ := except_map_eq_ok.mp h
                  cases heq
                  exact .storeSent hroi haddr hwb hroom hport hfetch
      | some addr =>
          simp only [haddr] at hload
          split_ifs at hload
          · cases hload
            cases h
            exact .loadWaits hroi hroom haddr
          · cases hload
            cases h
            exact .loadWaits hroi hroom haddr
          · obtain ⟨⟨sent, e₂⟩, hport, hload⟩ := except_bind_eq_ok.mp hload
            cases sent with
            | none =>
                cases hload
                cases h
                exact .loadRefused hroi hroom haddr hport
            | some req =>
                dsimp only at hload
                split_ifs at hload with hend
                · rw [finishIssueRoi_of_eq hend] at hload
                  cases hload
                  cases h
                  exact .lastLoad hroi haddr hend hport
                · have hroom' : s.instsIssued + s.numBubbles + 1 < cfg.numExpectedInsts :=
                    lt_of_le_of_ne hroom hend
                  cases hload
                  cases hwb : (s.bubbled s.numBubbles).writebackAddr with
                  | some store =>
                      simp only [hwb] at h
                      cases h
                      exact .loadSent hroi haddr hwb hroom' hport
                  | none =>
                      simp only [hwb] at h
                      have hwb' : ((s.bubbled s.numBubbles).insertLoad req).writebackAddr = none := hwb
                      unfold issueWriteback at h
                      simp only [Option.isNone_none, hwb'] at h
                      obtain ⟨v, hfetch, heq⟩ := except_map_eq_ok.mp h
                      cases heq
                      exact .loadOnly hroi haddr hwb hroom' hport hfetch

/-! ## An invariant of the cores -/

/-- Between two ticks. The last clause is why a core that is stalled stays so: a record that is used up
has been replaced in the same tick. -/
structure Ok (cfg : CoreConfig) (s : Core) : Prop where
  reached : cfg.numExpectedInsts ≤ s.instsRetired → s.reachedExpectedNumInsts = true
  issuing : s.roiIssueComplete = false → s.instsIssued < cfg.numExpectedInsts
  issued : s.roiIssueComplete = true → s.instsIssued = cfg.numExpectedInsts
  work : s.roiIssueComplete = false →
    0 < s.numBubbles ∨ s.loadAddr.isSome = true ∨ s.writebackAddr.isSome = true

theorem fetch_cases (h : s.fetchNextTraceInst cfg = .ok s') :
    s.roiIssueComplete = false ∧ ∃ idx inst,
      (idx = if s.currTraceIdx = cfg.insts.length then 0 else s.currTraceIdx) ∧
      (s.currTraceIdx = cfg.insts.length → cfg.allowTraceWrap = true) ∧
      cfg.insts[idx]? = some inst ∧ s' = s.take idx inst := by
  unfold fetchNextTraceInst at h
  dsimp only at h
  split_ifs at h with hroi hwrap hidx
  all_goals
    have hroi := Bool.eq_false_iff.mpr hroi
    refine ⟨hroi, ?_⟩
  · cases hinst : cfg.insts[0]? with
    | none => simp [hinst] at h
    | some inst =>
        simp only [hinst] at h
        cases h
        have hallow : cfg.allowTraceWrap = true := by simpa [hidx] using hwrap
        exact ⟨0, inst, (if_pos hidx).symm, fun _ => hallow, hinst, rfl⟩
  · cases hinst : cfg.insts[s.currTraceIdx]? with
    | none => simp [hinst] at h
    | some inst =>
        simp only [hinst] at h
        cases h
        exact ⟨_, inst, (if_neg hidx).symm, fun habs => absurd habs hidx, hinst, rfl⟩

/-- A new record is work. -/
theorem Ok.fetch (hreached : cfg.numExpectedInsts ≤ s.instsRetired → s.reachedExpectedNumInsts = true)
    (hissuing : s.instsIssued < cfg.numExpectedInsts) (h : s.fetchNextTraceInst cfg = .ok s') :
    Ok cfg s' := by
  obtain ⟨hroi, idx, inst, -, -, -, rfl⟩ := fetch_cases h
  have hroi' : (s.take idx inst).roiIssueComplete = false := hroi
  refine ⟨hreached, fun _ => hissuing, fun hcomplete => ?_, fun _ => ?_⟩
  · rw [hroi'] at hcomplete
    cases hcomplete
  · exact inst.contributes.imp_right .inl

theorem Ok.finished (hreached : cfg.numExpectedInsts ≤ s.instsRetired → s.reachedExpectedNumInsts = true)
    (hissued : s.instsIssued = cfg.numExpectedInsts) (keep : Bool) : Ok cfg (s.finished keep) :=
  ⟨hreached, nofun, fun _ => hissued, nofun⟩

theorem Ok.issue (h : Ok cfg s) (hissue : s.issue cfg port e = .ok (s', e')) : Ok cfg s' := by
  have hstep := issue_spec h.issuing hissue
  clear hissue
  cases hstep with
  | quiescent hroi hlast => exact h
  | lastRefused hroi hlast hport => exact h
  | lastSent hroi hlast hport => exact ⟨h.reached, fun hno => absurd (hroi.symm.trans hno) nofun,
      h.issued, fun hno => absurd (hroi.symm.trans hno) nofun⟩
  | @bubbles k hroi hk hroom =>
      refine ⟨h.reached, fun _ => hroom, fun hcomplete => ?_, fun _ => .inl ?_⟩
      · exact absurd (hroi.symm.trans hcomplete) nofun
      · show 0 < s.numBubbles - k
        omega
  | lastBubble hroi hpos hk hend => exact Ok.finished (s := s.bubbled _) h.reached hend false
  | loadWaits hroi hroom hload =>
      refine ⟨h.reached, fun _ => hroom, fun hcomplete => ?_, fun _ => .inr (.inl ?_)⟩
      · exact absurd (hroi.symm.trans hcomplete) nofun
      · exact Option.isSome_of_mem hload
  | loadRefused hroi hroom hload hport =>
      refine ⟨h.reached, fun _ => hroom, fun hcomplete => ?_, fun _ => .inr (.inl ?_)⟩
      · exact absurd (hroi.symm.trans hcomplete) nofun
      · exact Option.isSome_of_mem hload
  | lastLoad hroi hload hend hport => exact Ok.finished (s := (s.bubbled s.numBubbles).insertLoad _) h.reached hend true
  | loadSent hroi hload hstore hroom hport =>
      refine ⟨h.reached, fun _ => hroom, fun hcomplete => ?_, fun _ => .inr (.inr ?_)⟩
      · exact absurd (hroi.symm.trans hcomplete) nofun
      · exact Option.isSome_of_mem hstore
  | loadOnly hroi hload hstore hroom hport hfetch =>
      exact Ok.fetch (s := (s.bubbled s.numBubbles).insertLoad _) h.reached hroom hfetch
  | noAccess hroi hload hstore hroom hfetch =>
      exact Ok.fetch (s := s.bubbled s.numBubbles) h.reached hroom hfetch
  | storeRefused hroi hload hstore hroom hport =>
      refine ⟨h.reached, fun _ => hroom, fun hcomplete => ?_, fun _ => .inr (.inr ?_)⟩
      · exact absurd (hroi.symm.trans hcomplete) nofun
      · exact Option.isSome_of_mem hstore
  | storeSent hroi hload hstore hroom hport hfetch =>
      exact Ok.fetch (s := { s.bubbled s.numBubbles with writebackAddr := none }) h.reached hroom hfetch

theorem countBlocked_frame (cfg : CoreConfig) (ticks : Int) (s : Core) :
    (s.countBlocked cfg ticks).window = s.window ∧
      (s.countBlocked cfg ticks).roiIssueComplete = s.roiIssueComplete ∧
      (s.countBlocked cfg ticks).issueCurrentWritebackAfterRoi = s.issueCurrentWritebackAfterRoi ∧
      (s.countBlocked cfg ticks).numBubbles = s.numBubbles ∧
      (s.countBlocked cfg ticks).loadAddr = s.loadAddr ∧
      (s.countBlocked cfg ticks).writebackAddr = s.writebackAddr ∧
      (s.countBlocked cfg ticks).reachedExpectedNumInsts = s.reachedExpectedNumInsts ∧
      (s.countBlocked cfg ticks).instsRetired = s.instsRetired ∧
      (s.countBlocked cfg ticks).instsIssued = s.instsIssued := by
  unfold countBlocked
  split_ifs <;> exact ⟨rfl, rfl, rfl, rfl, rfl, rfl, rfl, rfl, rfl⟩

/-- Retirement leaves alone what the issue of instructions reads. -/
theorem retire_frame (cfg : CoreConfig) (clk : Int) (s : Core) :
    (s.retire cfg clk).roiIssueComplete = s.roiIssueComplete ∧
      (s.retire cfg clk).instsIssued = s.instsIssued ∧
      (s.retire cfg clk).numBubbles = s.numBubbles ∧ (s.retire cfg clk).loadAddr = s.loadAddr ∧
      (s.retire cfg clk).writebackAddr = s.writebackAddr := by
  obtain ⟨-, hroi, -, hbubbles, hload, hwb, -, -, hissued⟩ := countBlocked_frame cfg 1
    { s with
      window := (retireFrom cfg.ipc s.window).1
      instsRetired := s.instsRetired + (retireFrom cfg.ipc s.window).2 }
  unfold retire
  dsimp only
  split_ifs <;> exact ⟨hroi, hissued, hbubbles, hload, hwb⟩

theorem retire_reached (cfg : CoreConfig) (clk : Int) (s : Core)
    (h : cfg.numExpectedInsts ≤ (s.retire cfg clk).instsRetired) :
    (s.retire cfg clk).reachedExpectedNumInsts = true := by
  unfold retire at *
  dsimp only at *
  split_ifs at * with hend
  · rfl
  · exact Bool.of_not_eq_false fun hno => hend ⟨hno, h⟩

theorem Ok.retire (h : Ok cfg s) (clk : Int) : Ok cfg (s.retire cfg clk) := by
  obtain ⟨hroi, hissued, hbubbles, hload, hwb⟩ := retire_frame cfg clk s
  refine ⟨retire_reached cfg clk s, ?_, ?_, ?_⟩
  · rw [hroi, hissued]
    exact h.issuing
  · rw [hroi, hissued]
    exact h.issued
  · rw [hroi, hbubbles, hload, hwb]
    exact h.work

theorem Ok.tick {clk : Int} (h : Ok cfg s) (htick : s.tick cfg clk port e = .ok (s', e')) :
    Ok cfg s' := (h.retire clk).issue htick

theorem Ok.init {cfg : CoreConfig} {s : Core} (h : init cfg = .ok s) : Ok cfg s :=
  Ok.fetch (fun hle => absurd hle (not_le.mpr cfg.numExpectedInsts_pos)) cfg.numExpectedInsts_pos h

/-- What the port preserves, a tick preserves. -/
theorem tick_port {P : E → Prop} {clk : Int}
    (hport : ∀ req e sent e', P e → port req e = .ok (sent, e') → P e') (h : Ok cfg s) (he : P e)
    (htick : s.tick cfg clk port e = .ok (s', e')) : P e' := by
  cases issue_spec (h.retire clk).issuing htick with
  | quiescent | bubbles | lastBubble | loadWaits | noAccess => exact he
  | lastRefused _ _ hsend | lastSent _ _ hsend | loadRefused _ _ _ hsend | lastLoad _ _ _ hsend
  | loadSent _ _ _ _ hsend | loadOnly _ _ _ _ hsend | storeRefused _ _ _ _ hsend
  | storeSent _ _ _ _ hsend => exact hport _ _ _ _ he hsend

/-- A completion changes the window and the accounts. -/
theorem receive_frame {req : Req} (h : s.receive cfg req = .ok s') :
    s'.instsRetired = s.instsRetired ∧ s'.reachedExpectedNumInsts = s.reachedExpectedNumInsts ∧
      s'.roiIssueComplete = s.roiIssueComplete ∧
      s'.issueCurrentWritebackAfterRoi = s.issueCurrentWritebackAfterRoi ∧
      s'.instsIssued = s.instsIssued ∧ s'.numBubbles = s.numBubbles ∧ s'.loadAddr = s.loadAddr ∧
      s'.writebackAddr = s.writebackAddr ∧ s'.loadFrontendId = s.loadFrontendId ∧
      s'.writebackFrontendId = s.writebackFrontendId ∧ s'.nextFrontendId = s.nextFrontendId ∧
      s'.currTraceIdx = s.currTraceIdx := by
  unfold receive at h
  dsimp only at h
  split_ifs at h
  · cases hready : setReady req.frontendId s.window with
    | none => simp [hready] at h
    | some window =>
        simp only [hready] at h
        cases h
        unfold countMemCycles
        split_ifs <;> exact ⟨rfl, rfl, rfl, rfl, rfl, rfl, rfl, rfl, rfl, rfl, rfl, rfl⟩
  · cases hready : setReady req.frontendId s.window with
    | none => simp [hready] at h
    | some window =>
        simp only [hready] at h
        cases h
        unfold countMemCycles
        split_ifs <;> exact ⟨rfl, rfl, rfl, rfl, rfl, rfl, rfl, rfl, rfl, rfl, rfl, rfl⟩
  · cases h
    exact ⟨rfl, rfl, rfl, rfl, rfl, rfl, rfl, rfl, rfl, rfl, rfl, rfl⟩

theorem Ok.receive {req : Req} (h : Ok cfg s) (hreceive : s.receive cfg req = .ok s') : Ok cfg s' := by
  obtain ⟨hretired, hreached, hroi, -, hissued, hbubbles, hload, hwb, -⟩ := receive_frame hreceive
  refine ⟨?_, ?_, ?_, ?_⟩
  · rw [hretired, hreached]
    exact h.reached
  · rw [hroi, hissued]
    exact h.issuing
  · rw [hroi, hissued]
    exact h.issued
  · rw [hroi, hbubbles, hload, hwb]
    exact h.work

/-! ## Stalled cores -/

/-- A window whose next instruction is not ready retires nothing. -/
theorem retireFrom_of_not_ready {n : Nat} (h : s.tailReady = false) :
    retireFrom n s.window = (s.window, 0) := by
  unfold tailReady at h
  cases n with
  | zero => rfl
  | succ n =>
      cases hw : s.window with
      | nil => rfl
      | cons x w =>
          simp only [hw] at h
          simp [retireFrom, h]

/-- All that retirement does then is count a blocked cycle. -/
theorem retire_of_not_ready (h : Ok cfg s) (hready : s.tailReady = false) (clk : Int) :
    s.retire cfg clk = s.fastForward cfg 1 := by
  obtain ⟨-, -, -, -, -, -, hreached, hretired, -⟩ := countBlocked_frame cfg 1 s
  have hend : ¬ ((s.countBlocked cfg 1).reachedExpectedNumInsts = false ∧
      (s.countBlocked cfg 1).instsRetired ≥ cfg.numExpectedInsts) := by
    rw [hreached, hretired]
    exact fun hboth => absurd (h.reached hboth.2) (by simp [hboth.1])
  unfold retire
  rw [retireFrom_of_not_ready hready]
  exact if_neg hend

theorem isStalled_fastForward (cfg : CoreConfig) (ticks : Int) (s : Core) :
    (s.fastForward cfg ticks).isStalled cfg = s.isStalled cfg := by
  obtain ⟨hwindow, hroi, hlast, hbubbles, hload, hwb, -⟩ := countBlocked_frame cfg ticks s
  unfold isStalled isFull tailReady fastForward
  rw [hwindow, hroi, hlast, hbubbles, hload, hwb]

theorem Ok.fastForward (h : Ok cfg s) (ticks : Int) : Ok cfg (s.fastForward cfg ticks) := by
  obtain ⟨-, hroi, -, hbubbles, hload, hwb, hreached, hretired, hissued⟩ := countBlocked_frame cfg ticks s
  unfold Core.fastForward
  refine ⟨?_, ?_, ?_, ?_⟩
  · rw [hretired, hreached]
    exact h.reached
  · rw [hroi, hissued]
    exact h.issuing
  · rw [hroi, hissued]
    exact h.issued
  · rw [hroi, hbubbles, hload, hwb]
    exact h.work

/-- Skips add up. -/
theorem fastForward_add (cfg : CoreConfig) (j k : Int) (s : Core) :
    (s.fastForward cfg k).fastForward cfg j = s.fastForward cfg (k + j) := by
  unfold fastForward countBlocked
  by_cases h : (cfg.critTrace && s.blockedAddr != -1) = true
  · rw [if_pos h, if_pos h]
    have hblocked : ∀ f, ({ s with blockedCycles := f } : Core).blockedAddr = s.blockedAddr := fun _ => rfl
    rw [hblocked, if_pos h]
    simp only [Function.update_self, Function.update_idem, Int.add_assoc]
  · rw [if_neg h, if_neg h, if_neg h]

theorem fastForward_zero (cfg : CoreConfig) (s : Core) : s.fastForward cfg 0 = s := by
  unfold fastForward countBlocked
  split_ifs
  · simp
  · rfl

/-- The tick of a stalled core counts a blocked cycle and does not touch the port. -/
theorem tick_of_stalled (h : Ok cfg s) (hstalled : s.isStalled cfg = true) (clk : Int) (port : Port E)
    (e : E) : s.tick cfg clk port e = .ok (s.fastForward cfg 1, e) := by
  have hready : s.tailReady = false := by
    unfold isStalled at hstalled
    split_ifs at hstalled with hroi hfull
    · simp at hstalled
      exact hstalled.2
    · simp at hfull
      exact hfull.2
  unfold tick
  rw [retire_of_not_ready h hready]
  obtain ⟨hwindow, hroi, hlast, hbubbles, hload, hwb, -⟩ := countBlocked_frame cfg 1 s
  show (s.countBlocked cfg 1).issue cfg port e = .ok (s.countBlocked cfg 1, e)
  unfold issue
  rw [hroi]
  unfold isStalled at hstalled
  split_ifs at hstalled ⊢ with hcomplete hfull
  · -- the region is complete and its last store is out
    simp at hstalled
    unfold issueLastWriteback
    rw [hlast, hstalled.1]
    rfl
  · -- the window is full and the record is not used up to its store
    have hfull' : (s.countBlocked cfg 1).isFull cfg = true := by
      unfold isFull
      rw [hwindow]
      simpa [isFull, hready] using hfull
    rw [hbubbles]
    cases hn : s.numBubbles with
    | succ n =>
        have hipc : ¬ 0 = cfg.ipc := by
          have := cfg.ipc_pos
          omega
        unfold issueBubbles
        rw [if_neg hipc, if_pos hfull']
        rfl
    | zero =>
        show issueLoad cfg port 0 (s.countBlocked cfg 1) e >>= _ = _
        cases hl : s.loadAddr with
        | some addr =>
            have hipc : ¬ 0 = cfg.ipc := by
              have := cfg.ipc_pos
              omega
            unfold issueLoad
            rw [hload, hl]
            dsimp only
            rw [if_neg hipc, if_pos hfull']
            rfl
        | none =>
            have hwork := h.work (Bool.eq_false_iff.mpr hcomplete)
            rw [hn, hl] at hwork hstalled
            have hsome : s.writebackAddr.isSome = true := by simpa using hwork
            simp [hsome] at hstalled

end Core

end Ramulator.Frontend.O3
