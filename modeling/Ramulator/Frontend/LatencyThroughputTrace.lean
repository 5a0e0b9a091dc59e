/-
# Ramulator.Frontend.LatencyThroughputTrace — streaming load with probes, and its idle ticks.

`LatencyThroughputTrace` (`frontend/impl/memory_trace/latency_throughput_trace.cpp`) alternates between
a stream, slowed down by turns in which nothing is sent, and a pointer-chasing probe. Which turn comes
next is a small machine of a phase and a flag.

`idle_step` is that machine written a second time. `idle_ticks` runs it ahead on copies of its two
variables, `fast_forward` runs it on the frontend. Where it says that a tick is idle, `tick` must take
the same branch, send nothing and leave everything else alone.
-/
import Ramulator.Dram.Command
import Ramulator.Base.Request
import Ramulator.Lib.Run

namespace Ramulator.Frontend

open Ramulator.Base (Request)
open Ramulator.Dram Ramulator.Lib

namespace LatTp

/-! ## The frontend -/

inductive LatencyMeasureMode where
  | randomProbe
  | streamOnly
  deriving DecidableEq, Repr

/-- The parameters after `init`. `physicalLevelCounts` is there with the encoding by byte addresses. -/
structure Config where
  addrVecSize : Nat
  bankPositions : List Nat
  bankCounts : List Nat
  totalBankUnits : Nat
  rowPos : Nat
  colPos : Nat
  numRows : Nat
  internalPrefetchSize : Nat
  numCls : Nat
  streamCls : Nat := 8
  staggerStreamRows : Bool := false
  physicalLevelCounts : Option (List Nat) := none
  nopCounter : Int
  readRatio : Int := 100
  streamingOnly : Bool := false
  numStreamingRequests : Int := 0
  latencyMeasureMode : LatencyMeasureMode := .randomProbe
  latencySampleCount : Int := 0
  warmupCycles : Int := 10000
  txBytes : Nat

/-- `m_warmup_enabled`. -/
def Config.warmupEnabled (cfg : Config) : Bool := 0 < cfg.warmupCycles

/-- What a request calls back. -/
inductive Callback where
  | probe
  | streamSample
  deriving DecidableEq, Repr

abbrev Req := Request Command Callback

/-- The random generator: `uniform b` draws a number from `0` to `b`. -/
structure Rng (G : Type) where
  uniform : Nat → G → Nat × G

/-- The memory system as a frontend sees it. `send` answers if the request is accepted, and with the
request as it is afterwards. -/
structure MemoryPort (M : Type) where
  send : Req → M → Except String (Bool × Req × M)
  resetStats : M → M

/-- The statistics. An average is kept as the two numbers of which it is the quotient. -/
structure Stats where
  streamingSent : Nat := 0
  latencySamplesCompleted : Int := 0
  probesCompleted : Int := 0
  totalProbeLatency : Int := 0
  avgProbeLatency : Int × Int := (0, 1)
  streamLatencySamplesCompleted : Int := 0
  totalStreamLatency : Int := 0
  avgStreamLatency : Int × Int := (0, 1)

/-! ### Addresses -/

/-- `LatTp::streaming`: bank fastest, then the slots of a row, then the row. -/
def streamingAddrVec (cfg : Config) (idx : Nat) : AddrVec :=
  let flat := idx % cfg.totalBankUnits
  let staggered :=
    if cfg.staggerStreamRows ∧ cfg.streamCls > 0 then
      let banksPerPhase := (cfg.totalBankUnits + cfg.streamCls - 1) / cfg.streamCls
      if cfg.totalBankUnits ≤ cfg.streamCls then flat * cfg.streamCls / cfg.totalBankUnits
      else flat / banksPerPhase % cfg.streamCls
    else 0
  let slot := idx / cfg.totalBankUnits + staggered
  let banks := (cfg.bankPositions.zip cfg.bankCounts).reverse.foldl
    (fun (acc : AddrVec × Nat) p => (acc.1.set p.1 (acc.2 % p.2 : Nat), acc.2 / p.2))
    (List.replicate cfg.addrVecSize 0, flat)
  (banks.1.set cfg.rowPos (slot / cfg.streamCls % cfg.numRows : Nat)).set cfg.colPos
    (slot % cfg.streamCls * cfg.internalPrefetchSize : Nat)

/-- `LatTp::random`: a number for each bank position, the row and the column. -/
def randomAddrVec {G : Type} (cfg : Config) (rng : Rng G) (g : G) : AddrVec × G :=
  let banks := (cfg.bankPositions.zip cfg.bankCounts).foldl
    (fun (acc : AddrVec × G) p =>
      let d := rng.uniform (p.2 - 1) acc.2
      (acc.1.set p.1 d.1, d.2))
    (List.replicate cfg.addrVecSize 0, g)
  let row := rng.uniform (cfg.numRows - 1) banks.2
  let cls := rng.uniform (cfg.numCls - 1) row.2
  ((banks.1.set cfg.rowPos row.1).set cfg.colPos (cls.1 * cfg.internalPrefetchSize : Nat), cls.2)

/-- One field of a byte address. -/
def appendField (line : Nat) (count : Nat) (value : Int) : Except String Nat :=
  if count = 0 ∨ value < 0 ∨ value ≥ count ∨ line > (0x7fffffffffffffff - value.toNat) / count then
    .error "Lat-Tp: physical address exceeds its geometry"
  else .ok (line * count + value.toNat)

/-- `LatTp::physical_byte_address`. -/
def physicalByteAddress (cfg : Config) (levels : List Nat) (av : AddrVec) : Except String Int := do
  if av.coord 0 ≠ 0 ∨ av.coord cfg.rowPos < 0 ∨ av.coord cfg.rowPos ≥ cfg.numRows ∨
      av.coord cfg.colPos < 0 ∨ av.coord cfg.colPos % cfg.internalPrefetchSize ≠ 0 then
    throw "Lat-Tp: invalid single-channel physical address"
  let line ← ((List.range cfg.rowPos).drop 1).reverse.foldlM
    (fun line position => appendField line (levels.getD position 0) (av.coord position))
    (av.coord cfg.rowPos).toNat
  let line ← appendField line cfg.numCls (av.coord cfg.colPos / cfg.internalPrefetchSize)
  if cfg.txBytes = 0 ∨ cfg.txBytes &&& (cfg.txBytes - 1) ≠ 0 then
    throw "Lat-Tp: unsupported transaction size"
  let line ← appendField line cfg.txBytes 0
  pure line

/-- `make_request`. -/
def makeRequest (cfg : Config) (av : AddrVec) (type : Int) (sourceId : Int) : Except String Req := do
  let bankFlat := (cfg.bankPositions.zip cfg.bankCounts).foldl
    (fun (acc : Int) p => acc * p.2 + av.coord p.1) 0
  let lineId := bankFlat * cfg.numRows * cfg.numCls + av.coord cfg.rowPos * cfg.numCls +
    av.coord cfg.colPos / cfg.internalPrefetchSize
  let addr ← match cfg.physicalLevelCounts with
    | some levels => physicalByteAddress cfg levels av
    | none => pure lineId
  pure { (Request.ofAddrVec av type : Req) with
    addr := addr, sourceId := sourceId, sizeBytes := cfg.txBytes }

end LatTp

/-- The fields that a run changes. `rng` is the state of the generator. -/
structure LatencyThroughputTrace (G : Type) where
  clk : Int := 0
  currNop : Int := 0
  streamingIdx : Nat := 0
  issueProbe : Bool := false
  warmupResetDone : Bool := false
  probeInflight : Bool := false
  streamLatencySamplesInflight : Int := 0
  retryStreamReqTracksLatency : Bool := false
  retryStreamReq : Option LatTp.Req := none
  retryProbeReq : Option LatTp.Req := none
  rng : G
  stats : LatTp.Stats := {}

namespace LatencyThroughputTrace

open LatTp

variable {G M : Type} (cfg : LatTp.Config) (gen : Rng G) (port : MemoryPort M)

/-! ### One tick -/

/-- `maybe_reset_warmup_stats`. -/
def maybeResetWarmupStats (s : LatencyThroughputTrace G) (mem : M) : LatencyThroughputTrace G × M :=
  if cfg.warmupEnabled = false ∨ s.warmupResetDone = true ∨ s.clk ≤ cfg.warmupCycles then (s, mem)
  else ({ s with warmupResetDone := true, stats := {} }, port.resetStats mem)

/-- The type of the next streaming request. -/
def streamType (s : LatencyThroughputTrace G) : Int × LatencyThroughputTrace G :=
  if cfg.readRatio < 100 then
    let d := gen.uniform 99 s.rng
    (if (d.1 : Int) < cfg.readRatio then Request.read else Request.write, { s with rng := d.2 })
  else (Request.read, s)

def shouldSampleStreamLatency (s : LatencyThroughputTrace G) : Bool :=
  cfg.latencyMeasureMode == .streamOnly && (!cfg.warmupEnabled || s.warmupResetDone) &&
    s.stats.streamLatencySamplesCompleted + s.streamLatencySamplesInflight < cfg.latencySampleCount

/-- The streaming request to send: the one that waits, or the next one. -/
def stageStream (s : LatencyThroughputTrace G) : Except String (Req × LatencyThroughputTrace G) :=
  match s.retryStreamReq with
  | some req => .ok (req, s)
  | none => do
      let (type, s) := s.streamType cfg gen
      let req ← makeRequest cfg (streamingAddrVec cfg s.streamingIdx) type 0
      let sample := !cfg.streamingOnly && type == Request.read && s.shouldSampleStreamLatency cfg
      let req := if sample then { req with callback := some .streamSample } else req
      pure (req, { s with
        retryStreamReq := some req
        retryStreamReqTracksLatency :=
          if cfg.streamingOnly then s.retryStreamReqTracksLatency else sample })

/-- `tick_stream_only` and `tick_stream`, which differ in what they note of an accepted request. -/
def tickStream (s : LatencyThroughputTrace G) (mem : M) : Except String (LatencyThroughputTrace G × M) := do
  let (req, s) ← s.stageStream cfg gen
  let (accepted, req, mem) ← port.send req mem
  if accepted = false then pure ({ s with retryStreamReq := some req }, mem)
  else
    let s := { s with
      streamingIdx := s.streamingIdx + 1
      retryStreamReq := none
      stats := { s.stats with streamingSent := s.stats.streamingSent + 1 } }
    let inflight := s.streamLatencySamplesInflight + if s.retryStreamReqTracksLatency then 1 else 0
    let probeNext := s.issueProbe || cfg.latencyMeasureMode == .randomProbe
    if cfg.streamingOnly then pure (s, mem)
    else
      let s := { s with
        streamLatencySamplesInflight := inflight
        issueProbe := probeNext
        retryStreamReqTracksLatency := false }
      pure (s, mem)

/-- A probe is wanted: past the warmup, and not all samples are complete. -/
def wantProbe (s : LatencyThroughputTrace G) : Bool :=
  (!cfg.warmupEnabled || s.warmupResetDone) && s.stats.probesCompleted < cfg.latencySampleCount

/-- `tick_probe`. -/
def tickProbe (s : LatencyThroughputTrace G) (mem : M) : Except String (LatencyThroughputTrace G × M) :=
  if s.wantProbe cfg = false then .ok ({ s with issueProbe := false }, mem)
  else do
    let (req, s) ← match s.retryProbeReq with
      | some req => pure (req, s)
      | none => do
          let (av, g) := randomAddrVec cfg gen s.rng
          let req ← makeRequest cfg av Request.read 1
          pure ({ req with callback := some .probe }, { s with rng := g })
    let (accepted, req, mem) ← port.send req mem
    if accepted then
      pure ({ s with probeInflight := true, issueProbe := false, retryProbeReq := none }, mem)
    else pure ({ s with retryProbeReq := some req }, mem)

/-- `tick_nop`: the turn is skipped, and the phase after it. -/
def tickNop (s : LatencyThroughputTrace G) : Except String (Bool × LatencyThroughputTrace G) :=
  if s.issueProbe then .ok (false, s)
  else if cfg.nopCounter = 0 then .error "modulo by zero"
  else
    let isNop : Bool := cfg.nopCounter > 1 && s.currNop ≠ 0
    .ok (isNop, { s with
      currNop := (s.currNop + 1) % cfg.nopCounter
      issueProbe := s.issueProbe ^^ (isNop && cfg.latencyMeasureMode == .randomProbe) })

/-- `tick`. -/
def tick (x : LatencyThroughputTrace G × M) : Except String (LatencyThroughputTrace G × M) := do
  let (s, mem) := maybeResetWarmupStats cfg port { x.1 with clk := x.1.clk + 1 } x.2
  if cfg.streamingOnly then s.tickStream cfg gen port mem
  else
    let (isNop, s) ← s.tickNop cfg
    if isNop then pure (s, mem)
    else if cfg.latencyMeasureMode = .streamOnly then s.tickStream cfg gen port mem
    else if s.issueProbe && s.probeInflight then pure ({ s with issueProbe := false }, mem)
    else if s.issueProbe then s.tickProbe cfg gen port mem
    else s.tickStream cfg gen port mem

/-- `is_finished`. -/
def isFinished (s : LatencyThroughputTrace G) : Bool :=
  if cfg.warmupEnabled && !s.warmupResetDone then false
  else if cfg.streamingOnly then (s.stats.streamingSent : Int) ≥ cfg.numStreamingRequests
  else s.stats.latencySamplesCompleted ≥ cfg.latencySampleCount

/-- The callbacks: a latency is recorded. -/
def complete (callback : Callback) (latency : Int) (s : LatencyThroughputTrace G) :
    LatencyThroughputTrace G :=
  match callback with
  | .probe =>
      { s with
        probeInflight := false
        stats := { s.stats with
          totalProbeLatency := s.stats.totalProbeLatency + latency
          probesCompleted := s.stats.probesCompleted + 1
          latencySamplesCompleted := s.stats.latencySamplesCompleted + 1 } }
  | .streamSample =>
      { s with
        streamLatencySamplesInflight := s.streamLatencySamplesInflight - 1
        stats := { s.stats with
          totalStreamLatency := s.stats.totalStreamLatency + latency
          streamLatencySamplesCompleted := s.stats.streamLatencySamplesCompleted + 1
          latencySamplesCompleted := s.stats.latencySamplesCompleted + 1 } }

/-! ### Idle ticks -/

/-- `idle_step` for the tick at `clkNow`: whether it is idle, and the phase and the flag as the function
leaves them. -/
def idleStep (s : LatencyThroughputTrace G) (clkNow currNop : Int) (issueProbe : Bool) :
    Bool × Int × Bool :=
  if cfg.warmupEnabled && !s.warmupResetDone && cfg.warmupCycles < clkNow then
    (false, currNop, issueProbe)
  else if issueProbe = false then
    let isNop : Bool := cfg.nopCounter > 1 && currNop ≠ 0
    (isNop, (currNop + 1) % cfg.nopCounter, isNop)
  else if s.probeInflight then (true, currNop, false)
  else if s.wantProbe cfg = false then (true, currNop, false)
  else (false, currNop, issueProbe)

/-- The loop of `idle_ticks`, for at most the given number of ticks. -/
def idleFrom (s : LatencyThroughputTrace G) : Nat → Int → Int → Bool → Nat
  | 0, _, _, _ => 0
  | fuel + 1, clk, currNop, issueProbe =>
      match s.idleStep cfg (clk + 1) currNop issueProbe with
      | (true, currNop, issueProbe) => idleFrom s fuel (clk + 1) currNop issueProbe + 1
      | (false, _, _) => 0

/-- `idle_ticks`. -/
def idleTicks (maxUseful : Int) (s : LatencyThroughputTrace G) : Int :=
  if cfg.streamingOnly ∨ cfg.latencyMeasureMode ≠ .randomProbe then 0
  else if s.retryStreamReq.isSome ∨ s.retryProbeReq.isSome then 0
  else s.idleFrom cfg maxUseful.toNat s.clk s.currNop s.issueProbe

/-- One round of the loop of `fast_forward`. -/
def forward (s : LatencyThroughputTrace G) : LatencyThroughputTrace G :=
  let r := s.idleStep cfg (s.clk + 1) s.currNop s.issueProbe
  { s with clk := s.clk + 1, currNop := r.2.1, issueProbe := r.2.2 }

/-- `fast_forward`. -/
def fastForward (ticks : Int) (s : LatencyThroughputTrace G) : LatencyThroughputTrace G :=
  (forward cfg)^[ticks.toNat] s

/-! ### Runs -/

/-- What happens to the frontend: its ticks, and completions. -/
inductive Event where
  | tick
  | complete (callback : Callback) (latency : Int)

def step (e : Event) (x : LatencyThroughputTrace G × M) : Except String (LatencyThroughputTrace G × M) :=
  match e with
  | .tick => tick cfg gen port x
  | .complete callback latency => .ok (x.1.complete callback latency, x.2)

/-- The given number of ticks, with no completion between them. -/
def ticks (k : Nat) (x : LatencyThroughputTrace G × M) : Except String (LatencyThroughputTrace G × M) :=
  runAll (step cfg gen port) (List.replicate k .tick) x

/-! ## Idle ticks change the phase and the flag only -/

variable {cfg gen port} {s : LatencyThroughputTrace G} {mem : M}

/-- The machine ahead of a frontend and the one ahead of it after a round are one. -/
theorem idleFrom_forward (fuel : Nat) (clk currNop : Int) (issueProbe : Bool) :
    (s.forward cfg).idleFrom cfg fuel clk currNop issueProbe = s.idleFrom cfg fuel clk currNop issueProbe := by
  induction fuel generalizing clk currNop issueProbe with
  | zero => rfl
  | succ fuel ih =>
      unfold idleFrom
      rw [show (s.forward cfg).idleStep cfg = s.idleStep cfg from rfl]
      cases s.idleStep cfg (clk + 1) currNop issueProbe with
      | mk idle next =>
          cases idle with
          | false => rfl
          | true => exact congrArg (· + 1) (ih ..)

/-- The first idle tick, and the ones after it. -/
theorem idleFrom_succ {fuel k : Nat}
    (h : k + 1 ≤ s.idleFrom cfg fuel s.clk s.currNop s.issueProbe) :
    (s.idleStep cfg (s.clk + 1) s.currNop s.issueProbe).1 = true ∧ ∃ fuel', fuel = fuel' + 1 ∧
      s.idleFrom cfg fuel s.clk s.currNop s.issueProbe =
        (s.forward cfg).idleFrom cfg fuel' (s.forward cfg).clk (s.forward cfg).currNop
          (s.forward cfg).issueProbe + 1 := by
  cases fuel with
  | zero => exact absurd h (Nat.not_succ_le_zero k)
  | succ fuel =>
      have hunfold : s.idleFrom cfg (fuel + 1) s.clk s.currNop s.issueProbe =
          match s.idleStep cfg (s.clk + 1) s.currNop s.issueProbe with
          | (true, currNop, issueProbe) => s.idleFrom cfg fuel (s.clk + 1) currNop issueProbe + 1
          | (false, _, _) => 0 := rfl
      rw [hunfold] at h ⊢
      cases hstep : s.idleStep cfg (s.clk + 1) s.currNop s.issueProbe with
      | mk idle next =>
          cases idle with
          | false =>
              rw [hstep] at h
              exact absurd h (Nat.not_succ_le_zero k)
          | true =>
              refine ⟨rfl, fuel, rfl, ?_⟩
              have hforward : s.forward cfg =
                  { s with clk := s.clk + 1, currNop := next.1, issueProbe := next.2 } := by
                unfold forward
                rw [hstep]
              rw [idleFrom_forward, hforward]

/-- Without a warmup reset pending, none fires. -/
theorem maybeResetWarmupStats_of_idle
    (h : (cfg.warmupEnabled && !s.warmupResetDone && cfg.warmupCycles < s.clk) = false) :
    maybeResetWarmupStats cfg port s mem = (s, mem) := by
  unfold maybeResetWarmupStats
  rw [if_pos]
  rw [Bool.and_eq_false_iff, Bool.and_eq_false_iff, Bool.not_eq_false', decide_eq_false_iff_not] at h
  rcases h with (h | h) | h
  · exact .inl h
  · exact .inr (.inl h)
  · exact .inr (.inr (Int.not_lt.mp h))

/-- Where `idle_step` says so, `tick` does what a round of `fast_forward` does. -/
theorem tick_of_idle (hnop : 1 ≤ cfg.nopCounter) (hstream : cfg.streamingOnly = false)
    (hmode : cfg.latencyMeasureMode = .randomProbe)
    (hidle : (s.idleStep cfg (s.clk + 1) s.currNop s.issueProbe).1 = true) :
    tick cfg gen port (s, mem) = .ok (s.forward cfg, mem) := by
  have hnowarm : (cfg.warmupEnabled && !s.warmupResetDone && cfg.warmupCycles < s.clk + 1) = false := by
    by_contra hwarm
    rw [Bool.not_eq_false] at hwarm
    unfold idleStep at hidle
    rw [if_pos hwarm] at hidle
    cases hidle
  have hnozero : cfg.nopCounter ≠ 0 := by omega
  unfold tick forward
  rw [maybeResetWarmupStats_of_idle (s := { s with clk := s.clk + 1 }) hnowarm, hstream]
  unfold tickNop
  unfold idleStep at hidle ⊢
  rw [hnowarm] at hidle ⊢
  dsimp only at hidle ⊢
  cases hprobe : s.issueProbe with
  | false =>
      -- a stream turn that is idle is a skipped one
      rw [hprobe] at hidle
      have hskip : (decide (cfg.nopCounter > 1) && decide (s.currNop ≠ 0)) = true := hidle
      simp only [hskip, hmode, hnozero, Bool.false_eq_true, if_false, if_true]
      rfl
  | true =>
      rw [hprobe] at hidle
      cases hinflight : s.probeInflight with
      | true =>
          simp only [hmode, reduceCtorEq, Bool.false_eq_true, if_false, if_true]
          rfl
      | false =>
          have hwant : s.wantProbe cfg = false := by
            by_contra hwant
            rw [Bool.not_eq_false] at hwant
            simp [hinflight, hwant] at hidle
          unfold tickProbe
          simp only [bind, Except.bind, pure, Except.pure, hmode, hwant, reduceCtorEq, Bool.and_false,
            Bool.false_eq_true, if_false, if_true]
          exact if_pos hwant

/-- Ticks within the idle time are rounds of `fast_forward`. -/
theorem ticks_of_idleFrom (hnop : 1 ≤ cfg.nopCounter) (hstream : cfg.streamingOnly = false)
    (hmode : cfg.latencyMeasureMode = .randomProbe) {fuel k : Nat}
    (hk : k ≤ s.idleFrom cfg fuel s.clk s.currNop s.issueProbe) :
    ticks cfg gen port k (s, mem) = .ok ((forward cfg)^[k] s, mem) := by
  induction k generalizing s fuel with
  | zero => rfl
  | succ k ih =>
      obtain ⟨hidle, fuel', -, hrest⟩ := idleFrom_succ hk
      have htick : step cfg gen port .tick (s, mem) = .ok (s.forward cfg, mem) :=
        tick_of_idle hnop hstream hmode hidle
      unfold ticks at ih ⊢
      rw [List.replicate_succ]
      unfold runAll
      rw [htick]
      exact @ih (s.forward cfg) fuel' (by omega)

/-- More fuel, no less idle time. -/
theorem idleFrom_le_succ (fuel : Nat) (clk currNop : Int) (issueProbe : Bool) :
    s.idleFrom cfg fuel clk currNop issueProbe ≤ s.idleFrom cfg (fuel + 1) clk currNop issueProbe := by
  induction fuel generalizing clk currNop issueProbe with
  | zero => exact Nat.zero_le _
  | succ fuel ih =>
      unfold idleFrom
      cases s.idleStep cfg (clk + 1) currNop issueProbe with
      | mk idle next =>
          cases idle with
          | false => exact Nat.le_refl 0
          | true => exact Nat.succ_le_succ (ih ..)

/-- The idle time that is left after some of it. -/
theorem idleFrom_iterate {fuel j : Nat} (hj : j ≤ s.idleFrom cfg fuel s.clk s.currNop s.issueProbe) :
    s.idleFrom cfg fuel s.clk s.currNop s.issueProbe ≤
      ((forward cfg)^[j] s).idleFrom cfg fuel ((forward cfg)^[j] s).clk ((forward cfg)^[j] s).currNop
        ((forward cfg)^[j] s).issueProbe + j := by
  induction j generalizing s fuel with
  | zero => exact Nat.le_refl _
  | succ j ih =>
      obtain ⟨-, fuel', rfl, hrest⟩ := idleFrom_succ hj
      have hih := @ih (s.forward cfg) fuel' (by omega)
      have hmore := @idleFrom_le_succ _ cfg ((forward cfg)^[j] (s.forward cfg)) fuel'
        ((forward cfg)^[j] (s.forward cfg)).clk ((forward cfg)^[j] (s.forward cfg)).currNop
        ((forward cfg)^[j] (s.forward cfg)).issueProbe
      rw [hrest, Function.iterate_succ_apply]
      omega

theorem isFinished_iterate (k : Nat) : ((forward cfg)^[k] s).isFinished cfg = s.isFinished cfg := by
  induction k generalizing s with
  | zero => rfl
  | succ k ih => exact ih

/-- An idle time comes from the sweep with probes, and no request waits. -/
theorem idleTicks_pos {m : Int} (h : 0 < s.idleTicks cfg m) :
    cfg.streamingOnly = false ∧ cfg.latencyMeasureMode = .randomProbe ∧
      s.retryStreamReq = none ∧ s.retryProbeReq = none ∧
      s.idleTicks cfg m = s.idleFrom cfg m.toNat s.clk s.currNop s.issueProbe := by
  unfold idleTicks at h ⊢
  split_ifs at h ⊢ with hmode hretry
  · exact absurd h (Int.lt_irrefl 0)
  · exact absurd h (Int.lt_irrefl 0)
  · obtain ⟨hstream, hprobe⟩ := not_or.mp hmode
    obtain ⟨hs, hp⟩ := not_or.mp hretry
    exact ⟨(Bool.not_eq_true _).mp hstream, not_not.mp hprobe, Option.not_isSome_iff_eq_none.mp hs,
      Option.not_isSome_iff_eq_none.mp hp, rfl⟩

/-- `fast_forward` twice. -/
theorem fastForward_add (j k : Nat) :
    (s.fastForward cfg j).fastForward cfg k = s.fastForward cfg ((j + k : Nat) : Int) := by
  unfold fastForward
  rw [Int.toNat_natCast, Int.toNat_natCast, Int.toNat_natCast, Nat.add_comm, Function.iterate_add_apply]

/-- Within the idle time, ticks leave the state that `fast_forward` leaves, and with any memory system
they send nothing: they do not touch it. The frontend finishes in none of them. -/
theorem elision_exact (cfg : LatTp.Config) (gen : Rng G) (port : MemoryPort M)
    (s : LatencyThroughputTrace G) (mem : M) (hnop : 1 ≤ cfg.nopCounter) (m : Int) (k : Nat)
    (hk : k ≤ s.idleTicks cfg m) :
    ticks cfg gen port k (s, mem) = .ok (s.fastForward cfg k, mem) ∧
      (s.fastForward cfg k).isFinished cfg = s.isFinished cfg := by
  refine ⟨?_, isFinished_iterate _⟩
  rcases Nat.eq_zero_or_pos k with rfl | hpos
  · rfl
  · have hidle : 0 < s.idleTicks cfg m := by omega
    obtain ⟨hstream, hmode, -, -, hidle⟩ := idleTicks_pos hidle
    rw [hidle, Int.ofNat_le] at hk
    unfold fastForward
    rw [Int.toNat_natCast]
    exact ticks_of_idleFrom hnop hstream hmode hk

/-- A sweep over two banks with a stream turn in every three, and one probe. -/
def small : LatTp.Config where
  addrVecSize := 4
  bankPositions := [1]
  bankCounts := [2]
  totalBankUnits := 2
  rowPos := 2
  colPos := 3
  numRows := 4
  internalPrefetchSize := 8
  numCls := 8
  nopCounter := 3
  latencySampleCount := 1
  warmupCycles := 0
  txBytes := 64

/-- A generator that counts, and a memory system that accepts and counts. -/
def smallRng : Rng Nat where
  uniform b g := (g % (b + 1), g + 1)

def smallPort : MemoryPort Nat where
  send req mem := .ok (true, req, mem + 1)
  resetStats mem := mem

/-- After the stream request and the probe, four ticks are idle: two skipped stream turns, each with the
probe turn after it. -/
theorem elision_exact_small :
    ∃ s : LatencyThroughputTrace Nat,
      runAll (step small smallRng smallPort) [.tick, .tick] ({ rng := 5 }, 0) = .ok (s, 2) ∧
      s.idleTicks small 10 = 4 ∧
      ticks small smallRng smallPort 4 (s, 2) = .ok (s.fastForward small 4, 2) ∧
      (s.fastForward small 4).isFinished small = s.isFinished small := by
  refine ⟨_, rfl, ?_, ?_⟩
  · rfl
  · exact elision_exact small smallRng smallPort _ 2 (by decide) 10 4 (by decide)

/-- `fast_forward` leaves the requests that wait alone. -/
theorem fastForward_retry (j : Nat) :
    (s.fastForward cfg j).retryStreamReq = s.retryStreamReq ∧
      (s.fastForward cfg j).retryProbeReq = s.retryProbeReq := by
  unfold fastForward
  rw [Int.toNat_natCast]
  induction j generalizing s with
  | zero => exact ⟨rfl, rfl⟩
  | succ j ih => exact @ih (s.forward cfg)

/-- The idle time may be used up in any number of skips: what is left of it after one is still idle, and
two skips are one. -/
theorem elision_splits (cfg : LatTp.Config) (s : LatencyThroughputTrace G) (m : Int) (j k : Nat)
    (hk : ((j + k : Nat) : Int) ≤ s.idleTicks cfg m) :
    k ≤ (s.fastForward cfg j).idleTicks cfg m ∧
      (s.fastForward cfg j).fastForward cfg k = s.fastForward cfg ((j + k : Nat) : Int) := by
  refine ⟨?_, fastForward_add j k⟩
  obtain ⟨hkeepStream, hkeepProbe⟩ := @fastForward_retry _ cfg s j
  rcases Nat.eq_zero_or_pos k with rfl | hpos
  · unfold idleTicks
    split_ifs
    · exact Int.le_refl 0
    · exact Int.le_refl 0
    · exact Int.natCast_nonneg _
  · have hidle : 0 < s.idleTicks cfg m := by omega
    obtain ⟨hstream, hmode, hretryStream, hretryProbe, hidle⟩ := idleTicks_pos hidle
    rw [hidle, Int.ofNat_le] at hk
    have hleft := @idleFrom_iterate _ cfg s m.toNat j (by omega)
    unfold idleTicks
    rw [if_neg, if_neg, Int.ofNat_le]
    · unfold fastForward
      rw [Int.toNat_natCast]
      omega
    · rw [hkeepStream, hkeepProbe, hretryStream, hretryProbe]
      decide
    · rw [hstream, hmode]
      decide

end LatencyThroughputTrace

end Ramulator.Frontend
