/-
# Ramulator.Controller.BlockHammer — the controller that delays activations of hammered rows.

`BlockHammerController` (`controller/impl/blockhammer_controller.cpp`). Every bank has a rotating set
of counting Bloom filters and every rank a history of its last activations; a read or write whose row
is hot in the filter and recent in the history may not activate. The attack throttler is not here: it
only tells the last-level cache of the frontend what to do (`Ramulator.Controller.AttackThrottler`).
-/
import Ramulator.Controller.GenericDDR

namespace Ramulator.Controller

open Ramulator.Base (Request)
open Ramulator.Dram

variable {K : Type}

/-! ## Bloom filters -/

/-- A `CountingBloomFilter`. Its constructor initializes `m_saturate` with itself, so whether it
saturates is whatever was in memory; the constructor's argument is lost. -/
structure CountingBloomFilter where
  numCounters : UInt32
  ctrThresh : UInt32
  saturate : Bool
  hashFunctions : List (UInt32 → UInt32)
  counters : UInt32 → UInt32 := fun _ => 0

namespace CountingBloomFilter

def index (f : CountingBloomFilter) (hash : UInt32 → UInt32) (elem : Int) : UInt32 :=
  hash (UInt32.ofInt elem) % f.numCounters

def insertAt (f : CountingBloomFilter) (idx : UInt32) : CountingBloomFilter :=
  if f.saturate = false ∨ f.counters idx < f.ctrThresh then
    { f with counters := Function.update f.counters idx (f.counters idx + 1) }
  else f

def insert (elem : Int) (f : CountingBloomFilter) : CountingBloomFilter :=
  f.hashFunctions.foldl (fun f hash => f.insertAt (f.index hash elem)) f

def test (f : CountingBloomFilter) (elem : Int) : Bool :=
  f.hashFunctions.all fun hash => f.ctrThresh ≤ f.counters (f.index hash elem)

def reset (f : CountingBloomFilter) : CountingBloomFilter := { f with counters := fun _ => 0 }

end CountingBloomFilter

/-- `UnifiedBloomFilter`: several filters, of which one is tested; when an epoch ends that one is
reset and the next one takes over. -/
structure UnifiedBloomFilter where
  lenEpoch : Nat
  filters : List CountingBloomFilter
  tick : Nat := 0
  testIdx : Nat := 0

namespace UnifiedBloomFilter

def update (u : UnifiedBloomFilter) : UnifiedBloomFilter :=
  if u.lenEpoch ≤ u.tick + 1 then
    { u with
      tick := 0
      filters := u.filters.modify u.testIdx (·.reset)
      testIdx := (u.testIdx + 1) % u.filters.length }
  else { u with tick := u.tick + 1 }

def insert (elem : Int) (u : UnifiedBloomFilter) : UnifiedBloomFilter :=
  { u with filters := u.filters.map (·.insert elem) }

def test (u : UnifiedBloomFilter) (elem : Int) : Bool :=
  (u.filters[u.testIdx]?).any (·.test elem)

end UnifiedBloomFilter

/-! ## History buffer -/

/-- `HistoryBuffer`: a ring of the rows activated in the last `size` ticks, with how often each of them
is in it. -/
structure HistoryBuffer where
  size : Nat
  maxFreq : Nat
  history : List Int
  elemCounter : Int → Option Nat := fun _ => none
  tick : Nat := 0

namespace HistoryBuffer

def create (size maxFreq : Nat) : HistoryBuffer where
  size := size
  maxFreq := maxFreq
  history := List.replicate size (-1)

def search (h : HistoryBuffer) (elem : Int) : Bool := (h.elemCounter elem).any (h.maxFreq ≤ ·)

def insert (elem : Int) (h : HistoryBuffer) : HistoryBuffer :=
  { h with
    history := h.history.set (h.tick % h.size) elem
    elemCounter := Function.update h.elemCounter elem (some ((h.elemCounter elem).getD 0 + 1)) }

/-- The slot of the new tick is given up. It is not cleared. -/
def update (h : HistoryBuffer) : HistoryBuffer :=
  let tick := h.tick + 1
  let evicted := h.history.getD (tick % h.size) (-1)
  match h.elemCounter evicted with
  | none => { h with tick := tick }
  | some n =>
      { h with
        tick := tick
        elemCounter := Function.update h.elemCounter evicted (if n = 1 then none else some (n - 1)) }

end HistoryBuffer

/-! ## The controller -/

/-- The parameters, with those that `setup` derives by float arithmetic (`bf_len_epoch_clk` and
`bf_hist_size`) as it derives them. `saturate bank i` is what filter `i` of a bank finds in memory. -/
structure BlockHammerConfig where
  bfNumFilters : Nat
  bfLenEpochClk : Nat
  bfCtrCount : UInt32
  bfCtrThresh : UInt32
  bfNumHashes : Nat
  bfHistSize : Nat
  bfHistMaxFreq : Nat
  rankLevel : Nat
  saturate : Int → Nat → Bool

structure BlockHammerState where
  bankFilters : Int → UnifiedBloomFilter
  rankHistory : Int → HistoryBuffer

namespace BlockHammerConfig

/-- The `i`-th hash function. -/
def hashFunction (bh : BlockHammerConfig) (i : Nat) (key : UInt32) : UInt32 :=
  key * 2654435761 + UInt32.ofNat i * ((key * 2246822519 % (bh.bfCtrCount - 1)) + 1)

/-- The fields after `setup`. -/
def init (bh : BlockHammerConfig) : BlockHammerState where
  bankFilters := fun bank =>
    { lenEpoch := bh.bfLenEpochClk
      filters := (List.range bh.bfNumFilters).map fun i =>
        { numCounters := bh.bfCtrCount
          ctrThresh := bh.bfCtrThresh
          saturate := bh.saturate bank i
          hashFunctions := (List.range bh.bfNumHashes).map bh.hashFunction } }
  rankHistory := fun _ => HistoryBuffer.create bh.bfHistSize bh.bfHistMaxFreq

/-- The detection state moves on. -/
def update (s : BlockHammerState) : BlockHammerState where
  bankFilters := fun bank => (s.bankFilters bank).update
  rankHistory := fun rank => (s.rankHistory rank).update

/-- `is_act_safe`. -/
def isActSafe (cfg : Config) (bh : BlockHammerConfig) (s : BlockHammerState) (e : Entry K) : Bool :=
  if e.cmd.commandMeta.isOpening = false then true
  else
    let row := e.addrVec.coord cfg.spec.rowLevel
    !(s.bankFilters (ControllerBase.bankOf cfg e)).test row ||
      !(s.rankHistory (e.addrVec.coord bh.rankLevel)).search row

/-- `observe_act`: an activation is inserted in the history and in the filters. -/
def observeAct (cfg : Config) (bh : BlockHammerConfig) (e : Entry K) (s : BlockHammerState) :
    BlockHammerState :=
  if e.cmd.commandMeta.isOpening = false then s
  else
    let bank := ControllerBase.bankOf cfg e
    let rank := e.addrVec.coord bh.rankLevel
    let row := e.addrVec.coord cfg.spec.rowLevel
    { bankFilters := Function.update s.bankFilters bank ((s.bankFilters bank).insert row)
      rankHistory := Function.update s.rankHistory rank ((s.rankHistory rank).insert row) }

/-- The choice of the candidate: only reads and writes are vetoed. -/
def schedule (cfg : Config) (bh : BlockHammerConfig) (own : BlockHammerState) (s : ControllerBase K) :
    ControllerBase K × Option (Buf × Nat) :=
  s.scheduleWith cfg (some fun _ => true) (fun _ => true) (bh.isActSafe cfg own)

/-- Serve what `schedule` found, and observe the issued command. -/
def serve (cfg : Config) (bh : BlockHammerConfig) (onIssue : List (Request Command K))
    (own : BlockHammerState) :
    ControllerBase K × Option (Buf × Nat) → Except String (Derived K BlockHammerState)
  | (s, none) => .ok ⟨s, own⟩
  | (s, some (b, i)) =>
      match (s.bufs b)[i]? with
      | none => .ok ⟨s, own⟩
      | some e =>
          let issued := (s.prepare cfg b i e).1
          (s.serveCandidate cfg onIssue b i e).map fun s => ⟨s, bh.observeAct cfg issued own⟩

end BlockHammerConfig

/-- `BlockHammerController::tick`. -/
def blockHammerTick (cfg : Config) (bh : BlockHammerConfig) (inputs : TickInputs K)
    (s : Derived K BlockHammerState) : Except String (Derived K BlockHammerState) := do
  let base ← s.base.preTick cfg inputs
  let own := BlockHammerConfig.update s.own
  let s ← bh.serve cfg inputs.onIssue own (bh.schedule cfg own base)
  let base ← s.base.prioritySendAll cfg inputs.postSchedule
  pure { s with base := base }

end Ramulator.Controller
