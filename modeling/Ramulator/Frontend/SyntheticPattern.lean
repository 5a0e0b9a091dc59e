/-
# Ramulator.Frontend.SyntheticPattern — streams of generated requests, and what of them is timing.

`SyntheticPattern` (`frontend/impl/memory_trace/synthetic_pattern.cpp`) drives the memory system with
independent streams. The addresses of a stream and its random choices are functions of the index of the
read, and two memory systems are compared on the requests of one pattern. So each stream must hand over
the same reads in the same order, and the same set of writes, whatever the memory does.

For the reads, and for the writes that belong to a read when it is issued, this is so. The writebacks of
`wb_mode` 1 are decided when a read completes, by the number of reads completed so far and by the regime
then in force: which reads are written back depends on the order of completion.
-/
import Ramulator.Dram.Command
import Ramulator.Base.Request
import Ramulator.Lib.Run
import Mathlib.Logic.Function.Basic
import Mathlib.Data.List.Nodup

namespace Ramulator.Frontend.Pattern

open Ramulator.Base (Request)
open Ramulator.Dram Ramulator.Lib

/-! ## Streams -/

/-- The axes of a stream. `depFrac` is the integer part of `dep_frac * 10000`, zero if that is negative. -/
structure Axes where
  mlp : Int := 16
  thinkTime : Int := 0
  jitter : Int := 0
  rowRun : Int := 32
  bankSpread : Int := 1
  bankRandom : Bool := false
  rowRandom : Bool := false
  depFrac : Nat := 0
  wfracPct : Int := 0
  wbMode : Int := 0
  wbBatch : Int := 1
  phaseOn : Int := 0
  phaseOff : Int := 0
  phaseOffRandom : Int := 0
  ppLead : Int := 40

/-- The fields of a stream that its run does not change. -/
structure StreamConfig where
  id : Nat
  a : Axes
  b : Axes
  modeSwitch : Int
  numRequests : Int
  seed : UInt64
  bankBase : Int
  rowBase : Int

namespace StreamConfig

/-- `cur`: the regime for the read with the given index. -/
def cur (sc : StreamConfig) (readsIssued : Nat) : Axes :=
  if sc.modeSwitch ≤ 0 then sc.a
  else if readsIssued / sc.modeSwitch % 2 = 0 then sc.a
  else sc.b

/-- `hash_of`. -/
def hashOf (sc : StreamConfig) (i : Nat) (salt : UInt64) : UInt64 :=
  let x := sc.seed * 0x9E3779B97F4A7C15 + salt * 0xBF58476D1CE4E5B9 + UInt64.ofNat i * 0x94D049BB133111EB
  let x := (x ^^^ (x >>> 30)) * 0xBF58476D1CE4E5B9
  let x := (x ^^^ (x >>> 27)) * 0x94D049BB133111EB
  x ^^^ (x >>> 31)

/-- `hash_of(st, i, salt) % n` for a positive `n`. -/
def draw (sc : StreamConfig) (i : Nat) (salt : UInt64) (n : Int) : Int :=
  ((sc.hashOf i salt).toNat % n.toNat : Nat)

def isDependent (sc : StreamConfig) (ax : Axes) (i : Nat) : Bool := sc.draw i 1 10000 < ax.depFrac

def jitterOf (sc : StreamConfig) (ax : Axes) (i : Nat) : Int :=
  if ax.jitter > 0 then sc.draw i 2 (ax.jitter + 1) else 0

def wantWriteback (sc : StreamConfig) (ax : Axes) (i : Nat) : Bool :=
  0 < ax.wfracPct && sc.draw i 3 100 < ax.wfracPct

end StreamConfig

/-! ## Addresses -/

/-- The address recipe, and the memory system's transaction size. -/
structure Recipe where
  addrVecSize : Nat
  bankPositions : List Nat
  bankCounts : List Int
  totalBankUnits : Int
  rowPos : Nat
  colPos : Nat
  numRows : Int
  numCls : Int
  internalPrefetchSize : Int
  rowsPerStream : Int
  txBytes : Int

/-- What a request calls back. -/
inductive Callback where
  | readDone (stream : Nat)
  | writeDone
  deriving DecidableEq, Repr

abbrev Req := Request Command Callback

namespace Recipe

/-- `compose`: the last bank position turns fastest. -/
def compose (rc : Recipe) (flatBank row cl : Int) : AddrVec :=
  let banks := (rc.bankPositions.zip rc.bankCounts).reverse.foldl
    (fun (acc : AddrVec × Int) p => (acc.1.set p.1 (acc.2 % p.2), acc.2 / p.2))
    (List.replicate rc.addrVecSize 0, flatBank % rc.totalBankUnits)
  (banks.1.set rc.rowPos (row % rc.numRows)).set rc.colPos (cl * rc.internalPrefetchSize)

def bankOf (sc : StreamConfig) (ax : Axes) (i : Nat) : Int :=
  if ax.bankRandom then sc.draw i 4 ax.bankSpread else i % ax.bankSpread

/-- The rows of a stream's half-region. -/
def region (rc : Recipe) : Int := max (rc.rowsPerStream / 2) 1

def readAddrVec (rc : Recipe) (sc : StreamConfig) (ax : Axes) (i : Nat) : AddrVec :=
  let bank := bankOf sc ax i
  let p := i / ax.bankSpread
  let row := if ax.rowRandom then sc.draw (p / ax.rowRun * ax.bankSpread + bank).toNat 5 rc.region
    else p / ax.rowRun % rc.region
  rc.compose (sc.bankBase + bank) (sc.rowBase + row) (p % ax.rowRun)

/-- Writes go to the other half of the stream's rows, in mode 3 to other banks as well. -/
def writeAddrVec (rc : Recipe) (sc : StreamConfig) (ax : Axes) (i : Nat) : AddrVec :=
  let bank := if ax.wbMode = 3 then bankOf sc ax i + ax.bankSpread else bankOf sc ax i
  let p := i / ax.bankSpread
  rc.compose (sc.bankBase + bank) (sc.rowBase + (p / ax.rowRun % rc.region + rc.region)) (p % ax.rowRun)

/-- `make_request`. -/
def makeRequest (rc : Recipe) (av : AddrVec) (type : Int) (sourceId : Nat) (callback : Callback) : Req :=
  let bankFlat := (rc.bankPositions.zip rc.bankCounts).foldl (fun acc p => acc * p.2 + av.coord p.1) 0
  { (Request.ofAddrVec av type : Req) with
    addr := bankFlat * rc.numRows * rc.numCls + av.coord rc.rowPos * rc.numCls +
      av.coord rc.colPos / rc.internalPrefetchSize
    sourceId := sourceId
    sizeBytes := rc.txBytes
    callback := some callback }

/-- The read of a stream with index `i`. -/
def readRequest (rc : Recipe) (sc : StreamConfig) (i : Nat) : Req :=
  rc.makeRequest (rc.readAddrVec sc (sc.cur i) i) Request.read sc.id (.readDone sc.id)

/-- A write to the given place. -/
def writeRequest (rc : Recipe) (sc : StreamConfig) (av : AddrVec) : Req :=
  rc.makeRequest av Request.write sc.id .writeDone

end Recipe

/-! ## The run of a stream -/

/-- The fields of a stream that change. -/
structure Stream where
  readsIssued : Nat := 0
  outstanding : Int := 0
  depWait : Bool := false
  retryRead : Bool := false
  retryWrite : Bool := false
  ppSent : Bool := false
  nextIssue : Int := 0
  phaseResume : Int := 0
  wbQueue : List AddrVec := []
  pendingRead : Req := {}
  pendingWrite : Req := {}
  readsDone : Nat := 0
  writesSent : Nat := 0
  totalLat : Int := 0

namespace Stream

variable (rc : Recipe) (sc : StreamConfig)

def finished (st : Stream) : Bool :=
  st.readsIssued ≥ sc.numRequests && st.outstanding = 0 && st.wbQueue.isEmpty && !st.retryWrite

/-- Take the next write out of the queue, unless one is waiting. -/
def stageWrite (st : Stream) : Except String Stream :=
  if st.retryWrite then .ok st
  else
    match st.wbQueue with
    | [] => .error "front of an empty queue"
    | av :: rest =>
        .ok { st with pendingWrite := rc.writeRequest sc av, wbQueue := rest, retryWrite := true }

/-- The answer to a staged write. The request comes back if it was accepted. -/
def sendWrite (accept : Bool) (st : Stream) : Stream × Option Req :=
  if accept then
    ({ st with writesSent := st.writesSent + 1, retryWrite := false }, some st.pendingWrite)
  else (st, none)

/-- Mode 4: the write that leads a group of reads. -/
def sendLead (clk : Int) (accept : Bool) (st : Stream) : Stream × Option Req :=
  let ax := sc.cur st.readsIssued
  if accept then
    ({ st with writesSent := st.writesSent + 1, ppSent := true, nextIssue := clk + ax.ppLead },
      some (rc.writeRequest sc (rc.writeAddrVec sc ax st.readsIssued)))
  else (st, none)

/-- Make the next read, unless one is waiting. -/
def stageRead (st : Stream) : Stream :=
  if st.retryRead then st
  else { st with pendingRead := rc.readRequest sc st.readsIssued, retryRead := true }

/-- The off time after the read with index `i`. -/
def phaseOffAfter (ax : Axes) (i : Nat) : Int :=
  ax.phaseOff +
    if ax.phaseOffRandom > 0 then sc.draw (i / ax.phaseOn).toNat 6 (ax.phaseOffRandom + 1) else 0

/-- The answer to a staged read. Everything that follows from it uses the regime of the read. -/
def sendRead (clk : Int) (accept : Bool) (st : Stream) : Stream × Option Req :=
  let ax := sc.cur st.readsIssued
  let i := st.readsIssued
  if accept then
    ({ st with
        retryRead := false
        outstanding := st.outstanding + 1
        readsIssued := i + 1
        ppSent := false
        nextIssue := clk + ax.thinkTime + sc.jitterOf ax i
        depWait := st.depWait || sc.isDependent ax (i + 1)
        wbQueue := if ax.wbMode ≥ 2 && sc.wantWriteback ax i then
          st.wbQueue ++ [rc.writeAddrVec sc ax i] else st.wbQueue
        phaseResume := if ax.phaseOn > 0 ∧ ((i + 1 : Nat) : Int) % ax.phaseOn = 0 then
          clk + phaseOffAfter sc ax (i + 1) else st.phaseResume },
      some st.pendingRead)
  else (st, none)

/-- `try_stream`: nothing if no send is attempted, else the stream after it and the request that the
memory system took. -/
def tryStream (clk : Int) (accept : Bool) (st : Stream) : Except String (Option (Stream × Option Req)) :=
  let ax := sc.cur st.readsIssued
  let drainTail : Bool := st.readsIssued ≥ sc.numRequests
  if clk < st.phaseResume then .ok none
  else if st.retryWrite || st.wbQueue.length ≥ ax.wbBatch || (drainTail && !st.wbQueue.isEmpty) then
    (st.stageWrite rc sc).map fun st => some (st.sendWrite accept)
  else if drainTail || st.outstanding ≥ ax.mlp || clk < st.nextIssue then .ok none
  else if ax.wbMode = 4 ∧ st.ppSent = false ∧ st.readsIssued % ax.rowRun = 0 then
    .ok (some (st.sendLead rc sc clk accept))
  else if st.depWait && st.outstanding > 0 then .ok none
  else .ok (some (({ st with depWait := false }.stageRead rc sc).sendRead rc sc clk accept))

/-- The read callback: a write back of the same line is decided by the number of completed reads and the
regime now. -/
def writesBack (readsIssued readsDone : Nat) : Bool :=
  (sc.cur readsIssued).wbMode = 1 && sc.wantWriteback (sc.cur readsIssued) readsDone

def readDone (addrVec : AddrVec) (latency : Int) (st : Stream) : Stream :=
  { st with
    outstanding := st.outstanding - 1
    readsDone := st.readsDone + 1
    totalLat := st.totalLat + latency
    wbQueue := if writesBack sc st.readsIssued (st.readsDone + 1) then st.wbQueue ++ [addrVec]
      else st.wbQueue }

end Stream

/-! ## The frontend and a memory system -/

structure PatternConfig where
  recipe : Recipe
  streams : List StreamConfig

/-- The frontend, with what the memory system has accepted of each stream, and which of the reads it has
not completed yet, by their place among the accepted reads. -/
structure SyntheticPattern where
  clk : Int := 0
  rr : Nat := 0
  streams : Nat → Stream := fun _ => {}
  readsSent : Nat := 0
  writesSent : Nat := 0
  readsDone : Nat := 0
  writesDone : Nat := 0
  totalReadLatency : Int := 0
  acceptedReads : Nat → List Req := fun _ => []
  acceptedWrites : Nat → List Req := fun _ => []
  inFlight : Nat → List Nat := fun _ => []

namespace SyntheticPattern

variable (cfg : PatternConfig)

/-- `is_finished`. -/
def isFinished (s : SyntheticPattern) : Bool :=
  (cfg.streams.zipIdx.all fun x => (s.streams x.2).finished x.1) && s.writesDone = s.writesSent

/-- What an attempt of stream `j` leaves behind. -/
def attempted (j : Nat) (r : Stream × Option Req) (s : SyntheticPattern) : SyntheticPattern :=
  let s := { s with streams := Function.update s.streams j r.1 }
  match r.2 with
  | none => s
  | some req =>
      if req.typeId = Request.read then
        { s with
          readsSent := s.readsSent + 1
          inFlight := Function.update s.inFlight j (s.inFlight j ++ [(s.acceptedReads j).length])
          acceptedReads := Function.update s.acceptedReads j (s.acceptedReads j ++ [req]) }
      else
        { s with
          writesSent := s.writesSent + 1
          acceptedWrites := Function.update s.acceptedWrites j (s.acceptedWrites j ++ [req]) }

/-- The loop of `tick` over the streams from the `k`-th one in turn. -/
def tryFrom (accept : Bool) (s : SyntheticPattern) : List Nat → Except String SyntheticPattern
  | [] => .ok s
  | k :: ks =>
      let j := (s.rr + k) % cfg.streams.length
      match cfg.streams[j]? with
      | none => .error "no such stream"
      | some sc => do
          match ← (s.streams j).tryStream cfg.recipe sc s.clk accept with
          | some r => pure { s.attempted j r with rr := (s.rr + k + 1) % cfg.streams.length }
          | none => tryFrom accept s ks

/-- `tick`: at most one attempt to send, which the memory system takes or not. -/
def tick (accept : Bool) (s : SyntheticPattern) : Except String SyntheticPattern :=
  tryFrom cfg accept { s with clk := s.clk + 1 } (List.range cfg.streams.length)

/-- What can happen: a tick with the memory system's answer, and completions, in any order. The read
that completes is the `i`-th accepted one of stream `j`. -/
inductive Event where
  | tick (accept : Bool)
  | readDone (j i : Nat) (latency : Int)
  | writeDone

def step (e : Event) (s : SyntheticPattern) : Except String SyntheticPattern :=
  match e with
  | .tick accept => tick cfg accept s
  | .readDone j i latency =>
      match cfg.streams[j]?, (s.acceptedReads j)[i]? with
      | some sc, some req =>
          if i ∈ s.inFlight j then
            .ok { s with
              streams := Function.update s.streams j ((s.streams j).readDone sc req.addrVec latency)
              readsDone := s.readsDone + 1
              totalReadLatency := s.totalReadLatency + latency
              inFlight := Function.update s.inFlight j ((s.inFlight j).erase i) }
          else .error "not in flight"
      | _, _ => .error "not accepted"
  | .writeDone =>
      if s.writesDone < s.writesSent then .ok { s with writesDone := s.writesDone + 1 }
      else .error "no write in flight"

/-- The states of the runs whose events are allowed. -/
def ReachedIf (allowed : SyntheticPattern → Event → Prop) : SyntheticPattern → Prop :=
  Reachable {} fun s e s' => allowed s e ∧ step cfg e s = .ok s'

/-- The completion of a read decides about its writeback as in a run that has one read in flight at a
time. -/
def InTurn (s : SyntheticPattern) : Event → Prop
  | .readDone j i _ => ∀ sc, cfg.streams[j]? = some sc →
      Stream.writesBack sc (s.streams j).readsIssued ((s.streams j).readsDone + 1) =
        Stream.writesBack sc (i + 1) (i + 1)
  | _ => True

instance (s : SyntheticPattern) (e : Event) : Decidable (InTurn cfg s e) :=
  match e with
  | .readDone j _ _ => inferInstanceAs (Decidable (∀ sc ∈ cfg.streams[j]?, _ = _))
  | .tick _ => inferInstanceAs (Decidable True)
  | .writeDone => inferInstanceAs (Decidable True)

end SyntheticPattern

/-! ## The requests that the index fixes -/

namespace StreamConfig

/-- The read with index `i` is led by a write. -/
def Leads (sc : StreamConfig) (i : Nat) : Prop := (sc.cur i).wbMode = 4 ∧ i % (sc.cur i).rowRun = 0

/-- The read with index `i` brings a write with it when it is issued. -/
def Posts (sc : StreamConfig) (i : Nat) : Prop :=
  (sc.cur i).wbMode ≥ 2 ∧ sc.wantWriteback (sc.cur i) i = true

/-- The read with index `i` is written back in a run that has one read in flight at a time. -/
def Returns (sc : StreamConfig) (i : Nat) : Prop := Stream.writesBack sc (i + 1) (i + 1) = true

/-- The number of reads of a complete run. -/
def total (sc : StreamConfig) : Nat := sc.numRequests.toNat

end StreamConfig

namespace Recipe

variable (rc : Recipe) (sc : StreamConfig)

/-- The write that leads or follows the read with index `i`. -/
def companion (i : Nat) : Req := rc.writeRequest sc (rc.writeAddrVec sc (sc.cur i) i)

/-- The write back of the read with index `i`. -/
def writeback (i : Nat) : Req := rc.writeRequest sc (rc.readAddrVec sc (sc.cur i) i)

/-- The reads of a complete run, in order. -/
def readCohort : List Req := (List.range sc.total).map (rc.readRequest sc)

/-- The writes of a complete run. -/
def WriteCohort (w : Req) : Prop :=
  ∃ i < sc.total, (w = rc.companion sc i ∧ (sc.Leads i ∨ sc.Posts i)) ∨ (w = rc.writeback sc i ∧ sc.Returns i)

end Recipe

/-! ## One stream -/

section Tracks

variable {turned : Prop} {rc : Recipe} {sc : StreamConfig} {st st' : Stream} {reads writes : List Req}
  {inFlight : List Nat} {clk : Int} {accept : Bool} {w : Req} {i : Nat}

/-- The write has been accepted, or waits to be sent. -/
def Held (rc : Recipe) (sc : StreamConfig) (st : Stream) (writes : List Req) (w : Req) : Prop :=
  w ∈ writes ∨ (st.retryWrite = true ∧ w = st.pendingWrite) ∨ ∃ av ∈ st.wbQueue, w = rc.writeRequest sc av

/-- The write belongs to a read that has got far enough: it leads it, it came with it, or it is the
writeback of a completed read. -/
def Due (rc : Recipe) (sc : StreamConfig) (st : Stream) (inFlight : List Nat) (w : Req) : Prop :=
  (∃ i < st.readsIssued, w = rc.companion sc i ∧ (sc.Leads i ∨ sc.Posts i)) ∨
    (st.ppSent = true ∧ w = rc.companion sc st.readsIssued) ∨
    ∃ i < st.readsIssued, i ∉ inFlight ∧ w = rc.writeback sc i ∧ sc.Returns i

/-- What is known of a stream, of what was accepted of it and of what is in flight. The reads need
nothing, and what is said of the writes holds if the completions were `turned`, all in turn. -/
structure Track (turned : Prop) (rc : Recipe) (sc : StreamConfig) (st : Stream) (reads writes : List Req)
    (inFlight : List Nat) : Prop where
  reads_eq : reads = (List.range st.readsIssued).map (rc.readRequest sc)
  issued_le : st.readsIssued ≤ sc.total
  pendingRead : st.retryRead = true → st.pendingRead = rc.readRequest sc st.readsIssued
  pendingWrite : st.retryWrite = true → st.pendingWrite.typeId = Request.write
  lead : st.ppSent = true → sc.Leads st.readsIssued ∧ st.readsIssued < sc.total
  nodup : inFlight.Nodup
  inFlight_lt : ∀ i ∈ inFlight, i < st.readsIssued
  outstanding : st.outstanding = inFlight.length
  writes_iff : turned → ∀ w, Held rc sc st writes w ↔ Due rc sc st inFlight w

theorem track_start (turned : Prop) (rc : Recipe) (sc : StreamConfig) :
    Track turned rc sc {} [] [] [] where
  reads_eq := rfl
  issued_le := Nat.zero_le _
  pendingRead := nofun
  pendingWrite := nofun
  lead := nofun
  nodup := List.nodup_nil
  inFlight_lt := nofun
  outstanding := rfl
  writes_iff _ w := by
    constructor
    · rintro (h | ⟨h, -⟩ | ⟨av, h, -⟩) <;> cases h
    · rintro (⟨i, hi, -⟩ | ⟨h, -⟩ | ⟨i, hi, -⟩)
      · exact absurd hi (Nat.not_lt_zero i)
      · cases h
      · exact absurd hi (Nat.not_lt_zero i)

/-- Staging a write moves it from the queue to the slot. -/
theorem Track.stageWrite (h : Track turned rc sc st reads writes inFlight)
    (hstage : st.stageWrite rc sc = .ok st') :
    Track turned rc sc st' reads writes inFlight ∧ st'.retryWrite = true := by
  unfold Stream.stageWrite at hstage
  split_ifs at hstage with hretry
  · cases hstage
    exact ⟨h, hretry⟩
  · cases hqueue : st.wbQueue with
    | nil =>
        simp only [hqueue] at hstage
        cases hstage
    | cons av rest =>
        simp only [hqueue] at hstage
        cases hstage
        refine ⟨⟨h.reads_eq, h.issued_le, h.pendingRead, fun _ => rfl, h.lead, h.nodup, h.inFlight_lt,
          h.outstanding, fun hturned w => ?_⟩, rfl⟩
        refine Iff.trans ?_ (h.writes_iff hturned w)
        unfold Held
        rw [hqueue]
        constructor
        · rintro (hw | ⟨-, rfl⟩ | ⟨av', hav', rfl⟩)
          · exact .inl hw
          · exact .inr (.inr ⟨av, List.mem_cons_self, rfl⟩)
          · exact .inr (.inr ⟨av', List.mem_cons_of_mem _ hav', rfl⟩)
        · rintro (hw | ⟨hretry', -⟩ | ⟨av', hav', rfl⟩)
          · exact .inl hw
          · exact absurd hretry' hretry
          · rcases List.mem_cons.mp hav' with rfl | hrest
            · exact .inr (.inl ⟨rfl, rfl⟩)
            · exact .inr (.inr ⟨av', hrest, rfl⟩)

/-- The stream after an attempt, with what the memory system took. -/
def Follows (turned : Prop) (rc : Recipe) (sc : StreamConfig) (reads writes : List Req) (inFlight : List Nat) :
    Stream × Option Req → Prop
  | (st, none) => Track turned rc sc st reads writes inFlight
  | (st, some r) =>
      if r.typeId = Request.read then Track turned rc sc st (reads ++ [r]) writes (inFlight ++ [reads.length])
      else Track turned rc sc st reads (writes ++ [r]) inFlight

theorem Track.sendWrite (h : Track turned rc sc st reads writes inFlight) (hretry : st.retryWrite = true) :
    Follows turned rc sc reads writes inFlight (st.sendWrite accept) := by
  cases accept with
  | false => exact h
  | true =>
      show if st.pendingWrite.typeId = Request.read then _ else _
      rw [if_neg (by rw [h.pendingWrite hretry]; decide)]
      refine ⟨h.reads_eq, h.issued_le, h.pendingRead, nofun, h.lead, h.nodup, h.inFlight_lt, h.outstanding,
        fun hturned w => Iff.trans ?_ (h.writes_iff hturned w)⟩
      unfold Held
      rw [List.mem_append, List.mem_singleton]
      constructor
      · rintro ((hw | rfl) | ⟨hretry', -⟩ | hw)
        · exact .inl hw
        · exact .inr (.inl ⟨hretry, rfl⟩)
        · cases hretry'
        · exact .inr (.inr hw)
      · rintro (hw | ⟨-, rfl⟩ | hw)
        · exact .inl (.inl hw)
        · exact .inl (.inr rfl)
        · exact .inr (.inr hw)

theorem Track.sendLead (h : Track turned rc sc st reads writes inFlight) (hlead : sc.Leads st.readsIssued)
    (hlt : st.readsIssued < sc.total) (hunsent : st.ppSent = false) :
    Follows turned rc sc reads writes inFlight (st.sendLead rc sc clk accept) := by
  cases accept with
  | false => exact h
  | true =>
      show Track _ _ _ _ reads (writes ++ [rc.companion sc st.readsIssued]) inFlight
      refine ⟨h.reads_eq, h.issued_le, h.pendingRead, h.pendingWrite, fun _ => ⟨hlead, hlt⟩, h.nodup,
        h.inFlight_lt, h.outstanding, fun hturned w => ?_⟩
      have hold := h.writes_iff hturned w
      unfold Held Due at hold ⊢
      rw [hunsent] at hold
      rw [List.mem_append, List.mem_singleton]
      constructor
      · rintro ((hw | rfl) | hw | hw)
        · rcases hold.mp (.inl hw) with hdue | ⟨hfalse, -⟩ | hdue
          · exact .inl hdue
          · cases hfalse
          · exact .inr (.inr hdue)
        · exact .inr (.inl ⟨rfl, rfl⟩)
        · rcases hold.mp (.inr (.inl hw)) with hdue | ⟨hfalse, -⟩ | hdue
          · exact .inl hdue
          · cases hfalse
          · exact .inr (.inr hdue)
        · rcases hold.mp (.inr (.inr hw)) with hdue | ⟨hfalse, -⟩ | hdue
          · exact .inl hdue
          · cases hfalse
          · exact .inr (.inr hdue)
      · have hkeep : ∀ {P Q R S : Prop}, P ∨ Q ∨ R → (P ∨ S) ∨ Q ∨ R := by tauto
        rintro (hdue | ⟨-, rfl⟩ | hdue)
        · exact hkeep (hold.mpr (.inl hdue))
        · exact .inl (.inr rfl)
        · exact hkeep (hold.mpr (.inr (.inr hdue)))

theorem Track.stageRead (h : Track turned rc sc st reads writes inFlight) :
    Track turned rc sc (st.stageRead rc sc) reads writes inFlight ∧ (st.stageRead rc sc).retryRead = true ∧
      (st.stageRead rc sc).readsIssued = st.readsIssued ∧ (st.stageRead rc sc).ppSent = st.ppSent := by
  unfold Stream.stageRead
  split_ifs with hretry
  · exact ⟨h, hretry, rfl, rfl⟩
  · exact ⟨⟨h.reads_eq, h.issued_le, fun _ => rfl, h.pendingWrite, h.lead, h.nodup, h.inFlight_lt,
      h.outstanding, h.writes_iff⟩, rfl, rfl, rfl⟩

theorem mem_post {ax : Axes} {av av' : AddrVec} {queue : List AddrVec} {i : Nat} :
    av' ∈ (if (ax.wbMode ≥ 2 && sc.wantWriteback ax i) = true then queue ++ [av] else queue) ↔
      av' ∈ queue ∨ (av' = av ∧ ax.wbMode ≥ 2 ∧ sc.wantWriteback ax i = true) := by
  have hiff : (ax.wbMode ≥ 2 && sc.wantWriteback ax i) = true ↔
      ax.wbMode ≥ 2 ∧ sc.wantWriteback ax i = true := by
    rw [Bool.and_eq_true, decide_eq_true_eq]
  split_ifs with hpost
  · rw [List.mem_append, List.mem_singleton]
    rw [hiff] at hpost
    tauto
  · rw [hiff] at hpost
    tauto

/-- What is held after a read was taken: also the write that comes with the read. -/
theorem held_sendRead : Held rc sc (st.sendRead rc sc clk true).1 writes w ↔
    Held rc sc st writes w ∨ (w = rc.companion sc st.readsIssued ∧ sc.Posts st.readsIssued) := by
  constructor
  · rintro (hw | hw | ⟨av, hav, rfl⟩)
    · exact .inl (.inl hw)
    · exact .inl (.inr (.inl hw))
    · rcases mem_post.mp hav with hav | ⟨rfl, hpost⟩
      · exact .inl (.inr (.inr ⟨av, hav, rfl⟩))
      · exact .inr ⟨rfl, hpost⟩
  · rintro ((hw | hw | ⟨av, hav, rfl⟩) | ⟨rfl, hpost⟩)
    · exact .inl hw
    · exact .inr (.inl hw)
    · exact .inr (.inr ⟨av, mem_post.mpr (.inl hav), rfl⟩)
    · exact .inr (.inr ⟨_, mem_post.mpr (.inr ⟨rfl, hpost⟩), rfl⟩)

theorem Track.sendRead (h : Track turned rc sc st reads writes inFlight) (hretry : st.retryRead = true)
    (hlt : st.readsIssued < sc.total) (hled : sc.Leads st.readsIssued → st.ppSent = true) :
    Follows turned rc sc reads writes inFlight (st.sendRead rc sc clk accept) := by
  cases accept with
  | false => exact h
  | true =>
      have hread := h.pendingRead hretry
      have hlen : reads.length = st.readsIssued := by
        rw [h.reads_eq, List.length_map, List.length_range]
      have hnew : st.readsIssued ∉ inFlight := fun hmem => absurd (h.inFlight_lt _ hmem) (lt_irrefl _)
      show if st.pendingRead.typeId = Request.read then Track _ _ _ _ _ _ _ else _
      rw [if_pos (by rw [hread]; rfl)]
      refine ⟨?_, hlt, nofun, h.pendingWrite, nofun, ?_, fun i hi => ?_, ?_, fun hturned w => ?_⟩
      · show reads ++ [st.pendingRead] = (List.range (st.readsIssued + 1)).map (rc.readRequest sc)
        rw [List.range_succ, List.map_append, ← h.reads_eq, hread]
        rfl
      · rw [hlen]
        exact List.nodup_append.mpr ⟨h.nodup, List.nodup_singleton _, fun a ha b hb heq => by
          rw [List.mem_singleton.mp hb] at heq
          exact hnew (heq ▸ ha)⟩
      · show i < st.readsIssued + 1
        rw [hlen, List.mem_append, List.mem_singleton] at hi
        rcases hi with hi | rfl
        · exact Nat.lt_succ_of_lt (h.inFlight_lt i hi)
        · exact Nat.lt_succ_self _
      · show st.outstanding + 1 = ((inFlight ++ [reads.length]).length : Int)
        rw [h.outstanding, List.length_append]
        rfl
      · have hold := h.writes_iff hturned w
        -- the read that is taken is in flight, and the older ones are in flight or not as before
        have hfar : ∀ i, i < st.readsIssued → (i ∉ inFlight ↔ i ∉ inFlight ++ [reads.length]) := by
          intro i hi
          rw [hlen, List.mem_append, List.mem_singleton]
          have hne : i ≠ st.readsIssued := ne_of_lt hi
          tauto
        show Held rc sc (st.sendRead rc sc clk true).1 writes w ↔ Due rc sc (st.sendRead rc sc clk true).1 _ w
        rw [held_sendRead]
        constructor
        · rintro (hheld | ⟨rfl, hpost⟩)
          · rcases hold.mp hheld with ⟨i, hi, hdue⟩ | ⟨hsent, rfl⟩ | ⟨i, hi, hdone, hdue⟩
            · exact .inl ⟨i, Nat.lt_succ_of_lt hi, hdue⟩
            · exact .inl ⟨_, Nat.lt_succ_self _, rfl, .inl (h.lead hsent).1⟩
            · exact .inr (.inr ⟨i, Nat.lt_succ_of_lt hi, (hfar i hi).mp hdone, hdue⟩)
          · exact .inl ⟨_, Nat.lt_succ_self _, rfl, .inr hpost⟩
        · rintro (⟨i, hi, rfl, hcause⟩ | ⟨hsent, -⟩ | ⟨i, hi, hdone, hdue⟩)
          · rcases Nat.lt_succ_iff_lt_or_eq.mp hi with hi | rfl
            · exact .inl (hold.mpr (.inl ⟨i, hi, rfl, hcause⟩))
            · rcases hcause with hleads | hpost
              · exact .inl (hold.mpr (.inr (.inl ⟨hled hleads, rfl⟩)))
              · exact .inr ⟨rfl, hpost⟩
          · cases hsent
          · rcases Nat.lt_succ_iff_lt_or_eq.mp hi with hi | rfl
            · exact .inl (hold.mpr (.inr (.inr ⟨i, hi, (hfar i hi).mpr hdone, hdue⟩)))
            · exact absurd (List.mem_append_right _ (List.mem_singleton.mpr hlen.symm)) hdone

/-- What is held after a read came back: also its writeback, if the decision is for one. -/
theorem held_readDone {latency : Int} :
    Held rc sc (st.readDone sc (rc.readAddrVec sc (sc.cur i) i) latency) writes w ↔
      Held rc sc st writes w ∨
        (w = rc.writeback sc i ∧ Stream.writesBack sc st.readsIssued (st.readsDone + 1) = true) := by
  unfold Held Stream.readDone
  dsimp only
  split_ifs with hback
  · constructor
    · rintro (hw | hw | ⟨av, hav, rfl⟩)
      · exact .inl (.inl hw)
      · exact .inl (.inr (.inl hw))
      · rcases List.mem_append.mp hav with hav | hav
        · exact .inl (.inr (.inr ⟨av, hav, rfl⟩))
        · rw [List.mem_singleton.mp hav]
          exact .inr ⟨rfl, hback⟩
    · rintro ((hw | hw | ⟨av, hav, rfl⟩) | ⟨rfl, -⟩)
      · exact .inl hw
      · exact .inr (.inl hw)
      · exact .inr (.inr ⟨av, List.mem_append_left _ hav, rfl⟩)
      · exact .inr (.inr ⟨_, List.mem_append_right _ (List.mem_singleton.mpr rfl), rfl⟩)
  · exact ⟨.inl, fun hheld => hheld.resolve_right fun hw => hback hw.2⟩

/-- What is due when a read is no longer in flight: also its writeback. -/
theorem due_erase (hnodup : inFlight.Nodup) (hi : i < st.readsIssued) :
    Due rc sc st (inFlight.erase i) w ↔
      Due rc sc st inFlight w ∨ (w = rc.writeback sc i ∧ sc.Returns i) := by
  have hmem : ∀ j, j ∈ inFlight.erase i ↔ j ≠ i ∧ j ∈ inFlight := fun j => hnodup.mem_erase_iff
  constructor
  · rintro (hdue | hdue | ⟨j, hj, hdone, hdue⟩)
    · exact .inl (.inl hdue)
    · exact .inl (.inr (.inl hdue))
    · by_cases hji : j = i
      · exact .inr (hji ▸ hdue)
      · exact .inl (.inr (.inr ⟨j, hj, fun hin => hdone ((hmem j).mpr ⟨hji, hin⟩), hdue⟩))
  · rintro ((hdue | hdue | ⟨j, hj, hdone, hdue⟩) | hdue)
    · exact .inl hdue
    · exact .inr (.inl hdue)
    · exact .inr (.inr ⟨j, hj, fun hin => hdone ((hmem j).mp hin).2, hdue⟩)
    · exact .inr (.inr ⟨i, hi, fun hin => ((hmem i).mp hin).1 rfl, hdue⟩)

/-- The completion of the read with index `i`. -/
theorem Track.readDone {latency : Int} (h : Track turned rc sc st reads writes inFlight) (hi : i ∈ inFlight)
    (hturn : turned →
      Stream.writesBack sc st.readsIssued (st.readsDone + 1) = Stream.writesBack sc (i + 1) (i + 1)) :
    Track turned rc sc (st.readDone sc (rc.readAddrVec sc (sc.cur i) i) latency) reads writes
      (inFlight.erase i) := by
  refine ⟨h.reads_eq, h.issued_le, h.pendingRead, h.pendingWrite, h.lead, h.nodup.erase i,
    fun j hj => h.inFlight_lt j (List.mem_of_mem_erase hj), ?_, fun hturned w => ?_⟩
  · show st.outstanding - 1 = ((inFlight.erase i).length : Int)
    have hpos := List.length_pos_of_mem hi
    rw [h.outstanding, List.length_erase_of_mem hi]
    omega
  · have hdue : Due rc sc (st.readDone sc (rc.readAddrVec sc (sc.cur i) i) latency) (inFlight.erase i) w ↔
        Due rc sc st (inFlight.erase i) w := Iff.rfl
    rw [held_readDone, hdue, due_erase h.nodup (h.inFlight_lt i hi), h.writes_iff hturned w, hturn hturned]
    rfl

/-- There is a read left for a stream that does not wait. -/
theorem lt_total {p q : Bool} (h : ¬((decide ((st.readsIssued : Int) ≥ sc.numRequests) || p || q) = true)) :
    st.readsIssued < sc.total := by
  rw [Bool.or_eq_true, Bool.or_eq_true, decide_eq_true_eq] at h
  unfold StreamConfig.total
  omega

/-- An attempt. -/
theorem Track.tryStream {r : Stream × Option Req} (h : Track turned rc sc st reads writes inFlight)
    (htry : st.tryStream rc sc clk accept = .ok (some r)) : Follows turned rc sc reads writes inFlight r := by
  unfold Stream.tryStream at htry
  dsimp only at htry
  split_ifs at htry with hphase hwrite hwait hlead hdep
  · cases htry
  · obtain ⟨st', hstage, hr⟩ := except_map_eq_ok.mp htry
    cases hr
    obtain ⟨h', hretry⟩ := h.stageWrite hstage
    exact h'.sendWrite hretry
  · cases htry
  · cases htry
    exact h.sendLead ⟨hlead.1, hlead.2.2⟩ (lt_total hwait) hlead.2.1
  · cases htry
  · cases htry
    have h₀ : Track turned rc sc { st with depWait := false } reads writes inFlight :=
      ⟨h.reads_eq, h.issued_le, h.pendingRead, h.pendingWrite, h.lead, h.nodup, h.inFlight_lt, h.outstanding,
        h.writes_iff⟩
    have hlt := lt_total hwait
    obtain ⟨h₁, hretry, hissued, hsent⟩ := h₀.stageRead
    refine h₁.sendRead hretry (by rw [hissued]; exact hlt) fun hleads => ?_
    rw [hsent]
    rw [hissued] at hleads
    by_contra hunsent
    exact hlead ⟨hleads.1, (Bool.not_eq_true _).mp hunsent, hleads.2⟩

end Tracks

/-! ## The whole frontend -/

namespace SyntheticPattern

variable {turned : Prop} {cfg : PatternConfig} {s s' : SyntheticPattern}

/-- Every stream is on its track. -/
def Inv (turned : Prop) (cfg : PatternConfig) (s : SyntheticPattern) : Prop :=
  ∀ j sc, cfg.streams[j]? = some sc →
    Track turned cfg.recipe sc (s.streams j) (s.acceptedReads j) (s.acceptedWrites j) (s.inFlight j)

theorem Inv.attempted {j : Nat} {sc : StreamConfig} {r : Stream × Option Req} (h : Inv turned cfg s)
    (hj : cfg.streams[j]? = some sc)
    (hr : Follows turned cfg.recipe sc (s.acceptedReads j) (s.acceptedWrites j) (s.inFlight j) r) :
    Inv turned cfg (s.attempted j r) := by
  obtain ⟨st, req⟩ := r
  intro j' sc' hj'
  by_cases heq : j' = j
  · subst heq
    obtain rfl : sc = sc' := Option.some.inj (hj.symm.trans hj')
    cases req with
    | none =>
        show Track _ _ _ (Function.update s.streams j' st j') _ _ _
        rw [Function.update_self]
        exact hr
    | some req =>
        unfold Follows at hr
        unfold SyntheticPattern.attempted
        dsimp only at hr ⊢
        split_ifs at hr ⊢
        · dsimp only
          rw [Function.update_self, Function.update_self, Function.update_self]
          exact hr
        · dsimp only
          rw [Function.update_self, Function.update_self]
          exact hr
  · have hkeep := h j' sc' hj'
    unfold SyntheticPattern.attempted
    dsimp only
    split
    · dsimp only
      rw [Function.update_of_ne heq]
      exact hkeep
    · split_ifs
      · dsimp only
        rw [Function.update_of_ne heq, Function.update_of_ne heq, Function.update_of_ne heq]
        exact hkeep
      · dsimp only
        rw [Function.update_of_ne heq, Function.update_of_ne heq]
        exact hkeep

theorem Inv.tryFrom {accept : Bool} {ks : List Nat} (h : Inv turned cfg s)
    (htry : tryFrom cfg accept s ks = .ok s') : Inv turned cfg s' := by
  induction ks with
  | nil =>
      cases htry
      exact h
  | cons k ks ih =>
      unfold SyntheticPattern.tryFrom at htry
      dsimp only at htry
      cases hj : cfg.streams[(s.rr + k) % cfg.streams.length]? with
      | none =>
          rw [hj] at htry
          cases htry
      | some sc =>
          rw [hj] at htry
          dsimp only at htry
          rw [except_bind_eq_ok] at htry
          obtain ⟨r, hr, htry⟩ := htry
          cases r with
          | none => exact ih htry
          | some r =>
              cases htry
              exact h.attempted hj ((h _ sc hj).tryStream hr)

theorem Inv.step {e : Event} (h : Inv turned cfg s) (hturn : turned → InTurn cfg s e)
    (hstep : step cfg e s = .ok s') : Inv turned cfg s' := by
  cases e with
  | tick accept => exact Inv.tryFrom (s := { s with clk := s.clk + 1 }) h hstep
  | writeDone =>
      unfold SyntheticPattern.step at hstep
      dsimp only at hstep
      split_ifs at hstep
      cases hstep
      exact h
  | readDone j i latency =>
      unfold SyntheticPattern.step at hstep
      dsimp only at hstep
      split at hstep
      case h_2 => cases hstep
      case h_1 sc req hj hreq =>
        split_ifs at hstep with hi
        cases hstep
        have htrack := h j sc hj
        -- the read that completes is the one with its index
        have haddr : req.addrVec = cfg.recipe.readAddrVec sc (sc.cur i) i := by
          rw [htrack.reads_eq, List.getElem?_map, List.getElem?_range (htrack.inFlight_lt i hi)] at hreq
          cases hreq
          rfl
        intro j' sc' hj'
        by_cases heq : j' = j
        · subst heq
          obtain rfl : sc = sc' := Option.some.inj (hj.symm.trans hj')
          dsimp only
          rw [Function.update_self, Function.update_self, haddr]
          exact htrack.readDone hi fun hturned => hturn hturned sc hj
        · dsimp only
          rw [Function.update_of_ne heq, Function.update_of_ne heq]
          exact h j' sc' hj'

/-- The invariant of any run, and of one whose completions are in turn. -/
theorem ReachedIf.inv {allowed : SyntheticPattern → Event → Prop} (hs : ReachedIf cfg allowed s)
    (hturn : turned → ∀ s e, allowed s e → InTurn cfg s e) : Inv turned cfg s :=
  hs.invariant (Inv turned cfg) (fun _ sc _ => track_start turned cfg.recipe sc)
    fun s e _ h ⟨hallowed, hstep⟩ => h.step (fun hturned => hturn hturned s e hallowed) hstep

theorem finished_of_isFinished (h : s.isFinished cfg = true) {j : Nat} {sc : StreamConfig}
    (hj : cfg.streams[j]? = some sc) : (s.streams j).finished sc = true := by
  unfold isFinished at h
  rw [Bool.and_eq_true, List.all_eq_true] at h
  exact h.1 (sc, j) (List.mem_zipIdx_iff_getElem?.mpr hj)

end SyntheticPattern

section Cohorts

variable {turned : Prop} {rc : Recipe} {sc : StreamConfig} {st : Stream} {reads writes : List Req}
  {inFlight : List Nat}

/-- At any time the reads are the first ones of the cohort. -/
theorem Track.reads_prefix (h : Track turned rc sc st reads writes inFlight) :
    reads <+: rc.readCohort sc := by
  rw [h.reads_eq]
  refine List.IsPrefix.map _ ⟨(List.range (sc.total - st.readsIssued)).map (st.readsIssued + ·), ?_⟩
  rw [← List.range_add, Nat.add_sub_cancel' h.issued_le]

/-- At any time the writes belong to the cohort. -/
theorem Track.writeCohort_of_mem (h : Track turned rc sc st reads writes inFlight) (hturned : turned)
    {w : Req} (hw : w ∈ writes) : rc.WriteCohort sc w := by
  rcases (h.writes_iff hturned w).mp (.inl hw) with ⟨i, hi, hdue⟩ | ⟨hsent, rfl⟩ | ⟨i, hi, -, hdue⟩
  · exact ⟨i, lt_of_lt_of_le hi h.issued_le, .inl hdue⟩
  · exact ⟨_, (h.lead hsent).2, .inl ⟨rfl, .inl (h.lead hsent).1⟩⟩
  · exact ⟨i, lt_of_lt_of_le hi h.issued_le, .inr hdue⟩

theorem finished_iff : st.finished sc = true ↔
    st.readsIssued ≥ sc.numRequests ∧ st.outstanding = 0 ∧ st.wbQueue = [] ∧ st.retryWrite = false := by
  unfold Stream.finished
  rw [Bool.and_eq_true, Bool.and_eq_true, Bool.and_eq_true, decide_eq_true_eq, decide_eq_true_eq,
    Bool.not_eq_true', List.isEmpty_iff, and_assoc, and_assoc]

/-- A stream that has finished has issued all its reads, and all of them are back. -/
theorem Track.finished (h : Track turned rc sc st reads writes inFlight) (hdone : st.finished sc = true) :
    st.readsIssued = sc.total ∧ inFlight = [] := by
  obtain ⟨hissued, hout, -⟩ := finished_iff.mp hdone
  constructor
  · have hle := h.issued_le
    unfold StreamConfig.total at hle ⊢
    omega
  · have hlen := h.outstanding
    rw [hout] at hlen
    exact List.eq_nil_of_length_eq_zero (by omega)

/-- A stream that has finished has sent the reads of its cohort. -/
theorem Track.reads_complete (h : Track turned rc sc st reads writes inFlight)
    (hdone : st.finished sc = true) : reads = rc.readCohort sc := by
  rw [h.reads_eq, (h.finished hdone).1]
  rfl

/-- A stream that has finished has sent the writes of its cohort. -/
theorem Track.writes_complete (h : Track turned rc sc st reads writes inFlight) (hturned : turned)
    (hdone : st.finished sc = true) (w : Req) : w ∈ writes ↔ rc.WriteCohort sc w := by
  obtain ⟨htotal, hnone⟩ := h.finished hdone
  obtain ⟨-, -, hqueue, hretry⟩ := finished_iff.mp hdone
  refine ⟨h.writeCohort_of_mem hturned, ?_⟩
  rintro ⟨i, hi, hcause⟩
  have hdue : Due rc sc st inFlight w := by
    rcases hcause with hdue | ⟨rfl, hback⟩
    · exact .inl ⟨i, htotal ▸ hi, hdue⟩
    · exact .inr (.inr ⟨i, htotal ▸ hi, by rw [hnone]; exact List.not_mem_nil, rfl, hback⟩)
  rcases (h.writes_iff hturned w).mpr hdue with hw | ⟨hpending, -⟩ | ⟨av, hav, -⟩
  · exact hw
  · rw [hretry] at hpending
    cases hpending
  · rw [hqueue] at hav
    cases hav

end Cohorts

namespace SyntheticPattern

variable {cfg : PatternConfig} {s₁ s₂ : SyntheticPattern}

/-- What two memory systems are compared by. -/
def identity (req : Req) : Int × Int := (req.addr, req.frontendId)

/-- In any two runs of a pattern a stream has handed over the same reads if both are complete, and if
only the second one is, a prefix of its reads. If the completions of both runs are all in turn, the same
goes for the set of its writes. -/
theorem streams_timing_invariant (h₁ : ReachedIf cfg (fun _ _ => True) s₁)
    (h₂ : ReachedIf cfg (fun _ _ => True) s₂) (hdone : s₂.isFinished cfg = true) (j : Nat)
    (hj : j < cfg.streams.length) :
    (s₁.acceptedReads j).map identity <+: (s₂.acceptedReads j).map identity ∧
      (s₁.isFinished cfg = true →
        (s₁.acceptedReads j).map identity = (s₂.acceptedReads j).map identity) ∧
      (ReachedIf cfg (InTurn cfg) s₁ → ReachedIf cfg (InTurn cfg) s₂ →
        (∀ x ∈ (s₁.acceptedWrites j).map identity, x ∈ (s₂.acceptedWrites j).map identity) ∧
        (s₁.isFinished cfg = true → ∀ x, x ∈ (s₁.acceptedWrites j).map identity ↔
          x ∈ (s₂.acceptedWrites j).map identity)) := by
  have hsc : cfg.streams[j]? = some cfg.streams[j] := List.getElem?_eq_getElem hj
  have hreads₁ := (h₁.inv False.elim : Inv False cfg s₁) j _ hsc
  have hreads₂ := (h₂.inv False.elim : Inv False cfg s₂) j _ hsc
  have hfin₂ := finished_of_isFinished hdone hsc
  refine ⟨?_, fun hdone₁ => ?_, fun hturn₁ hturn₂ => ?_⟩
  · rw [hreads₂.reads_complete hfin₂]
    exact hreads₁.reads_prefix.map identity
  · rw [hreads₁.reads_complete (finished_of_isFinished hdone₁ hsc), hreads₂.reads_complete hfin₂]
  · have hwrites₁ := (hturn₁.inv (fun _ _ _ => id) : Inv True cfg s₁) j _ hsc
    have hwrites₂ := (hturn₂.inv (fun _ _ _ => id) : Inv True cfg s₂) j _ hsc
    refine ⟨fun x hx => ?_, fun hdone₁ x => ?_⟩
    · obtain ⟨w, hw, rfl⟩ := List.mem_map.mp hx
      exact List.mem_map_of_mem
        ((hwrites₂.writes_complete trivial hfin₂ w).mpr (hwrites₁.writeCohort_of_mem trivial hw))
    · rw [List.mem_map, List.mem_map]
      simp only [hwrites₁.writes_complete trivial (finished_of_isFinished hdone₁ hsc),
        hwrites₂.writes_complete trivial hfin₂]

/-! ### Concrete runs -/

/-- One stream of two reads in one row, half of which are written back. -/
def smallPattern : PatternConfig where
  recipe :=
    { addrVecSize := 3, bankPositions := [0], bankCounts := [2], totalBankUnits := 2, rowPos := 1
      colPos := 2, numRows := 8, numCls := 4, internalPrefetchSize := 8, rowsPerStream := 4, txBytes := 64 }
  streams :=
    [{ id := 0
       a := { mlp := 2, rowRun := 4, wfracPct := 50, wbMode := 1 }
       b := { mlp := 2, rowRun := 4, wfracPct := 50, wbMode := 1 }
       modeSwitch := 0, numRequests := 2, seed := 2, bankBase := 0, rowBase := 0 }]

/-- What a run of the small pattern has handed over, if it is complete. -/
def smallRun (check : SyntheticPattern → Event → Bool) (es : List Event) :
    Except String (Bool × List (Int × Int) × List (Int × Int)) :=
  (runAll (guarded check "check failed" (step smallPattern)) es {}).map fun s =>
    (s.isFinished smallPattern, (s.acceptedReads 0).map identity, (s.acceptedWrites 0).map identity)

theorem reached_of_smallRun {q : SyntheticPattern → Event → Bool} {p : SyntheticPattern → Event → Prop}
    (hcheck : ∀ s e, q s e = true → p s e) {es : List Event}
    {o : Bool × List (Int × Int) × List (Int × Int)} (h : smallRun q es = .ok o) :
    ∃ s, ReachedIf smallPattern p s ∧ s.isFinished smallPattern = o.1 ∧
      (s.acceptedReads 0).map identity = o.2.1 ∧ (s.acceptedWrites 0).map identity = o.2.2 := by
  obtain ⟨s, hrun, rfl⟩ := except_map_eq_ok.mp h
  exact ⟨s, reachable_runAll hcheck .start hrun, rfl, rfl, rfl⟩

/-- One memory system is idle and completes each read at once, the other one refuses the second read at
first and completes both late. -/
theorem streams_timing_invariant_small : ∃ s₁ s₂,
    ReachedIf smallPattern (InTurn smallPattern) s₁ ∧ ReachedIf smallPattern (InTurn smallPattern) s₂ ∧
      s₁.isFinished smallPattern = true ∧ s₂.isFinished smallPattern = true ∧
      (s₁.acceptedReads 0).map identity = (s₂.acceptedReads 0).map identity ∧
      ∀ x, x ∈ (s₁.acceptedWrites 0).map identity ↔ x ∈ (s₂.acceptedWrites 0).map identity := by
  obtain ⟨s₁, h₁, hdone₁, -, -⟩ := reached_of_smallRun (p := InTurn smallPattern)
    (q := fun s e => decide (InTurn smallPattern s e)) (fun s e h => of_decide_eq_true h)
    (show smallRun _ [.tick true, .readDone 0 0 3, .tick true, .writeDone, .tick true, .readDone 0 1 3] =
      .ok (true, [(0, -1), (1, -1)], [(0, -1)]) from by decide +kernel)
  obtain ⟨s₂, h₂, hdone₂, -, -⟩ := reached_of_smallRun (p := InTurn smallPattern)
    (q := fun s e => decide (InTurn smallPattern s e)) (fun s e h => of_decide_eq_true h)
    (show smallRun _ [.tick true, .tick false, .tick true, .readDone 0 0 9, .readDone 0 1 9, .tick true,
        .writeDone] = .ok (true, [(0, -1), (1, -1)], [(0, -1)]) from by decide +kernel)
  have hall : ∀ {s}, ReachedIf smallPattern (InTurn smallPattern) s → ReachedIf smallPattern (fun _ _ => True) s :=
    fun h => h.mono fun _ _ _ hstep => ⟨trivial, hstep.2⟩
  obtain ⟨-, hreads, hwrites⟩ := streams_timing_invariant (hall h₁) (hall h₂) hdone₂ 0 (Nat.succ_pos 0)
  exact ⟨s₁, s₂, h₁, h₂, hdone₁, hdone₂, hreads hdone₁, (hwrites h₁ h₂).2 hdone₁⟩

/-- Of two reads in flight the one that completes first is written back. -/
theorem writebacks_follow_completions : ∃ s₁ s₂,
    ReachedIf smallPattern (fun _ _ => True) s₁ ∧ ReachedIf smallPattern (fun _ _ => True) s₂ ∧
      s₁.isFinished smallPattern = true ∧ s₂.isFinished smallPattern = true ∧
      (s₁.acceptedWrites 0).map identity = [(0, -1)] ∧
      (s₂.acceptedWrites 0).map identity = [(1, -1)] := by
  obtain ⟨s₁, h₁, hdone₁, -, hwrites₁⟩ := reached_of_smallRun (p := fun _ _ => True)
    (q := fun _ _ => true) (fun _ _ _ => trivial)
    (show smallRun _ [.tick true, .tick true, .readDone 0 0 9, .readDone 0 1 9, .tick true, .writeDone] =
      .ok (true, [(0, -1), (1, -1)], [(0, -1)]) from by decide +kernel)
  obtain ⟨s₂, h₂, hdone₂, -, hwrites₂⟩ := reached_of_smallRun (p := fun _ _ => True)
    (q := fun _ _ => true) (fun _ _ _ => trivial)
    (show smallRun _ [.tick true, .tick true, .readDone 0 1 9, .readDone 0 0 9, .tick true, .writeDone] =
      .ok (true, [(0, -1), (1, -1)], [(1, -1)]) from by decide +kernel)
  exact ⟨s₁, s₂, h₁, h₂, hdone₁, hdone₂, hwrites₁, hwrites₂⟩

end SyntheticPattern

end Ramulator.Frontend.Pattern
