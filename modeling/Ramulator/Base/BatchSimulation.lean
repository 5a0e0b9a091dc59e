/-
# Ramulator.Base.BatchSimulation — replaying a batch of requests, with idle stretches skipped.

`run_batch` (`base/batch_simulation.cpp`) offers a list of requests to a memory system at their
arrival times, retries what is rejected, and drains the outstanding callbacks. Unless `tick_only` is
set it jumps over ticks that the memory system declares idle, in three places with three boundaries:
while waiting for an arrival, between two retries, and in the drain.

The memory system is a parameter. A tick or a send reports the requests it completed, in order, and
the driver then runs their callbacks; a callback only writes the driver's own variables. Clocks are
`int64`, sizes and digests 64-bit words. The wall-clock fields of the result are left out.
-/
import Ramulator.Lib.Loop
import Ramulator.Base.Request

namespace Ramulator.Base

open Ramulator.Lib

/-! ## Inputs, options and results -/

structure BatchRequest where
  address : Int
  type : Int
  arrival : Int
  source : Int := -1
  deriving DecidableEq, Repr

structure BatchState where
  clock : Int := 0
  nextFrontendId : Int := 0
  deriving DecidableEq, Repr

structure BatchOptions where
  drainWrites : Bool := true
  recordRequests : Bool := true
  skipIdleRetries : Bool := false
  tickOnly : Bool := false
  warmupRequests : Nat := 0
  deriving DecidableEq, Repr

structure BatchResult where
  admitted : List Int := []
  departed : List Int := []
  elapsed : Int := 0
  completedReads : UInt64 := 0
  completedWrites : UInt64 := 0
  measuredReads : UInt64 := 0
  measuredWrites : UInt64 := 0
  measuredReadsCompleted : UInt64 := 0
  measuredWritesCompleted : UInt64 := 0
  warmupReadsOutstanding : UInt64 := 0
  warmupWritesOutstanding : UInt64 := 0
  measurementStartCycle : Int := 0
  finalAdmissionCycle : Int := 0
  measuredAdmissionWaitSum : UInt64 := 0
  measuredAdmissionWaitMax : Int := 0
  admissionDigest : UInt64 := 0
  completionDigest : UInt64 := 0
  deriving DecidableEq, Repr

/-- The two closures the driver registers, with the index they capture. -/
inductive BatchCallback where
  | read (i : Nat)
  | write (i : Nat)
  deriving DecidableEq, Repr

/-- The exceptions `run_batch` throws. -/
inductive BatchError where
  | invalidArgument (what : String)
  | overflowError (what : String)
  | runtimeError (what : String)
  deriving DecidableEq, Repr

/-- What a send hands back: the verdict, the memory system, the request (passed by reference) and
the requests it completed at once. -/
structure SendOutcome (M C : Type) where
  accepted : Bool
  memory : M
  request : Request C BatchCallback
  completed : List (Request C BatchCallback)

/-- What `run_batch` uses of `IMemorySystem`. -/
structure BatchMemory (M C : Type) where
  send : M → Request C BatchCallback → SendOutcome M C
  tick : M → M × List (Request C BatchCallback)
  idleTicks : M → Int
  fastForward : M → Int → M
  txBytes : Int

/-- The local variables of `run_batch`. -/
structure Batch (M : Type) where
  memory : M
  clock : Int
  nextFrontendId : Int
  expectedReads : UInt64 := 0
  expectedWrites : UInt64 := 0
  result : BatchResult

/-! ## The driver -/

variable {M C : Type}

/-- `std::numeric_limits<Clk_t>::max()`. -/
def clkMax : Int := 9223372036854775807

/-- The mixing function of the digests. -/
def digest (value : UInt64) : UInt64 :=
  let value := value ^^^ (value >>> 30)
  let value := value * 0xbf58476d1ce4e5b9
  let value := value ^^^ (value >>> 27)
  let value := value * 0x94d049bb133111eb
  value ^^^ (value >>> 31)

/-- The digest of event time `clk` of request `i`. -/
def eventDigest (i : Nat) (clk : Int) : UInt64 :=
  digest (UInt64.ofNat i ^^^ (UInt64.ofInt clk <<< 24))

/-- The bodies of the two callbacks, run for a completed request. -/
def runCallback (options : BatchOptions) (b : Batch M) (done : Request C BatchCallback) : Batch M :=
  match done.callback with
  | none => b
  | some (.read i) =>
      let r := b.result
      { b with result :=
        { r with
          departed := if options.recordRequests then r.departed.set i done.depart else r.departed
          completionDigest := r.completionDigest + eventDigest i done.depart
          completedReads := r.completedReads + 1
          measuredReadsCompleted := if i ≥ options.warmupRequests then r.measuredReadsCompleted + 1
            else r.measuredReadsCompleted } }
  | some (.write i) =>
      -- a write is recorded at its callback, whatever its `depart` says
      let r := b.result
      { b with result :=
        { r with
          departed := if options.recordRequests then r.departed.set i b.clock else r.departed
          completionDigest := r.completionDigest + eventDigest i b.clock
          completedWrites := r.completedWrites + 1
          measuredWritesCompleted := if i ≥ options.warmupRequests
            then r.measuredWritesCompleted + 1 else r.measuredWritesCompleted } }

/-- All callbacks of one tick or send. -/
def complete (options : BatchOptions) (done : List (Request C BatchCallback)) (b : Batch M) :
    Batch M :=
  done.foldl (runCallback options) b

/-- The lambda `tick`. -/
def batchTick (mem : BatchMemory M C) (options : BatchOptions) (b : Batch M) :
    Except BatchError (Batch M) :=
  if b.clock = clkMax then .error (.overflowError "batch clock exhausted")
  else
    let (m, done) := mem.tick b.memory
    .ok (complete options done { b with clock := b.clock + 1, memory := m })

/-- The lambda `jump`. -/
def batchJump (mem : BatchMemory M C) (ticks : Int) (b : Batch M) : Except BatchError (Batch M) :=
  if ticks < 0 ∨ ticks > clkMax - b.clock then
    .error (.overflowError "invalid batch idle interval")
  else .ok { b with memory := mem.fastForward b.memory ticks, clock := b.clock + ticks }

/-- One iteration that leaves the loop on an exception. -/
def proceed {S R E : Type} (x : Except E S) : Loop.Outcome S (Except E R) :=
  match x with
  | .ok s => .running s
  | .error e => .done (.error e)

/-- The loop body of the lambda `advance`. -/
def advanceStep (mem : BatchMemory M C) (options : BatchOptions) (p : Int × Batch M) :
    Loop.Outcome (Int × Batch M) (Except BatchError (Batch M)) :=
  let (ticks, b) := p
  if ticks > 0 then
    let idle := if options.tickOnly then 0 else mem.idleTicks b.memory
    if idle < 0 then .done (.error (.runtimeError "memory returned a negative idle interval"))
    else
      let skipped := min idle (ticks - 1)
      if skipped > 0 then proceed ((batchJump mem skipped b).map fun b => (ticks - skipped, b))
      else proceed ((batchTick mem options b).map fun b => (ticks - 1, b))
  else .done (.ok b)

/-- The statements `if (idle > 0) jump(idle); tick();` that the other two loops end with. -/
def jumpThenTick (mem : BatchMemory M C) (options : BatchOptions) (idle : Int) (b : Batch M) :
    Except BatchError (Batch M) :=
  (if idle > 0 then batchJump mem idle b else .ok b).bind (batchTick mem options)

/-- The loop `while (!memory.send(request))`. -/
def retryStep (mem : BatchMemory M C) (options : BatchOptions)
    (p : Request C BatchCallback × Batch M) :
    Loop.Outcome (Request C BatchCallback × Batch M) (Except BatchError (Batch M)) :=
  let (request, b) := p
  let sent := mem.send b.memory request
  let b := complete options sent.completed { b with memory := sent.memory }
  if sent.accepted then .done (.ok b)
  else
    let idle := if options.skipIdleRetries && !options.tickOnly then mem.idleTicks b.memory else 0
    if idle < 0 ∨ idle = clkMax then
      .done (.error (.runtimeError "rejected batch request has no finite next service event"))
    else proceed ((jumpThenTick mem options idle b).map fun b => (sent.request, b))

/-- The drain loop. -/
def drainStep (mem : BatchMemory M C) (options : BatchOptions) (b : Batch M) :
    Loop.Outcome (Batch M) (Except BatchError (Batch M)) :=
  if b.result.completedReads < b.expectedReads ∨ b.result.completedWrites < b.expectedWrites then
    let idle := if options.tickOnly then 0 else mem.idleTicks b.memory
    if idle = clkMax then
      .done (.error (.runtimeError "batch has outstanding callbacks but memory reports no events"))
    else if idle < 0 then
      .done (.error (.runtimeError "memory returned a negative idle interval"))
    else proceed (jumpThenTick mem options idle b)
  else .done (.ok b)

/-- The lambda `boundary`. -/
def boundary (b : Batch M) : Batch M :=
  { b with result :=
    { b.result with
      measurementStartCycle := b.clock
      warmupReadsOutstanding := b.expectedReads - b.result.completedReads
      warmupWritesOutstanding := b.expectedWrites - b.result.completedWrites } }

/-- A computation that may run out of fuel (`none`) or throw. -/
abbrev Run := ExceptT BatchError Option

/-- The request that the driver builds for entry `i`. -/
def buildRequest (txBytes : Int) (options : BatchOptions) (frontendId : Int) (i : Nat)
    (entry : BatchRequest) : Request C BatchCallback :=
  { (Request.ofAddr entry.address entry.type : Request C BatchCallback) with
    sourceId := entry.source
    frontendId := frontendId
    sizeBytes := txBytes
    callback := if entry.type = Request.read then some (.read i)
      else if options.drainWrites then some (.write i) else none }

/-- The counters that move when entry `i`'s request is built. -/
def expect (options : BatchOptions) (entry : BatchRequest) (b : Batch M) : Batch M :=
  { b with
    nextFrontendId := b.nextFrontendId + 1
    expectedReads := if entry.type = Request.read then b.expectedReads + 1 else b.expectedReads
    expectedWrites := if entry.type ≠ Request.read ∧ options.drainWrites = true
      then b.expectedWrites + 1 else b.expectedWrites }

/-- What is recorded when entry `i` is admitted. -/
def recordAdmission (options : BatchOptions) (i : Nat) (entry : BatchRequest) (b : Batch M) :
    Batch M :=
  let r := b.result
  let measured := i ≥ options.warmupRequests
  let wait := b.clock - entry.arrival
  { b with result :=
    { r with
      admitted := if options.recordRequests then r.admitted.set i b.clock else r.admitted
      admissionDigest := r.admissionDigest + eventDigest i b.clock
      measuredReads := if measured ∧ entry.type = Request.read then r.measuredReads + 1
        else r.measuredReads
      measuredWrites := if measured ∧ entry.type ≠ Request.read then r.measuredWrites + 1
        else r.measuredWrites
      measuredAdmissionWaitSum := if measured then r.measuredAdmissionWaitSum + UInt64.ofInt wait
        else r.measuredAdmissionWaitSum
      measuredAdmissionWaitMax := if measured then max r.measuredAdmissionWaitMax wait
        else r.measuredAdmissionWaitMax } }

/-- Wait for the arrival of an entry. -/
def awaitArrival (mem : BatchMemory M C) (options : BatchOptions) (fuel : Nat)
    (entry : BatchRequest) (b : Batch M) : Run (Batch M) :=
  if entry.arrival > b.clock then
    Loop.run (advanceStep mem options) fuel (entry.arrival - b.clock, b)
  else pure b

/-- Build the request of entry `i` and send it until it is accepted. -/
def sendRequest (mem : BatchMemory M C) (options : BatchOptions) (fuel : Nat) (i : Nat)
    (entry : BatchRequest) (b : Batch M) : Run (Batch M) :=
  let request := buildRequest mem.txBytes options b.nextFrontendId i entry
  Loop.run (retryStep mem options) fuel (request, expect options entry b)

/-- One iteration of the main loop: wait for the arrival, send with retries, record. -/
def offer (mem : BatchMemory M C) (options : BatchOptions) (fuel : Nat) (i : Nat)
    (entry : BatchRequest) (b : Batch M) : Run (Batch M) := do
  let b ← awaitArrival mem options fuel entry
    (if i = options.warmupRequests then boundary b else b)
  let b ← sendRequest mem options fuel i entry b
  pure (recordAdmission options i entry b)

/-- The main loop, from index `i` on. -/
def offerAll (mem : BatchMemory M C) (options : BatchOptions) (fuel : Nat) :
    Nat → List BatchRequest → Batch M → Run (Batch M)
  | _, [], b => pure b
  | i, entry :: rest, b => do
      let b ← offer mem options fuel i entry b
      offerAll mem options fuel (i + 1) rest b

/-- The check of the input list: legal addresses, sources and types, ordered arrivals. -/
def validInput : Int → List BatchRequest → Bool
  | _, [] => true
  | previous, entry :: rest =>
      !(entry.address < 0 || entry.arrival < 0 || entry.arrival < previous || entry.source < -1 ||
        (entry.type ≠ Request.read && entry.type ≠ Request.write)) &&
      validInput entry.arrival rest

/-- The end of the admissions. -/
def markFinalAdmission (b : Batch M) : Batch M :=
  { b with result := { b.result with finalAdmissionCycle := b.clock } }

/-- The part of `run_batch` after its checks: the main loop, then the drain. -/
def replay (mem : BatchMemory M C) (input : List BatchRequest) (options : BatchOptions)
    (fuel : Nat) (b : Batch M) : Run (Batch M) := do
  let b ← offerAll mem options fuel 0 input b
  Loop.run (drainStep mem options) fuel
    (markFinalAdmission (if options.warmupRequests = input.length then boundary b else b))

/-- The variables of `run_batch` before its main loop. -/
def startBatch (options : BatchOptions) (size : Nat) (state : BatchState) (memory : M) : Batch M :=
  let unset := if options.recordRequests then List.replicate size (-1) else []
  { memory := memory, clock := state.clock, nextFrontendId := state.nextFrontendId,
    result := { admitted := unset, departed := unset } }

/-- `run_batch`. On success it returns the result, and what it leaves in `state` and `memory`. -/
def runBatch (mem : BatchMemory M C) (input : List BatchRequest) (options : BatchOptions)
    (fuel : Nat) (state : BatchState) (memory : M) : Run (BatchResult × BatchState × M) :=
  if options.warmupRequests > input.length then
    throw (.invalidArgument "batch warmup exceeds input population")
  else if !validInput (-1) input then
    throw (.invalidArgument "batch requests need valid types/addresses and ordered arrivals")
  else if state.clock < 0 ∨ state.nextFrontendId < 0 ∨
      input.length > clkMax - state.nextFrontendId then
    throw (.invalidArgument "invalid or exhausted batch state")
  else do
    let b ← replay mem input options fuel (startBatch options input.length state memory)
    pure ({ b.result with elapsed := b.clock }, ⟨b.clock, b.nextFrontendId⟩, b.memory)

/-! ## What the memory system promises -/

/-- The memory system after `k` elided ticks. -/
def BatchMemory.after (mem : BatchMemory M C) (m : M) (k : Nat) : M :=
  if 0 < k then mem.fastForward m k else m

/-- The contract of the memory system. `Same` relates states and `SameRequest` requests that behave
alike from now on; a rejected send may move to another such state (it counts the rejection, say) but
has no other effect. Idle ticks are what `fast_forward` does, complete nothing, and let in no
request that was rejected before them. -/
structure BatchMemory.Honours (mem : BatchMemory M C) (Same : M → M → Prop)
    (SameRequest : Request C BatchCallback → Request C BatchCallback → Prop) : Prop where
  same : Equivalence Same
  sameRequest : Equivalence SameRequest
  tick_congr : ∀ {m m'}, Same m m' →
    Same (mem.tick m).1 (mem.tick m').1 ∧ (mem.tick m).2 = (mem.tick m').2
  send_congr : ∀ {m m' r r'}, Same m m' → SameRequest r r' →
    (mem.send m r).accepted = (mem.send m' r').accepted ∧
      (mem.send m r).completed = (mem.send m' r').completed ∧
      Same (mem.send m r).memory (mem.send m' r').memory
  rejected : ∀ {m r}, (mem.send m r).accepted = false →
    (mem.send m r).completed = [] ∧ Same m (mem.send m r).memory ∧
      SameRequest r (mem.send m r).request
  idle : ∀ {m} {i : Nat}, i < mem.idleTicks m → mem.tick (mem.after m i) = (mem.after m (i + 1), [])
  idle_rejects : ∀ {m r} {i : Nat}, i ≤ mem.idleTicks m → (mem.send m r).accepted = false →
    (mem.send (mem.after m i) r).accepted = false

/-! ## Two drivers side by side -/

/-- Everything in a result but the recorded lists. -/
def BatchResult.aggregates (r : BatchResult) : BatchResult := { r with admitted := [], departed := [] }

/-- Two results of runs with options `o` and `o'` agree: on everything but the recorded lists, and on
these too if both runs record or neither does. -/
def BatchResult.Agree (o o' : BatchOptions) (r r' : BatchResult) : Prop :=
  r.aggregates = r'.aggregates ∧
    (o.recordRequests = o'.recordRequests → r.admitted = r'.admitted ∧ r.departed = r'.departed)

/-- Two drivers agree up to the hidden state of their memory systems. -/
structure Batch.Agree (Same : M → M → Prop) (o o' : BatchOptions) (b b' : Batch M) : Prop where
  memory : Same b.memory b'.memory
  clock : b.clock = b'.clock
  nextFrontendId : b.nextFrontendId = b'.nextFrontendId
  expectedReads : b.expectedReads = b'.expectedReads
  expectedWrites : b.expectedWrites = b'.expectedWrites
  result : b.result.Agree o o' b'.result

/-- The runs that are compared: they differ in how they skip and in whether they record. -/
structure BatchOptions.Comparable (o o' : BatchOptions) : Prop where
  tickOnly : o'.tickOnly = true
  drainWrites : o.drainWrites = o'.drainWrites
  warmupRequests : o.warmupRequests = o'.warmupRequests

section Agreement

variable {mem : BatchMemory M C} {Same : M → M → Prop}
  {SameRequest : Request C BatchCallback → Request C BatchCallback → Prop}
  {o o' : BatchOptions} {b b' c : Batch M}

theorem runCallback_agree (hcmp : o.Comparable o') (h : b.Agree Same o o' b')
    (done : Request C BatchCallback) :
    (runCallback o b done).Agree Same o o' (runCallback o' b' done) := by
  obtain ⟨hm, hclk, hid, hr, hw, hagg, hlists⟩ := h
  simp only [BatchResult.aggregates, BatchResult.mk.injEq, true_and] at hagg
  unfold runCallback
  split
  · exact ⟨hm, hclk, hid, hr, hw, by simpa [BatchResult.aggregates] using hagg, hlists⟩
  · refine ⟨hm, hclk, hid, hr, hw, ?_, fun hrec => ?_⟩
    · simp [BatchResult.aggregates, hagg, hcmp.warmupRequests]
    · simp [hrec, hlists hrec]
  · refine ⟨hm, hclk, hid, hr, hw, ?_, fun hrec => ?_⟩
    · simp [BatchResult.aggregates, hagg, hcmp.warmupRequests, hclk]
    · simp [hrec, hlists hrec, hclk]

theorem complete_agree (hcmp : o.Comparable o') (h : b.Agree Same o o' b')
    (done : List (Request C BatchCallback)) :
    (complete o done b).Agree Same o o' (complete o' done b') := by
  induction done generalizing b b' with
  | nil => exact h
  | cons r rest ih => exact ih (runCallback_agree hcmp h r)

/-- Agreeing drivers tick alike. -/
theorem batchTick_agree (hmem : mem.Honours Same SameRequest) (hcmp : o.Comparable o')
    (h : b.Agree Same o o' b') (htick : batchTick mem o b = .ok c) :
    ∃ c', batchTick mem o' b' = .ok c' ∧ c.Agree Same o o' c' := by
  obtain ⟨hsame, hdone⟩ := hmem.tick_congr h.memory
  unfold batchTick at htick ⊢
  rw [← h.clock]
  split at htick
  · simp at htick
  · rename_i hclk
    obtain rfl : _ = c := by simpa using htick
    refine ⟨_, if_neg hclk, ?_⟩
    have hnext : Batch.Agree Same o o' { b with clock := b.clock + 1, memory := (mem.tick b.memory).1 }
        { b' with clock := b'.clock + 1, memory := (mem.tick b'.memory).1 } :=
      { h with memory := hsame, clock := by simp [h.clock] }
    simpa [hdone, h.clock] using complete_agree hcmp hnext (mem.tick b.memory).2

/-- The driver `k` idle ticks later. -/
def Batch.idled (mem : BatchMemory M C) (b : Batch M) (k : Nat) : Batch M :=
  { b with memory := mem.after b.memory k, clock := b.clock + k }

theorem idled_zero : b.idled mem 0 = b := by
  simp [Batch.idled, BatchMemory.after]

/-- A tick that the memory system declares idle. -/
theorem batchTick_idled (hmem : mem.Honours Same SameRequest) {i : Nat}
    (hi : i < mem.idleTicks b.memory) (hclk : b.clock + i < clkMax) :
    batchTick mem o (b.idled mem i) = .ok (b.idled mem (i + 1)) := by
  simp only [batchTick, Batch.idled, hmem.idle hi, complete, List.foldl_nil]
  rw [if_neg (by omega)]
  simp [Int.add_assoc]

/-- A successful jump is a number of idle ticks that the clock has room for. -/
theorem batchJump_eq_ok {ticks : Int} (hpos : 0 < ticks) (h : batchJump mem ticks b = .ok c) :
    b.clock + ticks ≤ clkMax ∧ c = b.idled mem ticks.toNat := by
  unfold batchJump at h
  split at h
  · simp at h
  · obtain rfl : _ = c := by simpa using h
    refine ⟨by omega, ?_⟩
    have hcast : (ticks.toNat : Int) = ticks := by omega
    simp only [Batch.idled, BatchMemory.after, hcast, if_pos (show 0 < ticks.toNat by omega)]

/-- Agreeing drivers agree after a tick that the memory system of the first declares idle. -/
theorem idled_succ_agree (hmem : mem.Honours Same SameRequest) (hcmp : o.Comparable o') {i : Nat}
    (hi : i < mem.idleTicks b.memory) (hclk : b.clock + i < clkMax)
    (h : (b.idled mem i).Agree Same o o' b') :
    ∃ c', batchTick mem o' b' = .ok c' ∧ (b.idled mem (i + 1)).Agree Same o o' c' :=
  batchTick_agree hmem hcmp h (batchTick_idled hmem hi hclk)

theorem jumpThenTick_eq_ok {idle : Int} (hidle : 0 ≤ idle)
    (h : jumpThenTick mem o idle b = .ok c) :
    (∀ i < idle.toNat, b.clock + i < clkMax) ∧
      batchTick mem o (b.idled mem idle.toNat) = .ok c := by
  unfold jumpThenTick at h
  by_cases hpos : idle > 0
  · rw [if_pos hpos] at h
    cases hj : batchJump mem idle b with
    | error e => simp [hj, Except.bind] at h
    | ok d =>
        obtain ⟨hroom, rfl⟩ := batchJump_eq_ok hpos hj
        exact ⟨fun i hi => by omega, by simpa [hj, Except.bind] using h⟩
  · obtain rfl : idle = 0 := by omega
    refine ⟨fun i hi => by simp at hi, ?_⟩
    simpa [idled_zero, Except.bind] using h

theorem proceed_running {S R E : Type} {x : Except E S} {s : S}
    (h : (proceed x : Loop.Outcome S (Except E R)) = .running s) : x = .ok s := by
  cases x with
  | error e => simp [proceed] at h
  | ok a => simpa [proceed] using h

theorem proceed_map_running {S S' R E : Type} {x : Except E S} {f : S → S'} {s : S'}
    (h : (proceed (x.map f) : Loop.Outcome S' (Except E R)) = .running s) :
    ∃ a, x = .ok a ∧ f a = s := by
  cases x with
  | error e => simp [proceed, Except.map] at h
  | ok a => exact ⟨a, rfl, by simpa [proceed, Except.map] using h⟩

theorem proceed_ne_done_ok {S R E : Type} {x : Except E S} {r : R} :
    (proceed x : Loop.Outcome S (Except E R)) ≠ .done (.ok r) := by
  cases x <;> simp [proceed]

/-- Normal results of two loops, and that they agree. -/
def Normal (r : Except BatchError (Batch M)) : Prop := ∃ c, r = .ok c

def DoneAgree (Same : M → M → Prop) (o o' : BatchOptions) (r r' : Except BatchError (Batch M)) :
    Prop :=
  ∃ c c', r = .ok c ∧ r' = .ok c' ∧ c.Agree Same o o' c'

/-! ### Waiting for an arrival -/

/-- An iteration that goes on has skipped idle ticks short of the arrival, or has ticked. -/
theorem advanceStep_running {ticks : Int} {p : Int × Batch M}
    (h : advanceStep mem o (ticks, b) = .running p) :
    0 < ticks ∧
      ((∃ n : Nat, 0 < n ∧ n < ticks ∧ n ≤ mem.idleTicks b.memory ∧ b.clock + n ≤ clkMax ∧
        p = (ticks - n, b.idled mem n)) ∨
      ∃ c, batchTick mem o b = .ok c ∧ p = (ticks - 1, c)) := by
  simp only [advanceStep] at h
  generalize hidle : (if o.tickOnly = true then 0 else mem.idleTicks b.memory) = idle at h
  generalize hskipped : min idle (ticks - 1) = skipped at h
  split_ifs at h with hticks hneg hskip
  · refine ⟨hticks, .inl ?_⟩
    obtain ⟨d, hd, rfl⟩ := proceed_map_running h
    obtain ⟨hroom, rfl⟩ := batchJump_eq_ok hskip hd
    have hle : 0 < idle → idle ≤ mem.idleTicks b.memory := by
      split_ifs at hidle <;> omega
    refine ⟨skipped.toNat, by omega, by omega, by omega, by omega, ?_⟩
    rw [show (skipped.toNat : Int) = skipped by omega]
  · obtain ⟨c, hc, rfl⟩ := proceed_map_running h
    exact ⟨hticks, .inr ⟨c, hc, rfl⟩⟩

theorem advanceStep_done_ok {ticks : Int} (h : advanceStep mem o (ticks, b) = .done (.ok c)) :
    ticks ≤ 0 ∧ b = c := by
  simp only [advanceStep] at h
  generalize hidle : (if o.tickOnly = true then 0 else mem.idleTicks b.memory) = idle at h
  generalize hskipped : min idle (ticks - 1) = skipped at h
  split_ifs at h with hticks hneg hskip
  · simp at h
  · exact absurd h proceed_ne_done_ok
  · exact absurd h proceed_ne_done_ok
  · exact ⟨by omega, by simpa using h⟩

theorem advanceStep_tickOnly (ho : o.tickOnly = true) {ticks : Int} (hticks : 0 < ticks)
    (h : batchTick mem o b = .ok c) : advanceStep mem o (ticks, b) = .running (ticks - 1, c) := by
  simp only [advanceStep, ho, if_true, gt_iff_lt, hticks]
  rw [if_neg (by omega), if_neg (by omega), h]
  rfl

theorem advanceStep_simulates (hmem : mem.Honours Same SameRequest) (hcmp : o.Comparable o') :
    Loop.Simulates (fun p p' => p.1 = p'.1 ∧ p.2.Agree Same o o' p'.2) Normal (DoneAgree Same o o')
      (advanceStep mem o) (advanceStep mem o') where
  running := by
    rintro ⟨ticks, b⟩ ⟨_, b'⟩ p ⟨rfl, hb⟩ hstep
    obtain ⟨hticks, ⟨n, hpos, hn, hidle, hroom, rfl⟩ | ⟨c, hc, rfl⟩⟩ := advanceStep_running hstep
    · -- a jump of `n` ticks: the reference ticks `n` times
      obtain ⟨p', hiter, hp', hagree⟩ : ∃ p', Loop.iterate (advanceStep mem o') n (ticks, b') =
          .running p' ∧ p'.1 = ticks - n ∧ (b.idled mem n).Agree Same o o' p'.2 := by
        refine Loop.iterate_chain
          (P := fun i (p : Int × Batch M) => p.1 = ticks - i ∧ (b.idled mem i).Agree Same o o' p.2)
          ?_ ?_
        · rintro i hi ⟨_, d⟩ ⟨rfl, hd⟩
          obtain ⟨c', hc', hagree⟩ := idled_succ_agree hmem hcmp (by omega) (by omega) hd
          refine ⟨_, advanceStep_tickOnly hcmp.tickOnly (by omega) hc', ?_, hagree⟩
          push_cast
          omega
        · exact ⟨by simp, by rwa [idled_zero]⟩
      refine ⟨n - 1, p', ?_, hp'.symm, hagree⟩
      rwa [show n - 1 + 1 = n by omega]
    · obtain ⟨c', hc', hagree⟩ := batchTick_agree hmem hcmp hb hc
      refine ⟨0, (ticks - 1, c'), ?_, rfl, hagree⟩
      rw [Loop.iterate_one, advanceStep_tickOnly hcmp.tickOnly hticks hc']
  done := by
    rintro ⟨ticks, b⟩ ⟨_, b'⟩ _ ⟨rfl, hb⟩ hstep ⟨c, rfl⟩
    obtain ⟨hticks, rfl⟩ := advanceStep_done_ok hstep
    refine ⟨0, .ok b', ?_, b, b', rfl, rfl, hb⟩
    rw [Loop.iterate_one]
    exact if_neg (by omega)

/-! ### The drain -/

/-- Some callback of the batch is still outstanding. -/
def Batch.Outstanding (b : Batch M) : Prop :=
  b.result.completedReads < b.expectedReads ∨ b.result.completedWrites < b.expectedWrites

theorem Batch.Agree.outstanding_iff (h : b.Agree Same o o' b') : b.Outstanding ↔ b'.Outstanding := by
  have hagg := h.result.1
  simp only [BatchResult.aggregates, BatchResult.mk.injEq, true_and] at hagg
  simp only [Batch.Outstanding, hagg, h.expectedReads, h.expectedWrites]

/-- An iteration that goes on has skipped the idle ticks and one more. -/
theorem drainStep_running (h : drainStep mem o b = .running c) :
    b.Outstanding ∧ ∃ n : Nat, (n : Int) ≤ max 0 (mem.idleTicks b.memory) ∧
      (∀ i < n, b.clock + i < clkMax) ∧ batchTick mem o (b.idled mem n) = .ok c := by
  unfold drainStep at h
  extract_lets idle at h
  split_ifs at h with hout hmax hneg
  obtain ⟨hroom, htick⟩ := jumpThenTick_eq_ok (by omega) (proceed_running h)
  refine ⟨hout, idle.toNat, ?_, hroom, htick⟩
  have hidle : idle = 0 ∨ idle = mem.idleTicks b.memory := by
    by_cases ht : o.tickOnly = true
    · exact .inl (if_pos ht)
    · exact .inr (if_neg ht)
  omega

theorem drainStep_done_ok (h : drainStep mem o b = .done (.ok c)) : ¬b.Outstanding ∧ b = c := by
  unfold drainStep at h
  extract_lets idle at h
  split_ifs at h with hout hmax hneg
  · simp at h
  · simp at h
  · exact absurd h proceed_ne_done_ok
  · exact ⟨hout, by simpa using h⟩

theorem drainStep_tickOnly (ho : o.tickOnly = true) (hout : b.Outstanding)
    (h : batchTick mem o b = .ok c) : drainStep mem o b = .running c := by
  unfold drainStep
  rw [if_pos (show _ ∨ _ from hout)]
  simp [ho, clkMax, jumpThenTick, proceed, Except.bind, h]

theorem drainStep_simulates (hmem : mem.Honours Same SameRequest) (hcmp : o.Comparable o') :
    Loop.Simulates (fun b b' => b.Agree Same o o' b') Normal (DoneAgree Same o o')
      (drainStep mem o) (drainStep mem o') where
  running := by
    intro b b' c hb hstep
    obtain ⟨hout, n, hidle, hroom, htick⟩ := drainStep_running hstep
    -- the idle ticks leave everything outstanding that was
    have hstays : ∀ i d, (b.idled mem i).Agree Same o o' d → d.Outstanding := fun i d hd =>
      hd.outstanding_iff.mp hout
    obtain ⟨d, hiter, hd⟩ : ∃ d, Loop.iterate (drainStep mem o') n b' = .running d ∧
        (b.idled mem n).Agree Same o o' d := by
      refine Loop.iterate_chain (P := fun i d => (b.idled mem i).Agree Same o o' d) ?_ ?_
      · intro i hi d hd
        obtain ⟨c', hc', hagree⟩ := idled_succ_agree hmem hcmp (by omega) (hroom i hi) hd
        exact ⟨c', drainStep_tickOnly hcmp.tickOnly (hstays i d hd) hc', hagree⟩
      · rwa [idled_zero]
    obtain ⟨c', hc', hagree⟩ := batchTick_agree hmem hcmp hd htick
    refine ⟨n, c', ?_, hagree⟩
    rw [Loop.iterate_add_running hiter, Loop.iterate_one,
      drainStep_tickOnly hcmp.tickOnly (hstays n d hd) hc']
  done := by
    rintro b b' _ hb hstep ⟨c, rfl⟩
    obtain ⟨hout, rfl⟩ := drainStep_done_ok hstep
    refine ⟨0, .ok b', ?_, b, b', rfl, rfl, hb⟩
    rw [Loop.iterate_one]
    exact if_neg fun h => hout (hb.outstanding_iff.mpr h)

/-! ### Retrying a rejected request -/

/-- The driver after a send, callbacks apart. -/
def Batch.withMemory (b : Batch M) (m : M) : Batch M := { b with memory := m }

theorem Batch.Agree.withMemory (h : b.Agree Same o o' b') {m m' : M} (hm : Same m m') :
    (b.withMemory m).Agree Same o o' (b'.withMemory m') :=
  { h with memory := hm }

/-- An iteration that goes on was rejected, and has skipped idle ticks and one more. -/
theorem retryStep_running (hmem : mem.Honours Same SameRequest) {r : Request C BatchCallback}
    {p : Request C BatchCallback × Batch M} (h : retryStep mem o (r, b) = .running p) :
    (mem.send b.memory r).accepted = false ∧
      ∃ (n : Nat) (c : Batch M), (n : Int) ≤ max 0 (mem.idleTicks (mem.send b.memory r).memory) ∧
        (∀ i < n, b.clock + i < clkMax) ∧
        batchTick mem o ((b.withMemory (mem.send b.memory r).memory).idled mem n) = .ok c ∧
        p = ((mem.send b.memory r).request, c) := by
  cases hacc : (mem.send b.memory r).accepted with
  | true => simp [retryStep, hacc] at h
  | false =>
      obtain ⟨hdone, -, -⟩ := hmem.rejected hacc
      simp only [retryStep, hacc, hdone, complete, List.foldl_nil, Bool.false_eq_true, if_false] at h
      generalize hidle : (if (o.skipIdleRetries && !o.tickOnly) = true then
        mem.idleTicks (mem.send b.memory r).memory else 0) = idle at h
      split_ifs at h with hbad
      obtain ⟨c, hc, rfl⟩ := proceed_map_running h
      obtain ⟨hroom, htick⟩ := jumpThenTick_eq_ok (by omega) hc
      refine ⟨rfl, idle.toNat, c, ?_, hroom, htick, rfl⟩
      split_ifs at hidle <;> omega

/-- With `tick_only` a rejected request costs one tick. -/
theorem retryStep_tickOnly (hmem : mem.Honours Same SameRequest) (ho : o.tickOnly = true)
    {r : Request C BatchCallback} (hacc : (mem.send b.memory r).accepted = false)
    (h : batchTick mem o (b.withMemory (mem.send b.memory r).memory) = .ok c) :
    retryStep mem o (r, b) = .running ((mem.send b.memory r).request, c) := by
  obtain ⟨hdone, -, -⟩ := hmem.rejected hacc
  unfold Batch.withMemory at h
  simp [retryStep, hacc, hdone, complete, ho, clkMax, jumpThenTick, proceed, Except.bind, h,
    Except.map]

/-- A rejected request stays rejected through the idle ticks that follow. -/
theorem rejects_after (hmem : mem.Honours Same SameRequest) {m : M} {r : Request C BatchCallback}
    (hacc : (mem.send m r).accepted = false) {i : Nat}
    (hi : (i : Int) ≤ max 0 (mem.idleTicks (mem.send m r).memory)) :
    (mem.send (mem.after (mem.send m r).memory i) (mem.send m r).request).accepted = false := by
  obtain ⟨-, hsame, hreq⟩ := hmem.rejected hacc
  have hagain : (mem.send (mem.send m r).memory (mem.send m r).request).accepted = false :=
    (hmem.send_congr hsame hreq).1.symm.trans hacc
  cases i with
  | zero => simpa [BatchMemory.after] using hagain
  | succ i => exact hmem.idle_rejects (by omega) hagain

theorem retryStep_simulates (hmem : mem.Honours Same SameRequest) (hcmp : o.Comparable o') :
    Loop.Simulates (fun p p' => SameRequest p.1 p'.1 ∧ p.2.Agree Same o o' p'.2) Normal
      (DoneAgree Same o o') (retryStep mem o) (retryStep mem o') where
  running := by
    rintro ⟨r, b⟩ ⟨r', b'⟩ p ⟨hr, hb⟩ hstep
    obtain ⟨hacc, n, c, hidle, hroom, htick, rfl⟩ := retryStep_running hmem hstep
    obtain ⟨-, hsame, hreq⟩ := hmem.rejected hacc
    generalize hrej : b.withMemory (mem.send b.memory r).memory = d at htick
    -- in the reference each of these ticks is preceded by one more rejected send
    have hresend : ∀ i : Nat, i ≤ n → ∀ r₁ b₁, SameRequest (mem.send b.memory r).request r₁ →
        (d.idled mem i).Agree Same o o' b₁ →
        (mem.send b₁.memory r₁).accepted = false ∧
          SameRequest (mem.send b.memory r).request (mem.send b₁.memory r₁).request ∧
          (d.idled mem i).Agree Same o o' (b₁.withMemory (mem.send b₁.memory r₁).memory) := by
      intro i hi r₁ b₁ hr₁ hb₁
      have hacc₁ : (mem.send b₁.memory r₁).accepted = false := by
        rw [← (hmem.send_congr hb₁.memory hr₁).1, ← hrej]
        exact rejects_after hmem hacc (by omega)
      obtain ⟨-, hsame₁, hreq₁⟩ := hmem.rejected hacc₁
      exact ⟨hacc₁, hmem.sameRequest.trans hr₁ hreq₁,
        { hb₁ with memory := hmem.same.trans hb₁.memory hsame₁ }⟩
    obtain ⟨⟨r₁, b₁⟩, hiter, hr₁, hb₁⟩ : ∃ p', Loop.iterate (retryStep mem o') n (r', b') =
        .running p' ∧ SameRequest (mem.send b.memory r).request p'.1 ∧
          (d.idled mem n).Agree Same o o' p'.2 := by
      refine Loop.iterate_chain (P := fun i (p : Request C BatchCallback × Batch M) =>
        SameRequest (mem.send b.memory r).request p.1 ∧ (d.idled mem i).Agree Same o o' p.2) ?_ ?_
      · rintro i hi ⟨r₁, b₁⟩ ⟨hr₁, hb₁⟩
        obtain ⟨hacc₁, hr₂, hb₂⟩ := hresend i hi.le r₁ b₁ hr₁ hb₁
        have hi' : (i : Int) < mem.idleTicks d.memory := by
          rw [← hrej]
          simp only [Batch.withMemory]
          omega
        have hclk : d.clock + i < clkMax := by
          rw [← hrej]
          exact hroom i hi
        obtain ⟨c', hc', hagree⟩ := idled_succ_agree hmem hcmp hi' hclk hb₂
        exact ⟨_, retryStep_tickOnly hmem hcmp.tickOnly hacc₁ hc', hr₂, hagree⟩
      · refine ⟨hmem.sameRequest.trans (hmem.sameRequest.symm hreq) hr, ?_⟩
        rw [idled_zero, ← hrej]
        exact { hb with memory := hmem.same.trans (hmem.same.symm hsame) hb.memory }
    obtain ⟨hacc₁, hr₂, hb₂⟩ := hresend n le_rfl r₁ b₁ hr₁ hb₁
    obtain ⟨c', hc', hagree⟩ := batchTick_agree hmem hcmp hb₂ htick
    refine ⟨n, (_, c'), ?_, hr₂, hagree⟩
    rw [Loop.iterate_add_running hiter, Loop.iterate_one,
      retryStep_tickOnly hmem hcmp.tickOnly hacc₁ hc']
  done := by
    rintro ⟨r, b⟩ ⟨r', b'⟩ _ ⟨hr, hb⟩ hstep ⟨c, rfl⟩
    obtain ⟨hacc, hdone, hsame⟩ := hmem.send_congr hb.memory hr
    cases hsent : (mem.send b.memory r).accepted with
    | false =>
        simp only [retryStep, hsent, Bool.false_eq_true, if_false] at hstep
        generalize (if (o.skipIdleRetries && !o.tickOnly) = true then _ else (0 : Int)) = idle
          at hstep
        split_ifs at hstep
        · simp at hstep
        · exact absurd hstep proceed_ne_done_ok
    | true =>
        obtain rfl : complete o (mem.send b.memory r).completed
            (b.withMemory (mem.send b.memory r).memory) = c := by
          simpa [retryStep, hsent, Batch.withMemory] using hstep
        refine ⟨0, .ok (complete o' (mem.send b'.memory r').completed
          (b'.withMemory (mem.send b'.memory r').memory)), ?_, _, _, rfl, rfl, ?_⟩
        · simp [Loop.iterate_one, retryStep, ← hacc, hsent, Batch.withMemory]
        · rw [← hdone]
          exact complete_agree hcmp (hb.withMemory hsame) _

/-! ### The whole run -/

/-- A loop of the driver that ends normally has a counterpart in the reference that does. -/
theorem run_agree {S : Type} {Rel : S → S → Prop}
    {step step' : S → Loop.Outcome S (Except BatchError (Batch M))}
    (hsim : Loop.Simulates Rel Normal (DoneAgree Same o o') step step') {s : S}
    {fuel : Nat} (h : Loop.run step fuel s = some (.ok c)) (s' : S) (hs : Rel s s') :
    ∃ fuel' c', Loop.run step' fuel' s' = some (.ok c') ∧ c.Agree Same o o' c' := by
  rw [Loop.run_eq_some_iff] at h
  obtain ⟨fuel', q, hq, d, c', hd, rfl, hagree⟩ := hsim.iterate_done hs h ⟨c, rfl⟩
  obtain rfl : c = d := by simpa using hd
  exact ⟨fuel', c', Loop.run_eq_some_iff.mpr hq, hagree⟩

theorem boundary_agree (h : b.Agree Same o o' b') : (boundary b).Agree Same o o' (boundary b') := by
  have hagg := h.result.1
  simp only [BatchResult.aggregates, BatchResult.mk.injEq, true_and] at hagg
  refine { h with result := ⟨?_, h.result.2⟩ }
  simp [boundary, BatchResult.aggregates, hagg, h.clock, h.expectedReads, h.expectedWrites]

theorem markFinalAdmission_agree (h : b.Agree Same o o' b') :
    (markFinalAdmission b).Agree Same o o' (markFinalAdmission b') := by
  have hagg := h.result.1
  simp only [BatchResult.aggregates, BatchResult.mk.injEq, true_and] at hagg
  refine { h with result := ⟨?_, h.result.2⟩ }
  simp [markFinalAdmission, BatchResult.aggregates, hagg, h.clock]

theorem expect_agree (hcmp : o.Comparable o') (h : b.Agree Same o o' b') (entry : BatchRequest) :
    (expect o entry b).Agree Same o o' (expect o' entry b') :=
  { h with
    nextFrontendId := by simp [expect, h.nextFrontendId]
    expectedReads := by simp [expect, h.expectedReads]
    expectedWrites := by simp [expect, h.expectedWrites, hcmp.drainWrites] }

theorem recordAdmission_agree (hcmp : o.Comparable o') (h : b.Agree Same o o' b') (i : Nat)
    (entry : BatchRequest) :
    (recordAdmission o i entry b).Agree Same o o' (recordAdmission o' i entry b') := by
  have hagg := h.result.1
  simp only [BatchResult.aggregates, BatchResult.mk.injEq, true_and] at hagg
  refine { h with result := ⟨?_, fun hrec => ?_⟩ }
  · simp [recordAdmission, BatchResult.aggregates, hagg, h.clock, hcmp.warmupRequests]
  · simp [recordAdmission, hrec, h.result.2 hrec, h.clock]

/-- Sequencing of runs that may stop: both parts end normally. -/
theorem bind_eq_ok {α β : Type} {x : Run α} {f : α → Run β} {y : β} :
    x >>= f = some (Except.ok y) ↔ ∃ a, x = some (Except.ok a) ∧ f a = some (Except.ok y) := by
  constructor
  · intro h
    rcases x with - | (e | a)
    · exact absurd h (by simp [bind, ExceptT.bind, ExceptT.mk])
    · have herr : (some (Except.error e) : Option (Except BatchError β)) = some (.ok y) := h
      simp at herr
    · exact ⟨a, rfl, h⟩
  · rintro ⟨a, rfl, h⟩
    exact h

theorem pure_eq_ok {α : Type} {a y : α} : (pure a : Run α) = some (Except.ok y) ↔ a = y := by
  constructor
  · intro h
    have hok : (some (Except.ok a) : Option (Except BatchError α)) = some (.ok y) := h
    simpa using hok
  · rintro rfl
    rfl

/-- An offer that ends normally has a counterpart in the reference, with any fuel from some on. -/
theorem offer_agree (hmem : mem.Honours Same SameRequest) (hcmp : o.Comparable o')
    (h : b.Agree Same o o' b') {fuel i : Nat} {entry : BatchRequest}
    (hrun : offer mem o fuel i entry b = some (.ok c)) :
    ∃ fuel' c', (∀ n, fuel' ≤ n → offer mem o' n i entry b' = some (.ok c')) ∧
      c.Agree Same o o' c' := by
  obtain ⟨b₁, hwait, hrun⟩ := bind_eq_ok.mp hrun
  obtain ⟨b₂, hsend, hrec⟩ := bind_eq_ok.mp hrun
  obtain rfl := pure_eq_ok.mp hrec
  -- the wait
  have hstart : (if i = o.warmupRequests then boundary b else b).Agree Same o o'
      (if i = o'.warmupRequests then boundary b' else b') := by
    rw [← hcmp.warmupRequests]
    split
    · exact boundary_agree h
    · exact h
  generalize (if i = o.warmupRequests then boundary b else b) = d at hwait hstart
  generalize hd' : (if i = o'.warmupRequests then boundary b' else b') = d' at hstart
  obtain ⟨n₁, b₁', hwait', hagree₁⟩ : ∃ n b₁', (∀ m, n ≤ m →
      awaitArrival mem o' m entry d' = some (.ok b₁')) ∧ b₁.Agree Same o o' b₁' := by
    unfold awaitArrival at hwait ⊢
    rw [← hstart.clock]
    by_cases hlate : entry.arrival > d.clock
    · simp only [if_pos hlate] at hwait ⊢
      obtain ⟨n, b₁', hn, hagree⟩ := run_agree (advanceStep_simulates hmem hcmp) hwait
        (entry.arrival - d.clock, d') ⟨rfl, hstart⟩
      exact ⟨n, b₁', fun m hm => Loop.run_mono hm hn, hagree⟩
    · simp only [if_neg hlate] at hwait ⊢
      obtain rfl := pure_eq_ok.mp hwait
      exact ⟨0, d', fun _ _ => rfl, hstart⟩
  -- the retries
  obtain ⟨n₂, b₂', hsend', hagree₂⟩ := run_agree (retryStep_simulates hmem hcmp) hsend
    (buildRequest mem.txBytes o' b₁'.nextFrontendId i entry, expect o' entry b₁')
    ⟨by simpa [buildRequest, hagree₁.nextFrontendId, hcmp.drainWrites] using hmem.sameRequest.refl _,
      expect_agree hcmp hagree₁ entry⟩
  refine ⟨max n₁ n₂, recordAdmission o' i entry b₂', fun n hn => ?_,
    recordAdmission_agree hcmp hagree₂ i entry⟩
  refine bind_eq_ok.mpr ⟨b₁', ?_, bind_eq_ok.mpr ⟨b₂', ?_, rfl⟩⟩
  · rw [hd']
    exact hwait' n (by omega)
  · exact Loop.run_mono (by omega) hsend'

theorem offerAll_agree (hmem : mem.Honours Same SameRequest) (hcmp : o.Comparable o') {fuel : Nat}
    (input : List BatchRequest) {i : Nat} (h : b.Agree Same o o' b')
    (hrun : offerAll mem o fuel i input b = some (.ok c)) :
    ∃ fuel' c', (∀ n, fuel' ≤ n → offerAll mem o' n i input b' = some (.ok c')) ∧
      c.Agree Same o o' c' := by
  induction input generalizing i b b' with
  | nil =>
      obtain rfl := pure_eq_ok.mp hrun
      exact ⟨0, b', fun _ _ => rfl, h⟩
  | cons entry rest ih =>
      obtain ⟨b₁, hoffer, hrest⟩ := bind_eq_ok.mp hrun
      obtain ⟨n₁, b₁', hoffer', h₁⟩ := offer_agree hmem hcmp h hoffer
      obtain ⟨n₂, c', hrest', hagree⟩ := ih h₁ hrest
      refine ⟨max n₁ n₂, c', fun n hn => ?_, hagree⟩
      exact bind_eq_ok.mpr ⟨b₁', hoffer' n (by omega), hrest' n (by omega)⟩

theorem startBatch_agree (hmem : mem.Honours Same SameRequest) (size : Nat) (state : BatchState)
    (memory : M) :
    (startBatch o size state memory).Agree Same o o' (startBatch o' size state memory) :=
  { memory := hmem.same.refl memory
    clock := rfl
    nextFrontendId := rfl
    expectedReads := rfl
    expectedWrites := rfl
    result := ⟨rfl, fun hrec => by simp [startBatch, hrec]⟩ }

theorem replay_agree (hmem : mem.Honours Same SameRequest) (hcmp : o.Comparable o')
    {input : List BatchRequest} {fuel : Nat} (h : b.Agree Same o o' b')
    (hrun : replay mem input o fuel b = some (.ok c)) :
    ∃ fuel' c', replay mem input o' fuel' b' = some (.ok c') ∧ c.Agree Same o o' c' := by
  obtain ⟨b₁, hoffers, hdrain⟩ := bind_eq_ok.mp hrun
  obtain ⟨n₁, b₁', hoffers', h₁⟩ := offerAll_agree hmem hcmp input h hoffers
  have h₂ : (if o.warmupRequests = input.length then boundary b₁ else b₁).Agree Same o o'
      (if o'.warmupRequests = input.length then boundary b₁' else b₁') := by
    rw [← hcmp.warmupRequests]
    split
    · exact boundary_agree h₁
    · exact h₁
  obtain ⟨n₂, c', hdrain', hagree⟩ := run_agree (drainStep_simulates hmem hcmp) hdrain
    (markFinalAdmission (if o'.warmupRequests = input.length then boundary b₁' else b₁'))
    (markFinalAdmission_agree h₂)
  refine ⟨max n₁ n₂, c', ?_, hagree⟩
  exact bind_eq_ok.mpr ⟨b₁', hoffers' _ (by omega), Loop.run_mono (by omega) hdrain'⟩

end Agreement

/-! ## Skipping is exact -/

/-- For every memory system that honours its contract: a run of `run_batch` with idle skipping that
ends normally has the same result as the run with `tick_only` (which ends normally too), and leaves
the same clock and next frontend id. Whether the runs skip idle retries and whether they record the
requests makes no difference, except that the recorded lists are compared only if both record. -/
theorem runBatch_tickOnly {mem : BatchMemory M C} {Same : M → M → Prop}
    {SameRequest : Request C BatchCallback → Request C BatchCallback → Prop}
    (hmem : mem.Honours Same SameRequest) {o o' : BatchOptions} (htick : o'.tickOnly = true)
    (hdrain : o.drainWrites = o'.drainWrites) (hwarm : o.warmupRequests = o'.warmupRequests)
    {input : List BatchRequest} {fuel : Nat} {state state₁ : BatchState} {memory memory₁ : M}
    {result : BatchResult}
    (hrun : runBatch mem input o fuel state memory = some (.ok (result, state₁, memory₁))) :
    ∃ fuel' result' memory₁',
      runBatch mem input o' fuel' state memory = some (.ok (result', state₁, memory₁')) ∧
        result.aggregates = result'.aggregates ∧
        (o.recordRequests = o'.recordRequests →
          result.admitted = result'.admitted ∧ result.departed = result'.departed) ∧
        Same memory₁ memory₁' := by
  have hcmp : o.Comparable o' := ⟨htick, hdrain, hwarm⟩
  unfold runBatch at hrun ⊢
  rw [← hwarm]
  split_ifs at hrun ⊢ with hpop hvalid hstate
  · cases hrun
  · cases hrun
  · cases hrun
  · obtain ⟨b, hb, hout⟩ := bind_eq_ok.mp hrun
    obtain ⟨rfl, rfl, rfl⟩ : { b.result with elapsed := b.clock } = result ∧
        (⟨b.clock, b.nextFrontendId⟩ : BatchState) = state₁ ∧ b.memory = memory₁ := by
      simpa using pure_eq_ok.mp hout
    obtain ⟨fuel', b', hb', hagree⟩ := replay_agree hmem hcmp
      (startBatch_agree hmem input.length state memory) hb
    refine ⟨fuel', { b'.result with elapsed := b'.clock }, b'.memory,
      bind_eq_ok.mpr ⟨b', hb', ?_⟩, ?_, hagree.result.2, hagree.memory⟩
    · rw [pure_eq_ok, hagree.clock, hagree.nextFrontendId]
    · have hagg := hagree.result.1
      simp only [BatchResult.aggregates, BatchResult.mk.injEq, true_and] at hagg
      simp [BatchResult.aggregates, hagg, hagree.clock]

/-- A memory system with one slot that serves a request in four cycles and counts rejections. -/
structure SlotMemory where
  clock : Int := 0
  slot : Option (Int × Request Unit BatchCallback) := none
  rejects : Nat := 0

def slotMemory : BatchMemory SlotMemory Unit where
  send := fun m r =>
    match m.slot with
    | some _ => ⟨false, { m with rejects := m.rejects + 1 }, r, []⟩
    | none => ⟨true, { m with slot := some (m.clock + 4, { r with depart := m.clock + 4 }) }, r, []⟩
  tick := fun m =>
    match m.slot with
    | none => ({ m with clock := m.clock + 1 }, [])
    | some (due, r) =>
        if due ≤ m.clock + 1 then ({ m with clock := m.clock + 1, slot := none }, [r])
        else ({ m with clock := m.clock + 1 }, [])
  idleTicks := fun m =>
    match m.slot with
    | none => clkMax
    | some (due, _) => max 0 (due - m.clock - 1)
  fastForward := fun m k => { m with clock := m.clock + k }
  txBytes := 64

theorem slotMemory_honours :
    slotMemory.Honours (fun m m' => m.clock = m'.clock ∧ m.slot = m'.slot) (· = ·) where
  same := ⟨fun _ => ⟨rfl, rfl⟩, fun h => ⟨h.1.symm, h.2.symm⟩,
    fun h h' => ⟨h.1.trans h'.1, h.2.trans h'.2⟩⟩
  sameRequest := eq_equivalence
  tick_congr := by
    rintro ⟨clock, slot, n⟩ ⟨_, _, n'⟩ ⟨rfl, rfl⟩
    rcases slot with - | ⟨due, r⟩
    · simp [slotMemory]
    · by_cases hdue : due ≤ clock + 1 <;> simp [slotMemory, hdue]
  send_congr := by
    rintro ⟨clock, slot, n⟩ ⟨_, _, n'⟩ r _ ⟨rfl, rfl⟩ rfl
    cases slot <;> simp [slotMemory]
  rejected := by
    rintro ⟨clock, slot, n⟩ r h
    cases slot <;> simp_all [slotMemory]
  idle := by
    rintro ⟨clock, slot, n⟩ i hi
    have hafter : ∀ k : Nat, slotMemory.after ⟨clock, slot, n⟩ k = ⟨clock + k, slot, n⟩ := by
      intro k
      cases k <;> simp [BatchMemory.after, slotMemory]
    rw [hafter, hafter]
    rcases slot with - | ⟨due, r⟩
    · simp [slotMemory, Int.add_assoc]
    · simp only [slotMemory] at hi
      simp only [slotMemory, if_neg (show ¬due ≤ clock + i + 1 by omega)]
      simp [Int.add_assoc]
  idle_rejects := by
    rintro ⟨clock, slot, n⟩ r i - h
    cases slot with
    | none => simp [slotMemory] at h
    | some p => cases i <;> simp [BatchMemory.after, slotMemory]

/-- Two reads that arrive together: the second is retried over an idle stretch, and the tick-only run
records the same admissions and departures. -/
theorem runBatch_tickOnly_slotMemory :
    ∃ fuel result state memory,
      runBatch slotMemory [⟨0, 0, 2, 0⟩, ⟨64, 0, 2, 0⟩] { tickOnly := true } fuel {} {} =
        some (.ok (result, state, memory)) ∧
      result.admitted = [2, 6] ∧ result.departed = [6, 10] ∧ state = ⟨10, 2⟩ := by
  have hfast : Option.map (fun x => x.toOption.map fun x => (x.1.admitted, x.1.departed, x.2.1))
      (runBatch slotMemory [⟨0, 0, 2, 0⟩, ⟨64, 0, 2, 0⟩] { skipIdleRetries := true } 3 {} {}) =
        some (some ([2, 6], [6, 10], ⟨10, 2⟩)) := by decide +kernel
  generalize hrun : runBatch slotMemory [⟨0, 0, 2, 0⟩, ⟨64, 0, 2, 0⟩] { skipIdleRetries := true } 3
    {} {} = out at hfast
  rcases out with - | (e | ⟨result, state, memory⟩)
  · cases hfast
  · cases hfast
  · obtain ⟨hadm, hdep, hstate⟩ : result.admitted = [2, 6] ∧ result.departed = [6, 10] ∧
        state = ⟨10, 2⟩ := by simpa [Except.toOption] using hfast
    obtain ⟨fuel, result', memory', hrun', -, hlists, -⟩ :=
      @runBatch_tickOnly _ _ _ _ _ slotMemory_honours { skipIdleRetries := true }
        { tickOnly := true } rfl rfl rfl _ _ _ _ _ _ _ hrun
    obtain ⟨hadm', hdep'⟩ := hlists rfl
    exact ⟨fuel, result', state, memory', hrun', hadm' ▸ hadm, hdep' ▸ hdep, hstate⟩

end Ramulator.Base
