/-
# Ramulator.Controller.Atomic — admission and completion around a latency model.

`AtomicControllerBase` (`controller/impl/atomic_controller_base.h`) asks a model for the departure of
each request when it admits it, and calls the request back at that clock. The model cannot revise an
answer. It is a parameter here, with a state of its own.

A callback may send again while the queue is served. What the callbacks of a tick send is an input of
that tick; if one of these sends throws, the callback catches it or the tick is abandoned with the run.
Lists of what the model was asked and of what was admitted and completed are added for the sake of
statements. No operation reads them.
-/
import Ramulator.Controller.AddrMapper
import Ramulator.Lib.TimedQueue

namespace Ramulator.Controller

open Ramulator.Base (Request)
open Ramulator.Dram Ramulator.Lib

variable {K : Type}

/-- `std::numeric_limits<Clk_t>::max()`. -/
def maxClk : Int := 2 ^ 63 - 1

/-- A latency model: `predict_departure` gets the request and the clock. -/
structure Predictor (K : Type) where
  State : Type
  init : State
  predictDeparture : Request Command K → Int → State → Int × State

/-- The parameters. `init` refuses buffers without room. -/
structure AtomicConfig where
  channelId : Int := 0
  addrMapper : AddrMapper
  readBufferSize : Nat := 64
  writeBufferSize : Nat := 64
  readBufferSize_pos : 0 < readBufferSize := by decide
  writeBufferSize_pos : 0 < writeBufferSize := by decide

/-- The buffer size for requests of this type. -/
def AtomicConfig.capacity (cfg : AtomicConfig) (req : Request Command K) : Nat :=
  if req.typeId = Request.read then cfg.readBufferSize else cfg.writeBufferSize

/-- A question to the model and its answer. -/
structure Prediction (K : Type) where
  req : Request Command K
  clk : Int
  depart : Int
  deriving DecidableEq, Repr

namespace Prediction

def isFuture (p : Prediction K) : Bool := p.clk < p.depart

/-- The request with the departure that the model gave. -/
def committed (p : Prediction K) : Request Command K := { p.req with depart := p.depart }

end Prediction

/-- The end of a request: the clock, and whether a callback was called. -/
structure Completion (K : Type) where
  entry : Timed (Request Command K)
  clk : Int
  called : Bool
  deriving DecidableEq, Repr

structure AtomicControllerBase (P : Predictor K) where
  clk : Int := 0
  measuredClk : Int := 0
  pending : TimedQueue (Request Command K) := .empty
  nextSequence : Nat := 0
  inflightReads : Nat := 0
  inflightWrites : Nat := 0
  numReadReqs : Nat := 0
  numWriteReqs : Nat := 0
  numReadReqsServed : Nat := 0
  numWriteReqsServed : Nat := 0
  readLatency : Int := 0
  sendRejects : Nat := 0
  peakInflightReads : Nat := 0
  peakInflightWrites : Nat := 0
  model : P.State := P.init
  predictions : List (Prediction K) := []
  admitted : List (Timed (Request Command K)) := []
  completed : List (Completion K) := []

/-- How a `send` ends. -/
inductive SendResult (K : Type) where
  | accepted (req : Request Command K)
  | rejected
  | threw (what : String)
  deriving DecidableEq, Repr

/-- A request that a callback sends, and whether it would catch an exception. -/
structure Reaction (K : Type) where
  req : Request Command K
  caught : Bool := false

namespace AtomicControllerBase

variable {P : Predictor K}

/-! ## Operations -/

def init (P : Predictor K) : AtomicControllerBase P := {}

/-- The requests in flight of this type. -/
def inflight (req : Request Command K) (s : AtomicControllerBase P) : Nat :=
  if req.typeId = Request.read then s.inflightReads else s.inflightWrites

/-- Ask the model. -/
def predict (req : Request Command K) (s : AtomicControllerBase P) : Int × AtomicControllerBase P :=
  let (depart, model) := P.predictDeparture req s.clk s.model
  (depart, { s with model := model, predictions := s.predictions ++ [⟨req, s.clk, depart⟩] })

/-- The counters and the queue after a departure was committed. -/
def enqueue (req : Request Command K) (s : AtomicControllerBase P) : AtomicControllerBase P :=
  let entry : Timed (Request Command K) := ⟨req.depart, s.nextSequence, req⟩
  let s := { s with
    pending := s.pending.push entry
    nextSequence := s.nextSequence + 1
    admitted := s.admitted ++ [entry] }
  if req.typeId = Request.read then
    { s with
      inflightReads := s.inflightReads + 1
      numReadReqs := s.numReadReqs + 1
      peakInflightReads := max s.peakInflightReads (s.inflightReads + 1) }
  else
    { s with
      inflightWrites := s.inflightWrites + 1
      numWriteReqs := s.numWriteReqs + 1
      peakInflightWrites := max s.peakInflightWrites (s.inflightWrites + 1) }

/-- `send` from the question to the model on. -/
def commit (req : Request Command K) (s : AtomicControllerBase P) :
    SendResult K × AtomicControllerBase P :=
  let (depart, s) := s.predict req
  if depart ≤ s.clk then (.threw "Atomic must commit a strictly future departure", s)
  else (.accepted { req with depart := depart }, s.enqueue { req with depart := depart })

/-- The request as the model gets it. -/
def arrived (cfg : AtomicConfig) (vec : AddrVec) (req : Request Command K)
    (s : AtomicControllerBase P) : Request Command K :=
  { req with addrVec := vec.set 0 cfg.channelId, arrive := s.clk }

/-- `AtomicControllerBase::send`. -/
def send (cfg : AtomicConfig) (req : Request Command K) (s : AtomicControllerBase P) :
    SendResult K × AtomicControllerBase P :=
  if req.typeId ≠ Request.read ∧ req.typeId ≠ Request.write then
    (.threw ("Atomic skeleton supports only Read/Write requests, got type_id " ++
      toString req.typeId), s)
  else if cfg.capacity req ≤ s.inflight req then (.rejected, { s with sendRejects := s.sendRejects + 1 })
  else
    match cfg.addrMapper.apply req with
    | .error what => (.threw what, s)
    | .ok vec => s.commit (s.arrived cfg vec req)

/-- The first half of a round of `serve_completed`: the entry leaves. -/
def retire (p : Timed (Request Command K)) (s : AtomicControllerBase P) : AtomicControllerBase P :=
  let completion : Completion K := ⟨p, s.clk, p.item.callback.isSome⟩
  let s := { s with
    pending := s.pending.pop
    completed := s.completed ++ [completion] }
  if p.item.typeId = Request.read then
    { s with
      inflightReads := s.inflightReads - 1
      numReadReqsServed := s.numReadReqsServed + 1
      readLatency := s.readLatency + (p.item.depart - p.item.arrive) }
  else
    { s with
      inflightWrites := s.inflightWrites - 1
      numWriteReqsServed := s.numWriteReqsServed + 1 }

/-- A `send` made by a callback. -/
def react (cfg : AtomicConfig) (s : AtomicControllerBase P) (r : Reaction K) :
    Option (AtomicControllerBase P) :=
  match s.send cfg r.req with
  | (.threw _, s') => if r.caught then some s' else none
  | (_, s') => some s'

/-- One round of `serve_completed`. -/
def serve (cfg : AtomicConfig) (reactions : Nat → List (Reaction K)) (i : Nat)
    (p : Timed (Request Command K)) (s : AtomicControllerBase P) : Option (AtomicControllerBase P) :=
  if p.item.callback.isSome then (reactions i).foldlM (react cfg) (s.retire p) else some (s.retire p)

/-- Both clocks move. -/
def advance (ticks : Int) (s : AtomicControllerBase P) : AtomicControllerBase P :=
  { s with clk := s.clk + ticks, measuredClk := s.measuredClk + ticks }

/-- `serve_completed`. -/
def serveCompleted (cfg : AtomicConfig) (reactions : Nat → List (Reaction K))
    (s : AtomicControllerBase P) : Option (AtomicControllerBase P) :=
  drain (·.pending) (serve cfg reactions) s.clk (s.pending.due s.clk) 0 s

/-- `tick`; `reactions i` is what the `i`-th callback sends. -/
def tick (cfg : AtomicConfig) (reactions : Nat → List (Reaction K)) (s : AtomicControllerBase P) :
    Option (AtomicControllerBase P) :=
  (s.advance 1).serveCompleted cfg reactions

def idleTicks (s : AtomicControllerBase P) : Int := s.pending.idle maxClk s.clk

def fastForward (ticks : Int) (s : AtomicControllerBase P) : AtomicControllerBase P := s.advance ticks

def resetStats (s : AtomicControllerBase P) : AtomicControllerBase P :=
  { s with
    measuredClk := 0
    numReadReqs := 0
    numWriteReqs := 0
    numReadReqsServed := 0
    numWriteReqsServed := 0
    readLatency := 0
    sendRejects := 0
    peakInflightReads := s.inflightReads
    peakInflightWrites := s.inflightWrites }

/-- The calls on the controller. -/
inductive Call (K : Type) where
  | send (req : Request Command K)
  | tick (reactions : Nat → List (Reaction K))
  | fastForward (ticks : Int)
  | resetStats

/-- One call. The caller of `send` goes on after an exception. -/
def call (cfg : AtomicConfig) (c : Call K) (s : AtomicControllerBase P) :
    Option (AtomicControllerBase P) :=
  match c with
  | .send req => some (s.send cfg req).2
  | .tick reactions => s.tick cfg reactions
  | .fastForward ticks => some (s.fastForward ticks)
  | .resetStats => some s.resetStats

/-- `fast_forward` is called for no more than the idle time. -/
def Allowed (s : AtomicControllerBase P) : Call K → Prop
  | .fastForward ticks => 0 ≤ ticks ∧ ticks ≤ s.idleTicks
  | _ => True

def Reached (cfg : AtomicConfig) : AtomicControllerBase P → Prop :=
  Reachable (init P) fun s c s' => s.Allowed c ∧ s.call cfg c = some s'

/-! ## What a `send` does -/

variable {cfg : AtomicConfig} {req : Request Command K} {s s' : AtomicControllerBase P}
  {result : SendResult K}

/-- The ways out of `send`. -/
theorem send_cases (h : s.send cfg req = (result, s')) :
    (∃ what, result = .threw what ∧ s' = s) ∨
    (result = .rejected ∧ cfg.capacity req ≤ s.inflight req ∧
      s' = { s with sendRejects := s.sendRejects + 1 }) ∨
    (s.inflight req < cfg.capacity req ∧ ∃ vec, cfg.addrMapper.apply req = .ok vec ∧
      (req.typeId = Request.read ∨ req.typeId = Request.write) ∧
      s.commit (s.arrived cfg vec req) = (result, s')) := by
  unfold send at h
  split_ifs at h with htype hfull
  · cases h
    exact .inl ⟨_, rfl, rfl⟩
  · cases h
    exact .inr (.inl ⟨rfl, hfull, rfl⟩)
  · have htype : req.typeId = Request.read ∨ req.typeId = Request.write := by
      simpa [or_iff_not_imp_left] using htype
    cases hvec : cfg.addrMapper.apply req with
    | error what =>
        simp only [hvec] at h
        cases h
        exact .inl ⟨what, rfl, rfl⟩
    | ok vec =>
        simp only [hvec] at h
        exact .inr (.inr ⟨not_le.mp hfull, vec, rfl, htype, h⟩)

theorem commit_cases (h : s.commit req = (result, s')) :
    ((s.predict req).1 ≤ s.clk ∧ (∃ what, result = .threw what) ∧ s' = (s.predict req).2) ∨
    (s.clk < (s.predict req).1 ∧ result = .accepted { req with depart := (s.predict req).1 } ∧
      s' = (s.predict req).2.enqueue { req with depart := (s.predict req).1 }) := by
  unfold commit at h
  dsimp only at h
  split_ifs at h with hle
  · cases h
    exact .inl ⟨hle, ⟨_, rfl⟩, rfl⟩
  · cases h
    exact .inr ⟨not_le.mp hle, rfl, rfl⟩

/-- What `enqueue` leaves, whatever the type. -/
theorem enqueue_frame (req : Request Command K) (s : AtomicControllerBase P) :
    (s.enqueue req).clk = s.clk ∧
      (s.enqueue req).pending = s.pending.push ⟨req.depart, s.nextSequence, req⟩ ∧
      (s.enqueue req).nextSequence = s.nextSequence + 1 ∧
      (s.enqueue req).predictions = s.predictions ∧
      (s.enqueue req).admitted = s.admitted ++ [⟨req.depart, s.nextSequence, req⟩] ∧
      (s.enqueue req).completed = s.completed := by
  unfold enqueue
  dsimp only
  split_ifs <;> exact ⟨rfl, rfl, rfl, rfl, rfl, rfl⟩

theorem enqueue_inflight (req : Request Command K) (s : AtomicControllerBase P) :
    (s.enqueue req).inflightReads =
        s.inflightReads + (if req.typeId = Request.read then 1 else 0) ∧
      (s.enqueue req).inflightWrites =
        s.inflightWrites + (if req.typeId = Request.read then 0 else 1) := by
  unfold enqueue
  dsimp only
  split_ifs <;> exact ⟨rfl, rfl⟩

theorem retire_inflight (p : Timed (Request Command K)) (s : AtomicControllerBase P) :
    (s.retire p).inflightReads =
        s.inflightReads - (if p.item.typeId = Request.read then 1 else 0) ∧
      (s.retire p).inflightWrites =
        s.inflightWrites - (if p.item.typeId = Request.read then 0 else 1) := by
  unfold retire
  dsimp only
  split_ifs <;> exact ⟨rfl, rfl⟩

theorem retire_frame (p : Timed (Request Command K)) (s : AtomicControllerBase P) :
    (s.retire p).clk = s.clk ∧ (s.retire p).pending = s.pending.pop ∧
      (s.retire p).nextSequence = s.nextSequence ∧ (s.retire p).predictions = s.predictions ∧
      (s.retire p).admitted = s.admitted ∧
      (s.retire p).completed = s.completed ++ [⟨p, s.clk, p.item.callback.isSome⟩] := by
  unfold retire
  dsimp only
  split_ifs <;> exact ⟨rfl, rfl, rfl, rfl, rfl, rfl⟩

/-! ## The lifecycle of requests -/

/-- The entries in the order in which they complete: those that have, and those that will. -/
def schedule (s : AtomicControllerBase P) : List (Timed (Request Command K)) :=
  s.completed.map (·.entry) ++ s.pending.entries

/-- Entries of reads. -/
def isRead (p : Timed (Request Command K)) : Bool := p.item.typeId = Request.read

/-- The counters agree with the queue. -/
structure Counts (cfg : AtomicConfig) (s : AtomicControllerBase P) : Prop where
  types : ∀ p ∈ s.pending.entries, p.item.typeId = Request.read ∨ p.item.typeId = Request.write
  reads : s.inflightReads = s.pending.entries.countP isRead
  writes : s.inflightWrites = s.pending.entries.countP (!isRead ·)
  reads_le : s.inflightReads ≤ cfg.readBufferSize
  writes_le : s.inflightWrites ≤ cfg.writeBufferSize

/-- The model was asked about each admitted request, in the order of their numbers. -/
structure Asked (s : AtomicControllerBase P) : Prop where
  predicted : (s.predictions.filter (·.isFuture)).map (·.committed) = s.admitted.map (·.item)
  departs : ∀ p ∈ s.admitted, p.depart = p.item.depart
  sequences : s.admitted.map (·.sequence) = List.range s.nextSequence

/-- The admitted requests complete once, in order and on time. -/
structure Scheduled (s : AtomicControllerBase P) : Prop where
  once : s.admitted.Perm s.schedule
  ordered : s.schedule.Pairwise Timed.Le
  onTime : ∀ c ∈ s.completed, c.clk = c.entry.depart ∧ c.clk ≤ s.clk ∧
    c.called = c.entry.item.callback.isSome
  notLate : ∀ p ∈ s.pending.entries, s.clk ≤ p.depart

/-- What holds between any two steps, also between two rounds of `serve_completed`. -/
structure Lifecycle (cfg : AtomicConfig) (s : AtomicControllerBase P) : Prop where
  counts : Counts cfg s
  asked : Asked s
  scheduled : Scheduled s

/-- Outside of a tick nothing is due. -/
def NothingDue (s : AtomicControllerBase P) : Prop := ∀ p ∈ s.pending.entries, s.clk < p.depart

theorem lifecycle_init (cfg : AtomicConfig) (P : Predictor K) : Lifecycle cfg (init P) := by
  have hpending : (init P).pending.entries = [] := rfl
  have hschedule : (init P).schedule = [] := rfl
  refine ⟨⟨?_, ?_, ?_, Nat.zero_le _, Nat.zero_le _⟩, ⟨rfl, (fun _ hp => nomatch hp), rfl⟩,
    ⟨?_, ?_, (fun _ hc => nomatch hc), ?_⟩⟩
  · simp [hpending]
  · rw [hpending]; rfl
  · rw [hpending]; rfl
  · rw [hschedule]; exact .nil
  · rw [hschedule]; exact .nil
  · simp [hpending]

theorem Counts.enqueue (h : Counts cfg s)
    (htype : req.typeId = Request.read ∨ req.typeId = Request.write)
    (hroom : s.inflight req < cfg.capacity req) : Counts cfg (s.enqueue req) := by
  let e : Timed (Request Command K) := ⟨req.depart, s.nextSequence, req⟩
  have hpending : (s.enqueue req).pending = s.pending.push e := (enqueue_frame req s).2.1
  obtain ⟨hreads, hwrites⟩ := enqueue_inflight req s
  have hperm := TimedQueue.push_perm e s.pending
  have hread : isRead e = decide (req.typeId = Request.read) := rfl
  have hreads_le := h.reads_le
  have hwrites_le := h.writes_le
  unfold inflight AtomicConfig.capacity at hroom
  refine ⟨fun x hx => ?_, ?_, ?_, ?_, ?_⟩
  · rw [hpending] at hx
    rcases TimedQueue.mem_push.mp hx with rfl | hx
    · exact htype
    · exact h.types x hx
  · rw [hreads, hpending, hperm.countP_eq, List.countP_cons, hread, ← h.reads]
    simp
  · rw [hwrites, hpending, hperm.countP_eq, List.countP_cons, hread, ← h.writes]
    simp
  · rw [hreads]
    split_ifs at hroom ⊢ <;> omega
  · rw [hwrites]
    split_ifs at hroom ⊢ <;> omega

theorem Counts.retire (h : Counts cfg s) {p : Timed (Request Command K)}
    {rest : List (Timed (Request Command K))} (hq : s.pending.entries = p :: rest) :
    Counts cfg (s.retire p) := by
  have hpending : (s.retire p).pending.entries = rest := by
    rw [(retire_frame p s).2.1]
    show s.pending.entries.tail = rest
    rw [hq]
    rfl
  obtain ⟨hreads, hwrites⟩ := retire_inflight p s
  have hread : isRead p = decide (p.item.typeId = Request.read) := rfl
  have hreads_old := h.reads
  have hwrites_old := h.writes
  rw [hq, List.countP_cons, hread] at hreads_old hwrites_old
  have hreads_le := h.reads_le
  have hwrites_le := h.writes_le
  refine ⟨fun x hx => ?_, ?_, ?_, ?_, ?_⟩
  · rw [hpending] at hx
    exact h.types x (hq ▸ List.mem_cons_of_mem p hx)
  · rw [hreads, hpending, hreads_old]
    simp
  · rw [hwrites, hpending, hwrites_old]
    simp
  · rw [hreads]
    omega
  · rw [hwrites]
    omega

/-- A question whose answer is refused changes no list but that of the questions. -/
theorem Asked.predict_past (h : Asked s) (hle : (s.predict req).1 ≤ s.clk) :
    Asked (s.predict req).2 := by
  refine { h with predicted := ?_ }
  let p : Prediction K := ⟨req, s.clk, (s.predict req).1⟩
  show ((s.predictions ++ [p]).filter (·.isFuture)).map _ = s.admitted.map (·.item)
  have hpast : p.isFuture = false := decide_eq_false (not_lt.mpr hle)
  rw [List.filter_append, List.filter_singleton, hpast]
  simpa using h.predicted

/-- The other questions are those about the admitted requests. -/
theorem Asked.enqueue (h : Asked s) (hfuture : s.clk < (s.predict req).1) :
    Asked ((s.predict req).2.enqueue { req with depart := (s.predict req).1 }) := by
  let e : Timed (Request Command K) :=
    ⟨(s.predict req).1, s.nextSequence, { req with depart := (s.predict req).1 }⟩
  let p : Prediction K := ⟨req, s.clk, (s.predict req).1⟩
  obtain ⟨-, -, hnext, hpredictions, hadmitted, -⟩ := enqueue_frame e.item (s.predict req).2
  change _ = s.predictions ++ [p] at hpredictions
  change _ = s.admitted ++ [e] at hadmitted
  change _ = s.nextSequence + 1 at hnext
  have hp : p.isFuture = true := decide_eq_true hfuture
  refine ⟨?_, fun x hx => ?_, ?_⟩
  · rw [hpredictions, hadmitted, List.filter_append, List.filter_singleton, hp, List.map_append,
      List.map_append, h.predicted]
    rfl
  · rw [hadmitted, List.mem_append, List.mem_singleton] at hx
    rcases hx with hx | rfl
    · exact h.departs x hx
    · rfl
  · rw [hadmitted, hnext, List.map_append, h.sequences, List.range_succ]
    rfl

/-- A new entry departs after everything that has completed. -/
theorem Scheduled.enqueue (h : Scheduled s) (hfuture : s.clk < req.depart) :
    Scheduled (s.enqueue req) := by
  let e : Timed (Request Command K) := ⟨req.depart, s.nextSequence, req⟩
  obtain ⟨hclk, hpending, -, -, hadmitted, hcompleted⟩ := enqueue_frame req s
  change _ = s.pending.push e at hpending
  change _ = s.admitted ++ [e] at hadmitted
  have hperm := TimedQueue.push_perm e s.pending
  have hschedule : (s.enqueue req).schedule =
      s.completed.map (·.entry) ++ (s.pending.push e).entries := by
    unfold schedule
    rw [hcompleted, hpending]
  have hold := List.pairwise_append.mp h.ordered
  refine ⟨?_, ?_, ?_, ?_⟩
  · rw [hadmitted, hschedule]
    calc (s.admitted ++ [e]).Perm (e :: s.admitted) := List.perm_append_singleton e s.admitted
      _ |>.Perm (e :: (s.completed.map (·.entry) ++ s.pending.entries)) := h.once.cons e
      _ |>.Perm (s.completed.map (·.entry) ++ e :: s.pending.entries) := List.perm_middle.symm
      _ |>.Perm (s.completed.map (·.entry) ++ (s.pending.push e).entries) :=
          hperm.symm.append_left _
  · rw [hschedule]
    refine List.pairwise_append.mpr ⟨hold.1, (s.pending.push e).sorted, fun x hx y hy => ?_⟩
    rcases TimedQueue.mem_push.mp hy with rfl | hy
    · obtain ⟨c, hc, rfl⟩ := List.mem_map.mp hx
      obtain ⟨hdepart, hle, -⟩ := h.onTime c hc
      exact .inl (by show c.entry.depart < req.depart; omega)
    · exact hold.2.2 x hx y hy
  · rw [hcompleted, hclk]
    exact h.onTime
  · rw [hpending, hclk]
    intro x hx
    rcases TimedQueue.mem_push.mp hx with rfl | hx
    · exact hfuture.le
    · exact h.notLate x hx

/-- The first entry leaves when its time has come, and not later. -/
theorem Scheduled.retire (h : Scheduled s) {p : Timed (Request Command K)}
    {rest : List (Timed (Request Command K))} (hq : s.pending.entries = p :: rest)
    (hdue : p.depart ≤ s.clk) : Scheduled (s.retire p) := by
  obtain ⟨hclk, hpop, -, -, hadmitted, hcompleted⟩ := retire_frame p s
  have hpending : (s.retire p).pending.entries = rest := by
    rw [hpop]
    show s.pending.entries.tail = rest
    rw [hq]
    rfl
  have hschedule : (s.retire p).schedule = s.schedule := by
    unfold schedule
    rw [hcompleted, hpending, hq]
    simp
  refine ⟨?_, ?_, ?_, ?_⟩
  · rw [hadmitted, hschedule]
    exact h.once
  · rw [hschedule]
    exact h.ordered
  · rw [hcompleted, hclk]
    intro c hc
    rcases List.mem_append.mp hc with hc | hc
    · exact h.onTime c hc
    · rw [List.mem_singleton.mp hc]
      exact ⟨le_antisymm (h.notLate p (hq ▸ List.mem_cons_self)) hdue, le_rfl, rfl⟩
  · rw [hpending, hclk]
    exact fun x hx => h.notLate x (hq ▸ List.mem_cons_of_mem p hx)

/-! ## Runs -/

theorem Lifecycle.commit (h : Lifecycle cfg s)
    (htype : req.typeId = Request.read ∨ req.typeId = Request.write)
    (hroom : s.inflight req < cfg.capacity req) (hcommit : s.commit req = (result, s')) :
    Lifecycle cfg s' := by
  rcases commit_cases hcommit with ⟨hle, -, rfl⟩ | ⟨hfuture, -, rfl⟩
  · exact ⟨{ h.counts with }, h.asked.predict_past hle, { h.scheduled with }⟩
  · -- the model's answer is only in the fields that the counters and the queue do not read
    have hcounts : Counts cfg (s.predict req).2 := { h.counts with }
    have hscheduled : Scheduled (s.predict req).2 := { h.scheduled with }
    exact ⟨hcounts.enqueue htype hroom, h.asked.enqueue hfuture, hscheduled.enqueue hfuture⟩

theorem Lifecycle.send (h : Lifecycle cfg s) (hsend : s.send cfg req = (result, s')) :
    Lifecycle cfg s' := by
  rcases send_cases hsend with ⟨_, -, rfl⟩ | ⟨-, -, rfl⟩ | ⟨hroom, vec, -, htype, hcommit⟩
  · exact h
  · exact ⟨{ h.counts with }, { h.asked with }, { h.scheduled with }⟩
  · have htype' : (s.arrived cfg vec req).typeId = Request.read ∨
        (s.arrived cfg vec req).typeId = Request.write := htype
    exact h.commit htype' hroom hcommit

/-- A `send` takes no time and makes nothing due. -/
theorem send_due (hsend : s.send cfg req = (result, s')) :
    s'.clk = s.clk ∧ s'.pending.due s.clk = s.pending.due s.clk := by
  rcases send_cases hsend with ⟨_, -, rfl⟩ | ⟨-, -, rfl⟩ | ⟨-, vec, -, -, hcommit⟩
  · exact ⟨rfl, rfl⟩
  · exact ⟨rfl, rfl⟩
  · rcases commit_cases hcommit with ⟨-, -, rfl⟩ | ⟨hfuture, -, rfl⟩
    · exact ⟨rfl, rfl⟩
    · obtain ⟨hclk, hpending, -⟩ := enqueue_frame
        { s.arrived cfg vec req with depart := (s.predict (s.arrived cfg vec req)).1 }
        (s.predict (s.arrived cfg vec req)).2
      refine ⟨hclk, ?_⟩
      rw [hpending]
      exact TimedQueue.due_push hfuture s.pending

theorem react_eq_some {r : Reaction K} (h : s.react cfg r = some s') :
    ∃ result, s.send cfg r.req = (result, s') := by
  unfold react at h
  cases hsend : s.send cfg r.req with
  | mk result t =>
      rw [hsend] at h
      cases result with
      | threw what =>
          dsimp only at h
          split_ifs at h
          cases h
          exact ⟨_, rfl⟩
      | accepted r' =>
          cases h
          exact ⟨_, rfl⟩
      | rejected =>
          cases h
          exact ⟨_, rfl⟩

/-- A `send` completes nothing. -/
theorem send_completed (hsend : s.send cfg req = (result, s')) : s'.completed = s.completed := by
  rcases send_cases hsend with ⟨_, -, rfl⟩ | ⟨-, -, rfl⟩ | ⟨-, vec, -, -, hcommit⟩
  · rfl
  · rfl
  · rcases commit_cases hcommit with ⟨-, -, rfl⟩ | ⟨-, -, rfl⟩
    · rfl
    · rw [(enqueue_frame _ _).2.2.2.2.2]
      rfl

/-- A round of `serve_completed` records the entry that it serves. -/
theorem serve_completed_eq {reactions : Nat → List (Reaction K)} {i : Nat}
    {p : Timed (Request Command K)} (h : s.serve cfg reactions i p = some s') :
    s'.completed = s.completed ++ [⟨p, s.clk, p.item.callback.isSome⟩] := by
  rw [← (retire_frame p s).2.2.2.2.2]
  have hreact : ∀ (rs : List (Reaction K)) t, rs.foldlM (react cfg) t = some s' →
      s'.completed = t.completed := by
    intro rs
    induction rs with
    | nil =>
        intro t h
        cases h
        rfl
    | cons r rs ih =>
        intro t h
        rw [List.foldlM_cons] at h
        obtain ⟨u, hu, h⟩ := Option.bind_eq_some_iff.mp h
        obtain ⟨result, hsend⟩ := react_eq_some hu
        rw [ih u h, send_completed hsend]
  unfold serve at h
  split_ifs at h
  · exact hreact _ _ h
  · cases h
    rfl

/-- The sends of a callback. -/
theorem foldlM_react {rs : List (Reaction K)} (h : Lifecycle cfg s)
    (hrun : rs.foldlM (react cfg) s = some s') :
    Lifecycle cfg s' ∧ s'.clk = s.clk ∧ s'.pending.due s.clk = s.pending.due s.clk := by
  induction rs generalizing s with
  | nil =>
      cases hrun
      exact ⟨h, rfl, rfl⟩
  | cons r rs ih =>
      rw [List.foldlM_cons] at hrun
      obtain ⟨t, ht, hrun⟩ := Option.bind_eq_some_iff.mp hrun
      obtain ⟨result, hsend⟩ := react_eq_some ht
      obtain ⟨hclk, hdue⟩ := send_due hsend
      obtain ⟨h', hclk', hdue'⟩ := ih (h.send hsend) hrun
      rw [hclk] at hclk' hdue'
      exact ⟨h', hclk', hdue'.trans hdue⟩

/-- A round of `serve_completed` leaves one entry less that is due. -/
theorem Lifecycle.serve {reactions : Nat → List (Reaction K)} {i : Nat}
    {p : Timed (Request Command K)} {rest : List (Timed (Request Command K))} (h : Lifecycle cfg s)
    (hq : s.pending.entries = p :: rest) (hdue : p.depart ≤ s.clk)
    (hserve : s.serve cfg reactions i p = some s') :
    Lifecycle cfg s' ∧ s'.clk = s.clk ∧ s'.pending.due s.clk + 1 = s.pending.due s.clk := by
  obtain ⟨hclk, hpop, hnext, hpredictions, hadmitted, -⟩ := retire_frame p s
  have hasked : Asked (s.retire p) := by
    refine ⟨?_, ?_, ?_⟩
    · rw [hpredictions, hadmitted]
      exact h.asked.predicted
    · rw [hadmitted]
      exact h.asked.departs
    · rw [hadmitted, hnext]
      exact h.asked.sequences
  have hretire : Lifecycle cfg (s.retire p) :=
    ⟨h.counts.retire hq, hasked, h.scheduled.retire hq hdue⟩
  have hone : (s.retire p).pending.due s.clk + 1 = s.pending.due s.clk := by
    rw [hpop]
    exact TimedQueue.due_pop hq hdue
  unfold AtomicControllerBase.serve at hserve
  split_ifs at hserve
  · obtain ⟨h', hclk', hdue'⟩ := foldlM_react hretire hserve
    rw [hclk] at hclk' hdue'
    exact ⟨h', hclk', by omega⟩
  · cases hserve
    exact ⟨hretire, hclk, hone⟩

/-- When the clock moves to where nothing is late, the lifecycle goes on. -/
theorem Lifecycle.advance {ticks : Int} (h : Lifecycle cfg s) (hticks : 0 ≤ ticks)
    (hlate : ∀ p ∈ s.pending.entries, s.clk + ticks ≤ p.depart) : Lifecycle cfg (s.advance ticks) := by
  refine ⟨{ h.counts with }, { h.asked with },
    { h.scheduled with onTime := fun c hc => ?_, notLate := hlate }⟩
  obtain ⟨hclk, hle, hcalled⟩ := h.scheduled.onTime c hc
  refine ⟨hclk, ?_, hcalled⟩
  show c.clk ≤ s.clk + ticks
  omega

theorem Lifecycle.tick {reactions : Nat → List (Reaction K)} (h : Lifecycle cfg s)
    (hnothing : s.NothingDue) (htick : s.tick cfg reactions = some s') :
    Lifecycle cfg s' ∧ s'.NothingDue ∧ s'.clk = s.clk + 1 := by
  have hstart : Lifecycle cfg (s.advance 1) := h.advance Int.one_nonneg hnothing
  have hrun := drain_spec (P := fun t => Lifecycle cfg t ∧ t.clk = s.clk + 1)
    (fun i p rest t t' ⟨ht, hclk⟩ hq hdue hserve => by
      obtain ⟨ht', hclk', hone⟩ := ht.serve hq (hclk ▸ hdue) hserve
      rw [hclk] at hclk' hone
      exact ⟨⟨ht', hclk'⟩, hone⟩)
    ⟨hstart, rfl⟩ le_rfl htick
  obtain ⟨⟨h', hclk⟩, hdue⟩ := hrun
  refine ⟨h', ?_, hclk⟩
  unfold NothingDue
  rw [hclk]
  exact hdue

theorem Lifecycle.call {c : Call K} (h : Lifecycle cfg s ∧ s.NothingDue) (hallowed : s.Allowed c)
    (hcall : s.call cfg c = some s') : Lifecycle cfg s' ∧ s'.NothingDue := by
  cases c with
  | send req =>
      obtain ⟨result, hsend⟩ : ∃ result, s.send cfg req = (result, s') :=
        ⟨_, Prod.ext rfl (Option.some.inj hcall)⟩
      obtain ⟨hclk, hdue⟩ := send_due hsend
      refine ⟨h.1.send hsend, ?_⟩
      unfold NothingDue
      rw [hclk, ← TimedQueue.due_eq_zero_iff, hdue]
      exact TimedQueue.due_eq_zero_iff.mpr h.2
  | tick reactions =>
      obtain ⟨h', hnothing, -⟩ := h.1.tick h.2 hcall
      exact ⟨h', hnothing⟩
  | fastForward ticks =>
      cases hcall
      have hlt : ∀ p ∈ s.pending.entries, s.clk + ticks < p.depart := by
        rcases hallowed.1.eq_or_lt with rfl | hpos
        · rw [add_zero]
          exact h.2
        · exact TimedQueue.due_eq_zero_iff.mp (TimedQueue.due_of_le_idle hpos hallowed.2)
      exact ⟨h.1.advance hallowed.1 fun p hp => (hlt p hp).le, hlt⟩
  | resetStats =>
      cases hcall
      exact ⟨⟨{ h.1.counts with }, { h.1.asked with }, { h.1.scheduled with }⟩, h.2⟩

theorem lifecycle_of_reached (hs : Reached cfg s) : Lifecycle cfg s ∧ s.NothingDue := by
  refine hs.invariant (fun s => Lifecycle cfg s ∧ s.NothingDue)
    ⟨lifecycle_init cfg P, fun _ hp => nomatch hp⟩ ?_
  intro s c s' h hnext
  exact Lifecycle.call h hnext.1 hnext.2

theorem foldlM_react_isSome {rs : List (Reaction K)} (hcaught : ∀ r ∈ rs, r.caught = true)
    (s : AtomicControllerBase P) : ∃ s', rs.foldlM (react cfg) s = some s' := by
  induction rs generalizing s with
  | nil => exact ⟨s, rfl⟩
  | cons r rs ih =>
      have hreact : s.react cfg r = some (s.send cfg r.req).2 := by
        unfold react
        cases hsend : s.send cfg r.req with
        | mk result t => cases result <;> simp [hcaught r List.mem_cons_self]
      rw [List.foldlM_cons, hreact]
      exact ih (fun r' hr' => hcaught r' (List.mem_cons_of_mem r hr')) _

/-- A tick returns unless a callback lets an exception through. -/
theorem tick_isSome {reactions : Nat → List (Reaction K)} (s : AtomicControllerBase P)
    (hcaught : ∀ i, ∀ r ∈ reactions i, r.caught = true) : ∃ s', s.tick cfg reactions = some s' := by
  refine drain_isSome (fun i p t => ?_) _ _ _
  unfold serve
  split_ifs
  · exact foldlM_react_isSome (hcaught i) (t.retire p)
  · exact ⟨_, rfl⟩

/-! ## The outcome of a `send` -/

theorem send_of_full (htype : req.typeId = Request.read ∨ req.typeId = Request.write)
    (hfull : cfg.capacity req ≤ s.inflight req) :
    s.send cfg req = (.rejected, { s with sendRejects := s.sendRejects + 1 }) := by
  unfold send
  rw [if_neg (not_and_or.mpr (htype.imp not_not_intro not_not_intro)), if_pos hfull]

theorem send_of_room {vec : AddrVec} (htype : req.typeId = Request.read ∨ req.typeId = Request.write)
    (hroom : s.inflight req < cfg.capacity req) (hvec : cfg.addrMapper.apply req = .ok vec) :
    s.send cfg req = s.commit (s.arrived cfg vec req) := by
  unfold send
  rw [if_neg (not_and_or.mpr (htype.imp not_not_intro not_not_intro)), if_neg (not_le.mpr hroom), hvec]

/-- One question for one request, and nothing else unless the answer is in the future. -/
theorem commit_spec (req : Request Command K) (s : AtomicControllerBase P) :
    (s.commit req).2.predictions = s.predictions ++ [⟨req, s.clk, (s.predict req).1⟩] ∧
      ((s.predict req).1 ≤ s.clk → ∃ what, (s.commit req).1 = .threw what) ∧
      (s.clk < (s.predict req).1 →
        (s.commit req).1 = .accepted { req with depart := (s.predict req).1 }) := by
  rcases commit_cases (show s.commit req = ((s.commit req).1, (s.commit req).2) from rfl) with
    ⟨hle, hthrew, hs'⟩ | ⟨hfuture, haccepted, hs'⟩
  · refine ⟨?_, fun _ => hthrew, fun hlt => absurd hle (not_le.mpr hlt)⟩
    rw [hs']
    rfl
  · refine ⟨?_, fun hle => absurd hle (not_le.mpr hfuture), fun _ => haccepted⟩
    rw [hs', (enqueue_frame _ _).2.2.2.1]
    rfl

/-- An exception leaves counters and queue alone. -/
theorem send_threw {what : String} (hsend : s.send cfg req = (.threw what, s')) :
    s'.inflightReads = s.inflightReads ∧ s'.inflightWrites = s.inflightWrites ∧
      s'.pending = s.pending := by
  rcases send_cases hsend with ⟨_, -, rfl⟩ | ⟨h, -⟩ | ⟨-, vec, -, -, hcommit⟩
  · exact ⟨rfl, rfl, rfl⟩
  · cases h
  · rcases commit_cases hcommit with ⟨-, -, rfl⟩ | ⟨-, h, -⟩
    · exact ⟨rfl, rfl, rfl⟩
    · cases h

/-! ## Completions -/

/-- Pending and completed requests are told apart by their departure. -/
theorem Scheduled.completed_iff (h : Scheduled s) (hnothing : s.NothingDue)
    {p : Timed (Request Command K)} (hp : p ∈ s.admitted) :
    p ∈ s.completed.map (·.entry) ↔ p.depart ≤ s.clk := by
  constructor
  · intro hmem
    obtain ⟨c, hc, rfl⟩ := List.mem_map.mp hmem
    obtain ⟨hclk, hle, -⟩ := h.onTime c hc
    omega
  · intro hle
    rcases List.mem_append.mp (h.once.mem_iff.mp hp) with hmem | hmem
    · exact hmem
    · exact absurd (hnothing p hmem) (not_lt.mpr hle)

theorem Counts.writes_eq (h : Counts cfg s) :
    s.inflightWrites = s.pending.entries.countP (·.item.typeId = Request.write) := by
  rw [h.writes]
  refine List.countP_congr fun p hp => ?_
  rcases h.types p hp with htype | htype <;> simp [isRead, htype, Request.read, Request.write]

end AtomicControllerBase

/-- In every reachable state the counters of requests in flight are those of the queue and within the
buffer sizes. The model was asked about the admitted requests, once for each and in the order of
admission. Each admitted request has completed, with one call of its callback at its departure, or is
pending with a departure in the future, and completions are ordered by departure and admission. A
rejected `send` does not ask the model; one whose departure is not in the future throws, and a `send`
that throws changes neither counters nor queue. -/
theorem atomic_request_lifecycle (cfg : AtomicConfig) (P : Predictor K) (s : AtomicControllerBase P)
    (hs : AtomicControllerBase.Reached cfg s) :
    (s.inflightReads = s.pending.entries.countP (·.item.typeId = Request.read) ∧
      s.inflightReads ≤ cfg.readBufferSize) ∧
    (s.inflightWrites = s.pending.entries.countP (·.item.typeId = Request.write) ∧
      s.inflightWrites ≤ cfg.writeBufferSize) ∧
    ((s.predictions.filter (·.isFuture)).map (·.committed) = s.admitted.map (·.item) ∧
      s.admitted.map (·.sequence) = List.range s.nextSequence) ∧
    s.admitted.Perm (s.completed.map (·.entry) ++ s.pending.entries) ∧
    (∀ c ∈ s.completed, c.clk = c.entry.depart ∧ c.called = c.entry.item.callback.isSome) ∧
    (∀ p ∈ s.admitted, p.depart = p.item.depart ∧
      (p ∈ s.completed.map (·.entry) ↔ p.depart ≤ s.clk)) ∧
    (s.completed.map (·.entry)).Pairwise Timed.Le ∧
    (∀ reactions, (∀ s', s.tick cfg reactions = some s' → s'.clk = s.clk + 1) ∧
      ((∀ i, ∀ r ∈ reactions i, r.caught = true) → ∃ s', s.tick cfg reactions = some s')) ∧
    (∀ req, req.typeId = Request.read ∨ req.typeId = Request.write →
      (cfg.capacity req ≤ s.inflight req → (s.send cfg req).1 = .rejected ∧
        (s.send cfg req).2.predictions = s.predictions ∧ (s.send cfg req).2.model = s.model) ∧
      ∀ vec, s.inflight req < cfg.capacity req → cfg.addrMapper.apply req = .ok vec →
        (s.send cfg req).2.predictions = s.predictions ++
          [⟨s.arrived cfg vec req, s.clk, (s.predict (s.arrived cfg vec req)).1⟩] ∧
        ((s.predict (s.arrived cfg vec req)).1 ≤ s.clk → ∃ what, (s.send cfg req).1 = .threw what) ∧
        (s.clk < (s.predict (s.arrived cfg vec req)).1 → (s.send cfg req).1 = .accepted
          { s.arrived cfg vec req with depart := (s.predict (s.arrived cfg vec req)).1 })) ∧
    ∀ req what s', s.send cfg req = (.threw what, s') → s'.inflightReads = s.inflightReads ∧
      s'.inflightWrites = s.inflightWrites ∧ s'.pending = s.pending := by
  obtain ⟨h, hnothing⟩ := AtomicControllerBase.lifecycle_of_reached hs
  refine ⟨⟨h.counts.reads, h.counts.reads_le⟩, ⟨h.counts.writes_eq, h.counts.writes_le⟩,
    ⟨h.asked.predicted, h.asked.sequences⟩, h.scheduled.once, fun c hc => ?_, fun p hp => ?_,
    (List.pairwise_append.mp h.scheduled.ordered).1, fun reactions => ⟨fun s' htick => ?_, ?_⟩,
    fun req htype => ⟨fun hfull => ?_, fun vec hroom hvec => ?_⟩,
    fun req what s' => AtomicControllerBase.send_threw⟩
  · obtain ⟨hclk, -, hcalled⟩ := h.scheduled.onTime c hc
    exact ⟨hclk, hcalled⟩
  · exact ⟨h.asked.departs p hp, h.scheduled.completed_iff hnothing hp⟩
  · exact (h.tick hnothing htick).2.2
  · exact AtomicControllerBase.tick_isSome s
  · rw [AtomicControllerBase.send_of_full htype hfull]
    exact ⟨rfl, rfl, rfl⟩
  · rw [AtomicControllerBase.send_of_room htype hroom hvec]
    exact AtomicControllerBase.commit_spec _ s

/-- A model that answers with a latency of 3, and one place for reads. -/
def smallPredictor : Predictor Unit where
  State := Unit
  init := ()
  predictDeparture := fun _ clk _ => (clk + 3, ())

def smallAtomic : AtomicConfig where
  addrMapper := .passThrough
  readBufferSize := 1

/-- A read with a callback is admitted, a second one rejected; after two idle ticks the third tick
completes the first. -/
theorem atomic_request_lifecycle_small :
    ∃ s : AtomicControllerBase smallPredictor, AtomicControllerBase.Reached smallAtomic s ∧
      s.completed.map (fun c => (c.clk, c.called)) = [(3, true)] ∧ s.sendRejects = 1 ∧
      s.inflightReads = s.pending.entries.countP (·.item.typeId = Request.read) ∧
      s.admitted.Perm (s.completed.map (·.entry) ++ s.pending.entries) := by
  let req : Request Command Unit :=
    { addrVec := [0, 0, 0, 0, 5, 0], typeId := Request.read, callback := some () }
  let s₁ := ((AtomicControllerBase.init smallPredictor).send smallAtomic req).2
  let s₂ := (s₁.send smallAtomic req).2
  let s₃ := s₂.fastForward 2
  have h₃ : AtomicControllerBase.Reached smallAtomic s₃ := by
    refine .step (.fastForward 2) (.step (.send req) (.step (.send req) .start ⟨trivial, rfl⟩)
      ⟨trivial, rfl⟩) ⟨?_, rfl⟩
    show 0 ≤ 2 ∧ 2 ≤ s₂.idleTicks
    decide +kernel
  obtain ⟨s₄, htick⟩ := (atomic_request_lifecycle smallAtomic smallPredictor s₃ h₃).2.2.2.2.2.2.2.1
    (fun _ => []) |>.2 (by simp)
  have hobs : (s₃.tick smallAtomic fun _ => []).map
      (fun s => (s.completed.map (fun c => (c.clk, c.called)), s.sendRejects)) =
      some ([(3, true)], 1) := by
    decide +kernel
  rw [htick] at hobs
  obtain ⟨hcompleted, hrejects⟩ := Prod.mk.inj (Option.some.inj hobs)
  have h₄ : AtomicControllerBase.Reached smallAtomic s₄ := .step (.tick _) h₃ ⟨trivial, htick⟩
  obtain ⟨hreads, -, -, honce, -⟩ := atomic_request_lifecycle smallAtomic smallPredictor s₄ h₄
  exact ⟨s₄, h₄, hcompleted, hrejects, hreads.1, honce⟩

end Ramulator.Controller
