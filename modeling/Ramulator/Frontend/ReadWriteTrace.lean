/-
# Ramulator.Frontend.ReadWriteTrace — replaying a trace of address vectors.

`ReadWriteTrace` (`frontend/impl/memory_trace/readwrite_trace.cpp`) sends one record of its trace per
tick and moves on when the memory system accepts it. It builds its requests from the vector alone, so
all of them have the default flat address, and behind the pass-through mappers every waiting write looks
like a write to whatever location comes next.
-/
import Ramulator.MemorySystem.PassThrough

namespace Ramulator.Frontend

open Ramulator.Base (Request)
open Ramulator.Controller Ramulator.Dram Ramulator.Lib Ramulator.MemorySystem
open Ramulator.MemorySystem.PassThrough (base location)

variable {K : Type}

/-! ## The frontend -/

/-- One line of a trace (`ReadWriteTrace::Trace`). -/
structure TraceRecord where
  isWrite : Bool
  addrVec : AddrVec
  deriving DecidableEq, Repr

structure ReadWriteTrace where
  currTraceIdx : Nat := 0
  traceCount : Nat := 0
  deriving DecidableEq, Repr

namespace ReadWriteTrace

/-- The request of a record. -/
def request (txBytes : Int) (t : TraceRecord) : Request Command K :=
  { Request.ofAddrVec t.addrVec (if t.isWrite then Request.write else Request.read) with
    sizeBytes := txBytes }

/-- `is_finished`. -/
def isFinished (records : List TraceRecord) (f : ReadWriteTrace) : Bool := f.traceCount ≥ records.length

/-- The record went out. -/
def advance (records : List TraceRecord) (f : ReadWriteTrace) : ReadWriteTrace where
  currTraceIdx := (f.currTraceIdx + 1) % records.length
  traceCount := f.traceCount + 1

/-- `tick`. An empty trace is read out of its bounds. -/
def tick (records : List TraceRecord) (sys : GenericDRAM K) (x : ReadWriteTrace × sys.State) :
    Except String (ReadWriteTrace × sys.State) :=
  match records[x.1.currTraceIdx]? with
  | none => .error "trace index out of bounds"
  | some t =>
      (sys.send (request sys.txBytes t) x.2).map fun (sent, _, m) =>
        (if sent then advance records x.1 else x.1, m)

/-- The two sides of a simulation tick in some order, the frontend until it has finished. -/
inductive Turn (sys : GenericDRAM K) where
  | frontend
  | memory (inputs : (ch : Fin sys.numChannels) → (sys.controllers ch).Inputs)

def turn (records : List TraceRecord) (sys : GenericDRAM K) (i : Turn sys)
    (x : ReadWriteTrace × sys.State) : Except String (ReadWriteTrace × sys.State) :=
  match i with
  | .frontend => if isFinished records x.1 then .error "finished" else tick records sys x
  | .memory inputs => (sys.tick inputs x.2).map fun m => (x.1, m)

/-- The states of a run of the trace. -/
def Reached (records : List TraceRecord) (sys : GenericDRAM K) : ReadWriteTrace × sys.State → Prop :=
  Reachable ({}, sys.init) fun x i x' => turn records sys i x = .ok x'

/-! ## What the trace has put into the write buffers -/

/-- The location of a record. -/
def place (t : TraceRecord) : AddrVec := ChannelMapper.passThroughVec t.addrVec

/-- One of the first `n` records writes to `vec`, which is on channel `ch`; its flat address is the
default. -/
def Written (records : List TraceRecord) (n ch : Nat) (addr : Int) (vec : AddrVec) : Prop :=
  addr = -1 ∧ (ch : Int) = vec.coord 0 ∧
    ∃ i t, i < n ∧ records[i]? = some t ∧ t.isWrite = true ∧ place t = vec

variable {records : List TraceRecord} {p : PassThrough} {x x' : ReadWriteTrace × (p.system K).State}

/-- The trace is replayed once, and only its writes wait in the write buffers. -/
structure TraceInv (records : List TraceRecord) (x : ReadWriteTrace × (p.system K).State) : Prop where
  count_le : x.1.traceCount ≤ records.length
  idx_eq : x.1.currTraceIdx = x.1.traceCount % records.length
  writes : ∀ ch : Fin p.numChannels, WriteSetOk (Written records x.1.traceCount ch) (base x.2 ch)

theorem traceInv_init : TraceInv (K := K) (p := p) records ({}, (p.system K).init) :=
  ⟨Nat.zero_le _, (Nat.zero_mod _).symm, fun _ => writeSetOk_init⟩

/-- What a tick of the frontend does, if there is a record to send. -/
theorem tick_cases {t : TraceRecord} (ht : records[x.1.currTraceIdx]? = some t)
    (h : tick records (p.system K) x = .ok x') :
    ∃ sent req', (p.system K).send (request p.txBytes t) x.2 = .ok (sent, req', x'.2) ∧
      x'.1 = if sent then advance records x.1 else x.1 := by
  unfold tick at h
  rw [ht] at h
  obtain ⟨⟨sent, req', m⟩, hsend, rfl⟩ := except_map_eq_ok.mp h
  exact ⟨sent, req', hsend, rfl⟩

/-- Before its end the frontend is at the record that it counts. -/
theorem TraceInv.idx_of_not_finished (h : TraceInv records x)
    (hfinished : isFinished records x.1 = false) :
    x.1.traceCount < records.length ∧ x.1.currTraceIdx = x.1.traceCount := by
  have hlt : x.1.traceCount < records.length := by
    simpa [isFinished] using hfinished
  exact ⟨hlt, by rw [h.idx_eq, Nat.mod_eq_of_lt hlt]⟩

theorem TraceInv.frontend (h : TraceInv records x) (hfinished : isFinished records x.1 = false)
    (htick : tick records (p.system K) x = .ok x') : TraceInv records x' := by
  obtain ⟨hlt, hidx⟩ := h.idx_of_not_finished hfinished
  have ht : records[x.1.currTraceIdx]? = some records[x.1.traceCount] := by
    rw [hidx]
    exact List.getElem?_eq_getElem hlt
  obtain ⟨sent, req', hsend, hx'⟩ := tick_cases ht htick
  cases sent with
  | false =>
      have hbase := PassThrough.base_of_rejected hsend
      rw [if_neg Bool.false_ne_true] at hx'
      refine ⟨?_, ?_, fun ch => ?_⟩
      · rw [hx']
        exact h.count_le
      · rw [hx']
        exact h.idx_eq
      · rw [hx', hbase ch]
        exact h.writes ch
  | true =>
      rw [if_pos rfl] at hx'
      refine ⟨?_, ?_, ?_⟩
      · rw [hx']
        exact hlt
      · rw [hx']
        show (x.1.currTraceIdx + 1) % records.length = (x.1.traceCount + 1) % records.length
        rw [hidx]
      · rw [hx']
        refine PassThrough.writeSetOk_send (fun ch => (h.writes ch).mono ?_) ?_ hsend
        · rintro a v ⟨ha, hch, i, t, hi, hrest⟩
          exact ⟨ha, hch, i, t, Nat.lt_succ_of_lt hi, hrest⟩
        · intro ch hch hwrite
          refine ⟨rfl, hch, x.1.traceCount, _, Nat.lt_succ_self _, List.getElem?_eq_getElem hlt, ?_, rfl⟩
          -- a read has another type
          by_contra hread
          simp [request, Request.ofAddrVec, hread, Request.read, Request.write] at hwrite

theorem traceInv_of_reached (hx : Reached records (p.system K) x) : TraceInv records x := by
  refine hx.invariant (TraceInv records) traceInv_init ?_
  rintro x (- | inputs) x' h hturn
  · unfold turn at hturn
    dsimp only at hturn
    split_ifs at hturn with hfinished
    exact h.frontend (Bool.eq_false_iff.mpr hfinished) hturn
  · obtain ⟨m, hm, rfl⟩ := except_map_eq_ok.mp hturn
    exact ⟨h.count_le, h.idx_eq, PassThrough.writeSetOk_tick h.writes hm⟩

/-! ## One location -/

open PassThrough (OneLocation NoAlias Native)

/-- Behind a write, the trace stays at its location as far as its channel is concerned. -/
def StaysAtWrites (records : List TraceRecord) : Prop :=
  ∀ (i j : Nat) (t u : TraceRecord), i < j → records[i]? = some t → records[j]? = some u → t.isWrite = true →
    (place t).coord 0 = (place u).coord 0 → place t = place u

/-- At a tick of the frontend only the location of a waiting write counts. -/
theorem oneLocation_tick_iff (hx : Reached records (p.system K) x) {t : TraceRecord}
    (ht : records[x.1.currTraceIdx]? = some t) (htick : tick records (p.system K) x = .ok x')
    {ch : Fin p.numChannels} (hch : (ch : Int) = (place t).coord 0) :
    OneLocation (request p.txBytes t) (place t) (base x.2 ch) (base x'.2 ch) ↔
      ∀ w ∈ (base x.2 ch).write, w.addrVec = place t := by
  have hinv := traceInv_of_reached hx
  obtain ⟨sent, req', hsend, -⟩ := tick_cases ht htick
  have hsets : ∀ ch, WriteSetOk (fun a _ => a = -1) (base x.2 ch) :=
    fun ch => (hinv.writes ch).mono fun a v h => h.1
  refine (PassThrough.oneLocation_send_iff (fun _ => -1) hsets rfl hsend hch).trans ?_
  constructor
  · intro h w hw
    exact h w hw ((hsets ch).only w hw)
  · intro h w hw _
    exact h w hw

/-- A waiting write is an earlier record. -/
theorem oneLocation_of_staysAtWrites (hstays : StaysAtWrites records)
    (hx : Reached records (p.system K) x) (hfinished : isFinished records x.1 = false)
    {t : TraceRecord} (ht : records[x.1.currTraceIdx]? = some t) {ch : Fin p.numChannels}
    (hch : (ch : Int) = (place t).coord 0) : ∀ w ∈ (base x.2 ch).write, w.addrVec = place t := by
  intro w hw
  have hinv := traceInv_of_reached hx
  rw [(hinv.idx_of_not_finished hfinished).2] at ht
  obtain ⟨-, hwch, i, u, hi, hu, hwrite, hplace⟩ := (hinv.writes ch).only w hw
  rw [← hplace] at hwch ⊢
  exact hstays i x.1.traceCount u t hi hu ht hwrite (hwch.symm.trans hch)

end ReadWriteTrace

open ReadWriteTrace
open PassThrough (OneLocation NoAlias Native)

/-- When forwarding and coalescing concern one location only, for every frontend whose flat addresses
are a function of the location and for `ReadWriteTrace`, whose flat addresses are all the same. -/
theorem forwarding_concerns_one_location (p : PassThrough) :
    (∀ (lineId : AddrVec → Int) (s : (p.system K).State), (p.system K).ReachedBy (Native lineId) s →
      ∀ (req req' : Request Command K) (accepted : Bool) (s' : (p.system K).State),
        req.addr = lineId (location req) → (p.system K).send req s = .ok (accepted, req', s') →
        req'.addrVec = location req ∧
        ∀ ch : Fin p.numChannels, (ch : Int) = (location req).coord 0 →
          (OneLocation req (location req) (base s ch) (base s' ch) ↔
            NoAlias req.addr (location req) (base s ch)) ∧
          (lineId.Injective → OneLocation req (location req) (base s ch) (base s' ch))) ∧
    ∀ (records : List TraceRecord) (x x' : ReadWriteTrace × (p.system K).State) (t : TraceRecord),
      Reached records (p.system K) x → isFinished records x.1 = false →
      records[x.1.currTraceIdx]? = some t → tick records (p.system K) x = .ok x' →
      ∀ ch : Fin p.numChannels, (ch : Int) = (place t).coord 0 →
        (OneLocation (request p.txBytes t) (place t) (base x.2 ch) (base x'.2 ch) ↔
          ∀ w ∈ (base x.2 ch).write, w.addrVec = place t) ∧
        (StaysAtWrites records →
          OneLocation (request p.txBytes t) (place t) (base x.2 ch) (base x'.2 ch)) := by
  refine ⟨?_, ?_⟩
  · intro lineId s hs req req' accepted s' haddr hsend
    obtain ⟨-, -, -, -, -, -, -, hvec, -⟩ := PassThrough.send_cases hsend
    refine ⟨hvec, fun ch hch => ?_⟩
    have hsets := PassThrough.writeSetOk_of_reached hs
    have hiff := PassThrough.oneLocation_send_iff lineId hsets haddr hsend hch
    refine ⟨hiff, fun hinj => hiff.mpr fun w hw hwaddr => hinj ?_⟩
    rw [← (hsets ch).only w hw, hwaddr, haddr]
  · intro records x x' t hx hfinished ht htick ch hch
    have hiff := oneLocation_tick_iff hx ht htick hch
    exact ⟨hiff, fun hstays => hiff.mpr (oneLocation_of_staysAtWrites hstays hx hfinished ht hch)⟩

/-- One channel with the small controller. -/
def smallPassThrough : PassThrough where
  numChannels := 1
  numChannels_pos := Nat.one_pos
  config := fun _ => smallConfig
  kind := fun _ => .genericDDR
  txBytes := 64

def smallChannel : Fin smallPassThrough.numChannels := ⟨0, Nat.one_pos⟩

/-- A read, a write, and a read of the given row. -/
def smallTrace (row : Int) : List TraceRecord :=
  [⟨false, [0, 0, 0, 0, 5, 0]⟩, ⟨true, [0, 0, 0, 0, 6, 0]⟩, ⟨false, [0, 0, 0, 0, row, 0]⟩]

/-- The state at the third record, with a frontend that ticks twice as often as the memory system, and
the state after that record. -/
def smallRun (records : List TraceRecord) : Except String
    ((ReadWriteTrace × (smallPassThrough.system Unit).State) ×
      (ReadWriteTrace × (smallPassThrough.system Unit).State)) :=
  runAll (turn records _) [.frontend, .memory fun _ => ({} : TickInputs Unit), .frontend]
    ({}, (smallPassThrough.system Unit).init) >>= fun x =>
      (tick records _ x).map fun x' => (x, x')

/-- What the third record meets: its index, the waiting writes, and whether it is forwarded. -/
def smallView (r : (ReadWriteTrace × (smallPassThrough.system Unit).State) ×
    (ReadWriteTrace × (smallPassThrough.system Unit).State)) : Nat × Nat × List AddrVec × Bool :=
  (r.1.1.currTraceIdx, r.1.1.traceCount, (base r.1.2 smallChannel).write.map (·.addrVec),
    (base r.2.2 smallChannel).log = (base r.1.2 smallChannel).log ++
      [.accepted (base r.1.2 smallChannel).nextUid 0 (-1) .forwarded,
        .departureScheduled (base r.1.2 smallChannel).nextUid 2])

theorem smallRun_spec {records : List TraceRecord} {idx count : Nat} {writes : List AddrVec}
    (h : (smallRun records).map smallView = .ok (idx, count, writes, true)) :
    ∃ x x', Reached records (smallPassThrough.system Unit) x ∧
      tick records (smallPassThrough.system Unit) x = .ok x' ∧ x.1.currTraceIdx = idx ∧
      x.1.traceCount = count ∧ (base x.2 smallChannel).write.map (·.addrVec) = writes ∧
      Took .forwarded (Request.ofAddrVec [] Request.read) (base x.2 smallChannel)
        (base x'.2 smallChannel) := by
  obtain ⟨⟨x, x'⟩, hrun, hview⟩ := except_map_eq_ok.mp h
  obtain ⟨y, hy, htick⟩ := except_bind_eq_ok.mp hrun
  obtain ⟨y', hy', heq⟩ := except_map_eq_ok.mp htick
  cases heq
  simp only [smallView, Prod.mk.injEq, decide_eq_true_eq] at hview
  obtain ⟨hidx, hcount, hwrites, hlog⟩ := hview
  exact ⟨x, x', reachable_of_runAll .start hy, hy', hidx, hcount, hwrites, _, hlog⟩

/-- A read of the row that was written is forwarded, and from that row. -/
theorem forwarding_concerns_one_location_small :
    ∃ x x' : ReadWriteTrace × (smallPassThrough.system Unit).State,
      Reached (smallTrace 6) (smallPassThrough.system Unit) x ∧
      Took .forwarded (request 64 ⟨false, [0, 0, 0, 0, 6, 0]⟩) (base x.2 smallChannel)
        (base x'.2 smallChannel) ∧
      ∃ w ∈ (base x.2 smallChannel).write, w.addrVec = [0, 0, 0, 0, 6, 0] := by
  have hrun : (smallRun (smallTrace 6)).map smallView = .ok (2, 2, [[0, 0, 0, 0, 6, 0]], true) := by
    decide +kernel
  obtain ⟨x, x', hx, htick, hidx, hcount, -, hforward⟩ := smallRun_spec hrun
  have hstays : StaysAtWrites (smallTrace 6) := by
    rintro (- | - | - | i) j t u hij ht hu hwrite -
    · cases ht
      cases hwrite
    · obtain rfl | hj : j = 2 ∨ 2 < j := by omega
      · cases ht
        cases hu
        rfl
      · rw [List.getElem?_eq_none (by exact hj)] at hu
        cases hu
    · cases ht
      cases hwrite
    · cases ht
  have hone := ((forwarding_concerns_one_location smallPassThrough).2 (smallTrace 6) x x'
    ⟨false, [0, 0, 0, 0, 6, 0]⟩ hx (by rw [isFinished, hcount]; rfl) (by rw [hidx]; rfl) htick
    smallChannel rfl).2 hstays
  exact ⟨x, x', hx, hforward, hone (.inl hforward)⟩

/-- A read of another row is forwarded as well: the write that waits is all that counts. -/
theorem read_forwarded_from_other_row :
    ∃ (x x' : ReadWriteTrace × (smallPassThrough.system Unit).State) (t : TraceRecord),
      Reached (smallTrace 7) (smallPassThrough.system Unit) x ∧
      isFinished (smallTrace 7) x.1 = false ∧ (smallTrace 7)[x.1.currTraceIdx]? = some t ∧
      tick (smallTrace 7) (smallPassThrough.system Unit) x = .ok x' ∧
      (smallChannel : Int) = (place t).coord 0 ∧
      ¬ OneLocation (request 64 t) (place t) (base x.2 smallChannel) (base x'.2 smallChannel) := by
  have hrun : (smallRun (smallTrace 7)).map smallView = .ok (2, 2, [[0, 0, 0, 0, 6, 0]], true) := by
    decide +kernel
  obtain ⟨x, x', hx, htick, hidx, hcount, hwrites, hforward⟩ := smallRun_spec hrun
  refine ⟨x, x', ⟨false, [0, 0, 0, 0, 7, 0]⟩, hx, by rw [isFinished, hcount]; rfl, by rw [hidx]; rfl,
    htick, rfl, fun hone => ?_⟩
  obtain ⟨w, hw, hvec⟩ := hone (.inl hforward)
  have hmem := List.mem_map_of_mem (f := fun e : Entry Unit => e.addrVec) hw
  rw [hwrites, hvec] at hmem
  exact absurd hmem (by decide)

end Ramulator.Frontend
