/-
# Ramulator.Controller.DelayQueue — controllers that are one formula and a queue.

`FixedLatController` and `MD1Controller` (`controller/impl`) compute a departure when a request
arrives. A read waits for it in a queue; a write is done at once. The two differ in the formula and its
state and are otherwise the same code, as are the other two controllers of this kind: here one
controller with the formula as its parameter.

The heap compares departures only. Which of several reads with one departure leaves first is therefore
left open: each gets a number on its way in, and any number may be chosen. What the callbacks of a tick
send, those of the writes among it included, is an input of the tick. What the callback of a write sends
outside of a tick is sent by the calls that follow.
-/
import Ramulator.Controller.Atomic
import Ramulator.Lib.Elision

namespace Ramulator.Controller

open Ramulator.Base (Request)
open Ramulator.Dram Ramulator.Lib

variable {K : Type}

/-! ## Departure formulas -/

/-- The departure of a request, `isRead` or not, that is served from clock `t` on. -/
structure LatencyModel where
  name : String
  State : Type
  init : State
  depart : Bool → Int → State → Int × State
  resetStats : State → State := id
  le_depart : ∀ isRead t m, t ≤ (depart isRead t m).1

/-- The parameters of `FixedLatController`; `init` replaces a negative latency by the device's. -/
structure FixedLat where
  latency : Nat
  pipe : Bool := true
  burst : Int := 1

namespace FixedLat

/-- The start of service, and `m_pipe_free` after it. -/
def start (c : FixedLat) (t pipeFree : Int) : Int × Int :=
  if c.pipe then (max t pipeFree, max t pipeFree + c.burst) else (t, pipeFree)

theorem le_start (c : FixedLat) (t pipeFree : Int) : t ≤ (c.start t pipeFree).1 := by
  unfold start
  split_ifs
  · exact le_max_left t pipeFree
  · exact le_rfl

def model (c : FixedLat) : LatencyModel where
  name := "FixedLat"
  State := Int
  init := 0
  depart := fun _ t pipeFree => ((c.start t pipeFree).1 + c.latency, (c.start t pipeFree).2)
  le_depart := by
    intro _ t pipeFree
    have hstart := c.le_start t pipeFree
    show t ≤ (c.start t pipeFree).1 + c.latency
    omega

end FixedLat

/-- The parameters of `MD1Controller`. -/
structure MD1 where
  rl : Nat
  burst : Int := 1
  phaseTicks : Int := 10000
  smoothing : Float := 0.5
  phaseTicks_pos : 0 < phaseTicks := by decide

namespace MD1

structure State where
  lastPhase : Int := 0
  latency : Nat
  phaseAccesses : Nat := 0
  smoothedAccesses : Float := 0.0
  clampedLoads : Nat := 0

/-- The load, limited to 0.95, and whether it had to be. -/
def clamp (rho : Float) : Float × Nat := if rho > 0.95 then (0.95, 1) else (rho, 0)

/-- `roll_phase`. The factors of the latency are not negative, so the conversion truncates. -/
def rollPhase (c : MD1) (t : Int) (m : State) : State :=
  let phase := t.tdiv c.phaseTicks
  let elapsed := (phase - m.lastPhase) * c.phaseTicks
  if elapsed < 10000 then m
  else
    let smoothed := c.smoothing * m.phaseAccesses.toFloat + (1.0 - c.smoothing) * m.smoothedAccesses
    let (rho, clamped) := clamp ((smoothed / Float.ofInt elapsed) * Float.ofInt c.burst)
    { lastPhase := phase
      latency := ((1.0 + 0.5 * rho / (1.0 - rho)) * c.rl.toFloat).toUInt64.toNat
      phaseAccesses := 0
      smoothedAccesses := smoothed
      clampedLoads := m.clampedLoads + clamped }

def model (c : MD1) : LatencyModel where
  name := "MD1"
  State := State
  init := { latency := c.rl }
  depart := fun _ t m =>
    let m := c.rollPhase t m
    (t + m.latency, { m with phaseAccesses := m.phaseAccesses + 1 })
  resetStats := fun m => { m with clampedLoads := 0 }
  le_depart := by
    intro _ t m
    show t ≤ t + (c.rollPhase t m).latency
    omega

end MD1

/-! ## The controller -/

/-- The state. `completed` lists the requests that were completed, and whether they were called back,
for the sake of statements. -/
structure DelayController (K : Type) (M : LatencyModel) where
  clk : Int := 0
  measuredClk : Int := 0
  pending : TimedQueue (Request Command K) := .empty
  numReadReqs : Nat := 0
  numWriteReqs : Nat := 0
  numReadReqsServed : Nat := 0
  numWriteReqsServed : Nat := 0
  readLatency : Int := 0
  model : M.State := M.init
  completed : List (Completion K) := []

namespace DelayController

variable {M : LatencyModel}

def init (K : Type) (M : LatencyModel) : DelayController K M := {}

/-- `send`, which never rejects; `tie` places a read among those with its departure. -/
def send (tie : Nat) (req : Request Command K) (s : DelayController K M) :
    Except String (Request Command K × DelayController K M) :=
  if req.typeId ≠ Request.read ∧ req.typeId ≠ Request.write then
    .error (M.name ++ " only supports Read/Write")
  else
    let (depart, model) := M.depart (req.typeId = Request.read) (s.clk + 1) s.model
    let s := { s with model := model }
    if req.typeId = Request.read then
      let req := { req with arrive := s.clk, depart := depart }
      .ok (req, { s with
        numReadReqs := s.numReadReqs + 1
        pending := s.pending.push ⟨depart, tie, req⟩ })
    else
      let completion : Completion K := ⟨⟨depart, tie, req⟩, s.clk, req.callback.isSome⟩
      .ok (req, { s with
        numWriteReqs := s.numWriteReqs + 1
        numWriteReqsServed := s.numWriteReqsServed + 1
        completed := s.completed ++ [completion] })

/-- The first half of a round of the loop in `tick`. -/
def retire (p : Timed (Request Command K)) (s : DelayController K M) : DelayController K M :=
  let completion : Completion K := ⟨p, s.clk, p.item.callback.isSome⟩
  { s with
    pending := s.pending.pop
    readLatency := s.readLatency + (p.item.depart - p.item.arrive)
    numReadReqsServed := s.numReadReqsServed + 1
    completed := s.completed ++ [completion] }

/-- A `send` made by a callback. -/
def react (s : DelayController K M) (r : Nat × Reaction K) : Option (DelayController K M) :=
  match s.send r.1 r.2.req with
  | .ok (_, s') => some s'
  | .error _ => if r.2.caught then some s else none

/-- One round of the loop. -/
def serve (reactions : Nat → List (Nat × Reaction K)) (i : Nat) (p : Timed (Request Command K))
    (s : DelayController K M) : Option (DelayController K M) :=
  if p.item.callback.isSome then (reactions i).foldlM react (s.retire p) else some (s.retire p)

/-- Both clocks move. -/
def advance (ticks : Int) (s : DelayController K M) : DelayController K M :=
  { s with clk := s.clk + ticks, measuredClk := s.measuredClk + ticks }

def tick (reactions : Nat → List (Nat × Reaction K)) (s : DelayController K M) :
    Option (DelayController K M) :=
  let s := s.advance 1
  drain (·.pending) (serve reactions) s.clk (s.pending.due s.clk) 0 s

def idleTicks (s : DelayController K M) : Int := s.pending.idle maxClk s.clk

def fastForward (ticks : Int) (s : DelayController K M) : DelayController K M := s.advance ticks

def resetStats (s : DelayController K M) : DelayController K M :=
  { s with
    measuredClk := 0
    numReadReqs := 0
    numWriteReqs := 0
    numReadReqsServed := 0
    numWriteReqsServed := 0
    readLatency := 0
    model := M.resetStats s.model }

/-! ## The loop serves all that is due -/

variable {s s' : DelayController K M} {tie : Nat} {req req' : Request Command K}

/-- A `send` takes no time and makes nothing due, and what has completed stays. -/
theorem send_frame (h : s.send tie req = .ok (req', s')) :
    s'.clk = s.clk ∧ s'.pending.due s.clk = s.pending.due s.clk ∧ s.completed <+: s'.completed := by
  have hfuture := M.le_depart (req.typeId = Request.read) (s.clk + 1) s.model
  unfold send at h
  dsimp only at h
  split_ifs at h with htype hread
  · cases h
    refine ⟨rfl, TimedQueue.due_push ?_ s.pending, List.prefix_rfl⟩
    show s.clk < (M.depart (req.typeId = Request.read) (s.clk + 1) s.model).1
    omega
  · cases h
    exact ⟨rfl, rfl, List.prefix_append _ _⟩

theorem foldlM_react {rs : List (Nat × Reaction K)} (h : rs.foldlM react s = some s') :
    s'.clk = s.clk ∧ s'.pending.due s.clk = s.pending.due s.clk ∧ s.completed <+: s'.completed := by
  induction rs generalizing s with
  | nil =>
      cases h
      exact ⟨rfl, rfl, List.prefix_rfl⟩
  | cons r rs ih =>
      rw [List.foldlM_cons] at h
      obtain ⟨t, ht, h⟩ := Option.bind_eq_some_iff.mp h
      obtain ⟨hclk', hdue', hcompleted'⟩ := ih h
      have hone : t.clk = s.clk ∧ t.pending.due s.clk = s.pending.due s.clk ∧
          s.completed <+: t.completed := by
        unfold react at ht
        split at ht
        · next hsend =>
            cases ht
            exact send_frame hsend
        · split_ifs at ht
          cases ht
          exact ⟨rfl, rfl, List.prefix_rfl⟩
      obtain ⟨hclk, hdue, hcompleted⟩ := hone
      rw [hclk] at hclk' hdue'
      exact ⟨hclk', hdue'.trans hdue, hcompleted.trans hcompleted'⟩

/-- A round leaves one entry less that is due, and records the one it serves. -/
theorem serve_spec {reactions : Nat → List (Nat × Reaction K)} {i : Nat}
    {p : Timed (Request Command K)} (h : s.serve reactions i p = some s') :
    s'.clk = s.clk ∧ s'.pending.due s.clk = s.pending.pop.due s.clk ∧
      (s.retire p).completed <+: s'.completed := by
  unfold serve at h
  split_ifs at h
  · exact foldlM_react h
  · cases h
    exact ⟨rfl, rfl, List.prefix_rfl⟩

theorem mem_retire_completed (p : Timed (Request Command K)) (s : DelayController K M) :
    p ∈ (s.retire p).completed.map (·.entry) := by
  simp [retire]

end DelayController

end Ramulator.Controller
