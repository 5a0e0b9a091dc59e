/-
# Ramulator.MemorySystem.Elision — idle ticks of the memory system.

`run_simulation` and `run_batch` skip what `idle_ticks` allows and call `fast_forward` instead. This
module is about what a skip may assume: for the controllers that report idle time, and for a memory
system whose channels are any mix of them and of cycle-level controllers, which are never idle
(`IController` in `controller/i_controller.h`).
-/
import Ramulator.Controller.DelayQueue
import Ramulator.MemorySystem.GenericDRAM

namespace Ramulator.MemorySystem

open Ramulator.Base (Request)
open Ramulator.Controller Ramulator.Dram Ramulator.Lib

variable {K : Type}

/-- How a tick ends that a callback leaves by an exception. -/
def escaped : String := "exception in a callback"

/-! ## Controllers with a queue -/

def atomicClock (P : Predictor K) : QueueClock (AtomicControllerBase P) (Request Command K) where
  queue := (·.pending)
  clk := (·.clk)
  advance := AtomicControllerBase.advance
  advance_zero := fun s => by simp [AtomicControllerBase.advance]
  advance_add := fun s j k => by simp [AtomicControllerBase.advance, add_assoc]
  queue_advance := fun _ _ => rfl
  clk_advance := fun _ _ => rfl

def delayClock (K : Type) (M : LatencyModel) :
    QueueClock (DelayController K M) (Request Command K) where
  queue := (·.pending)
  clk := (·.clk)
  advance := DelayController.advance
  advance_zero := fun s => by simp [DelayController.advance]
  advance_add := fun s j k => by simp [DelayController.advance, add_assoc]
  queue_advance := fun _ _ => rfl
  clk_advance := fun _ _ => rfl

/-! ## Channels -/

/-- The controllers that a channel may have. The order of ties is some function of the request, whose
ordinal tells it from all others. -/
inductive Channel (K : Type) where
  | atomic (cfg : AtomicConfig) (P : Predictor K)
  | delay (M : LatencyModel) (tie : Request Command K → Nat)
  | cycleLevel (cfg : Config) (k : ControllerKind) (m : AddrMapper)

/-- A channel with a fixed latency. -/
def Channel.fixedLat (c : FixedLat) (tie : Request Command K → Nat) : Channel K := .delay c.model tie

/-- A channel with the M/D/1 model. -/
def Channel.md1 (c : MD1) (tie : Request Command K → Nat) : Channel K := .delay c.model tie

/-- What a `send` of the Atomic controller gives its caller. -/
def atomicSend (cfg : AtomicConfig) {P : Predictor K} (req : Request Command K)
    (s : AtomicControllerBase P) :
    Except String (Bool × Request Command K × AtomicControllerBase P) :=
  match s.send cfg req with
  | (.accepted req', s') => .ok (true, req', s')
  | (.rejected, s') => .ok (false, req, s')
  | (.threw what, _) => .error what

theorem admissionOrdinal_atomicSend {cfg : AtomicConfig} {P : Predictor K}
    {req req' : Request Command K} {s s' : AtomicControllerBase P} {accepted : Bool}
    (h : atomicSend cfg req s = .ok (accepted, req', s')) :
    req'.admissionOrdinal = req.admissionOrdinal := by
  unfold atomicSend at h
  cases hsend : s.send cfg req with
  | mk result t =>
      rw [hsend] at h
      rcases AtomicControllerBase.send_cases hsend with
        ⟨what, rfl, -⟩ | ⟨rfl, -⟩ | ⟨-, vec, -, -, hcommit⟩
      · cases h
      · cases h
        rfl
      · rcases AtomicControllerBase.commit_cases hcommit with ⟨-, ⟨what, rfl⟩, -⟩ | ⟨-, rfl, -⟩
        · cases h
        · cases h
          rfl

/-- The same for the controllers with a formula. -/
def delaySend {M : LatencyModel} (tie : Request Command K → Nat) (req : Request Command K)
    (s : DelayController K M) : Except String (Bool × Request Command K × DelayController K M) :=
  (s.send (tie req) req).map fun r => (true, r.1, r.2)

theorem admissionOrdinal_delaySend {M : LatencyModel} {tie : Request Command K → Nat}
    {req req' : Request Command K} {s s' : DelayController K M} {accepted : Bool}
    (h : delaySend tie req s = .ok (accepted, req', s')) :
    req'.admissionOrdinal = req.admissionOrdinal := by
  obtain ⟨⟨r, t⟩, hsend, heq⟩ := except_map_eq_ok.mp h
  obtain ⟨-, rfl, -⟩ : _ ∧ r = req' ∧ _ := by simpa using heq
  unfold DelayController.send at hsend
  dsimp only at hsend
  split_ifs at hsend <;> cases hsend <;> rfl

namespace Channel

def controller : Channel K → IController K
  | atomic cfg P =>
      { State := AtomicControllerBase P
        Inputs := Nat → List (Reaction K)
        init := .init P
        send := atomicSend cfg
        tick := fun reactions s => orThrow escaped (s.tick cfg reactions)
        keeps_ordinal := admissionOrdinal_atomicSend }
  | delay M tie =>
      { State := DelayController K M
        Inputs := Nat → List (Nat × Reaction K)
        init := .init K M
        send := delaySend tie
        tick := fun reactions s => orThrow escaped (s.tick reactions)
        keeps_ordinal := admissionOrdinal_delaySend }
  | cycleLevel cfg k m => .ofKind cfg k m

/-- `IController::idle_ticks`. -/
def idleTicks : (c : Channel K) → c.controller.State → Int
  | atomic _ _, s => AtomicControllerBase.idleTicks s
  | delay _ _, s => DelayController.idleTicks s
  | cycleLevel _ _ _, _ => 0

/-- `IController::fast_forward`. -/
def fastForward : (c : Channel K) → Int → c.controller.State → c.controller.State
  | atomic _ _, ticks, s => AtomicControllerBase.fastForward ticks s
  | delay _ _, ticks, s => DelayController.fastForward ticks s
  | cycleLevel _ _ _, _, s => s

/-- The reads (and for the Atomic controller also the writes) that wait for their departure. -/
def pending : (c : Channel K) → c.controller.State → TimedQueue (Request Command K)
  | atomic _ _, s => AtomicControllerBase.pending s
  | delay _ _, s => DelayController.pending s
  | cycleLevel _ _ _, _ => .empty

/-- The requests that left the queue, or that were done at once. -/
def completed : (c : Channel K) → c.controller.State → List (Completion K)
  | atomic _ _, s => AtomicControllerBase.completed s
  | delay _ _, s => DelayController.completed s
  | cycleLevel _ _ _, _ => []

/-- Every kind of channel may be skipped over its idle time. -/
theorem elision (c : Channel K) : Elision c.controller.tick c.idleTicks c.fastForward := by
  cases c with
  | atomic cfg P => exact (atomicClock P).elision (AtomicControllerBase.serve cfg) maxClk escaped
  | delay M tie => exact (delayClock K M).elision DelayController.serve maxClk escaped
  | cycleLevel cfg k m => exact Elision.never _

theorem completed_fastForward (c : Channel K) (ticks : Int) (s : c.controller.State) :
    c.completed (c.fastForward ticks s) = c.completed s := by
  cases c <;> rfl

/-- A channel with a queue completes its first entry in the tick after the idle time. -/
theorem completed_after_idle {c : Channel K} {s s' : c.controller.State}
    {inputs : List c.controller.Inputs} {p : Timed (Request Command K)}
    {rest : List (Timed (Request Command K))} (hq : (c.pending s).entries = p :: rest)
    (hlength : (inputs.length : Int) = c.idleTicks s + 1)
    (h : runAll c.controller.tick inputs s = .ok s') : p ∈ (c.completed s').map (·.entry) := by
  cases c with
  | atomic cfg P =>
      refine (atomicClock P).head_after_idle (AtomicControllerBase.serve cfg)
        (P := fun t => p ∈ t.completed.map (·.entry)) hq hlength ?_ ?_ h
      · intro i j t t' hserve
        rw [AtomicControllerBase.serve_completed_eq hserve]
        simp
      · intro i j r t t' hp hserve
        rw [AtomicControllerBase.serve_completed_eq hserve, List.map_append]
        exact List.mem_append_left _ hp
  | delay M tie =>
      refine (delayClock K M).head_after_idle DelayController.serve
        (P := fun t => p ∈ t.completed.map (·.entry)) hq hlength ?_ ?_ h
      · intro i j t t' hserve
        obtain ⟨-, -, hpre⟩ := DelayController.serve_spec hserve
        exact (hpre.map _).subset (DelayController.mem_retire_completed p t)
      · intro i j r t t' hp hserve
        obtain ⟨-, -, hpre⟩ := DelayController.serve_spec hserve
        refine (hpre.map _).subset ?_
        show p ∈ (t.completed ++ _).map _
        rw [List.map_append]
        exact List.mem_append_left _ hp
  | cycleLevel cfg k m => cases hq

/-- Only channels with an empty queue report the largest number. -/
theorem pending_of_idleTicks_ne {c : Channel K} {s : c.controller.State} (h : c.idleTicks s ≠ maxClk) :
    (∃ cfg k m, c = .cycleLevel cfg k m) ∨ ∃ p rest, (c.pending s).entries = p :: rest := by
  have hqueue : ∀ q : TimedQueue (Request Command K), ∀ clk, q.idle maxClk clk ≠ maxClk →
      ∃ p rest, q.entries = p :: rest := by
    intro q clk hne
    cases hq : q.entries with
    | nil => simp [TimedQueue.idle, hq] at hne
    | cons p rest => exact ⟨p, rest, rfl⟩
  cases c with
  | atomic cfg P => exact .inr (hqueue _ _ h)
  | delay M tie => exact .inr (hqueue _ _ h)
  | cycleLevel cfg k m => exact .inl ⟨cfg, k, m, rfl⟩

end Channel

/-! ## Systems of channels -/

/-- A memory system by its channels. -/
structure ChannelSystem (K : Type) where
  numChannels : Nat
  numChannels_pos : 0 < numChannels
  channels : Fin numChannels → Channel K
  channelMapper : ChannelMapper
  txBytes : Int

namespace ChannelSystem

abbrev toGenericDRAM (sys : ChannelSystem K) : GenericDRAM K where
  numChannels := sys.numChannels
  numChannels_pos := sys.numChannels_pos
  controllers := fun ch => (sys.channels ch).controller
  channelMapper := sys.channelMapper
  txBytes := sys.txBytes

abbrev State (sys : ChannelSystem K) : Type := sys.toGenericDRAM.State

variable {sys : ChannelSystem K} {s s' : sys.State}

/-- The idle time of one channel. -/
def idleAt (s : sys.State) (ch : Fin sys.numChannels) : Int :=
  (sys.channels ch).idleTicks (s.controllers ch)

/-- `GenericDRAMSystem::idle_ticks`. -/
def idleTicks (s : sys.State) : Int :=
  (List.finRange sys.numChannels).foldl (fun idle ch => min idle (idleAt s ch)) maxClk

/-- `GenericDRAMSystem::fast_forward`. -/
def fastForward (ticks : Int) (s : sys.State) : sys.State :=
  { s with controllers := fun ch => (sys.channels ch).fastForward ticks (s.controllers ch) }

/-- A tick of all channels. -/
def tick (sys : ChannelSystem K)
    (inputs : (ch : Fin sys.numChannels) → (sys.channels ch).controller.Inputs) (s : sys.State) :
    Except String sys.State :=
  sys.toGenericDRAM.tick inputs s

/-- The fold computes a minimum. -/
theorem idleTicks_le_iff {k : Int} :
    k ≤ idleTicks s ↔ k ≤ maxClk ∧ ∀ ch, k ≤ idleAt s ch := by
  have hfold : ∀ (chs : List (Fin sys.numChannels)) (start : Int),
      k ≤ chs.foldl (fun idle ch => min idle (idleAt s ch)) start ↔
        k ≤ start ∧ ∀ ch ∈ chs, k ≤ idleAt s ch := by
    intro chs
    induction chs with
    | nil => simp
    | cons ch chs ih =>
        intro start
        rw [List.foldl_cons, ih, le_min_iff]
        simp [and_assoc]
  unfold idleTicks
  rw [hfold]
  simp

/-- It is the number of some channel. -/
theorem idleTicks_eq_or (s : sys.State) :
    idleTicks s = maxClk ∨ ∃ ch, idleTicks s = idleAt s ch := by
  by_contra hne
  push Not at hne
  obtain ⟨hmax, hchannels⟩ := hne
  -- otherwise the minimum is smaller than each of its members
  have hself := idleTicks_le_iff.mp (le_refl (idleTicks s))
  have hmore : idleTicks s + 1 ≤ idleTicks s := by
    refine idleTicks_le_iff.mpr ⟨?_, fun ch => ?_⟩
    · have := hself.1
      omega
    · have := hself.2 ch
      have := hchannels ch
      omega
  omega

theorem elision (sys : ChannelSystem K) :
    Elision sys.tick (fun s : sys.State => idleTicks s) fastForward where
  zero := by
    intro s
    have hall : (fun ch => (sys.channels ch).fastForward 0 (s.controllers ch)) = s.controllers :=
      funext fun ch => (sys.channels ch).elision.zero _
    show { s with controllers := _ } = s
    rw [hall]
  add := by
    intro s j k
    have hall : (fun ch => (sys.channels ch).fastForward j
        ((sys.channels ch).fastForward k (s.controllers ch))) =
        fun ch => (sys.channels ch).fastForward (k + j) (s.controllers ch) :=
      funext fun ch => (sys.channels ch).elision.add _ j k
    exact congrArg (fun controllers => ({ s with controllers := controllers } : sys.State)) hall
  quiet := by
    intro s inputs hidle
    have hpos := (idleTicks_le_iff.mp hidle).2
    have hone : ∀ ch, (sys.channels ch).controller.tick (inputs ch) (s.controllers ch) =
        .ok ((sys.channels ch).fastForward 1 (s.controllers ch)) := fun ch =>
      (sys.channels ch).elision.quiet (s.controllers ch) (inputs ch) (hpos ch)
    exact @GenericDRAM.tick_eq_of_forall K sys.toGenericDRAM s inputs
      (fun ch => (sys.channels ch).fastForward 1) hone
  remaining := by
    intro s k hk hle
    obtain ⟨hmax, hchannels⟩ := idleTicks_le_iff.mp hle
    obtain ⟨hself, hselves⟩ := idleTicks_le_iff.mp (le_refl (idleTicks s))
    refine idleTicks_le_iff.mpr ⟨by omega, fun ch => ?_⟩
    have hleft := (sys.channels ch).elision.remaining (s.controllers ch) k hk (hchannels ch)
    have hself' := hselves ch
    unfold idleAt at hself' ⊢
    exact (by omega : _ ≤ (sys.channels ch).idleTicks (s.controllers ch) - k).trans hleft

/-- In a run of ticks each channel runs for itself. -/
theorem runAll_channel {inputs : List ((ch : Fin sys.numChannels) → (sys.channels ch).controller.Inputs)}
    (h : runAll sys.tick inputs s = .ok s') (ch : Fin sys.numChannels) :
    runAll (sys.channels ch).controller.tick (inputs.map (· ch)) (s.controllers ch) =
      .ok (s'.controllers ch) := by
  induction inputs generalizing s with
  | nil =>
      cases h
      rfl
  | cons i inputs ih =>
      unfold runAll at h
      cases ht : sys.tick i s with
      | error what =>
          rw [ht] at h
          cases h
      | ok t =>
          rw [ht] at h
          have hch := GenericDRAM.controllers_tick ht ch
          rw [List.map_cons]
          unfold runAll
          rw [show (sys.channels ch).controller.tick (i ch) (s.controllers ch) = _ from hch]
          exact ih h

end ChannelSystem

/-- For every state of a controller with idle time, and of a system with any mix of channels: ticks
within the idle time, whatever their inputs, do what `fast_forward` does; none of them completes a
request or calls back; and the tick after them completes one. The idle time of a system is the least of
its channels'. If it is not the largest number, a channel of that idle time completes its first entry
in the tick after it, or is a cycle-level controller, which has to be ticked. -/
theorem elision_contract :
    (∀ (c : Channel K) (s : c.controller.State) (inputs : List c.controller.Inputs),
      ((inputs.length : Int) ≤ c.idleTicks s →
        runAll c.controller.tick inputs s = .ok (c.fastForward inputs.length s) ∧
          c.completed (c.fastForward inputs.length s) = c.completed s) ∧
      ∀ p rest s', (c.pending s).entries = p :: rest →
        (inputs.length : Int) = c.idleTicks s + 1 → runAll c.controller.tick inputs s = .ok s' →
          p ∈ (c.completed s').map (·.entry)) ∧
    ∀ (sys : ChannelSystem K) (s : sys.State),
      (∀ inputs, (inputs.length : Int) ≤ ChannelSystem.idleTicks s →
        runAll sys.tick inputs s = .ok (ChannelSystem.fastForward inputs.length s) ∧
          ∀ ch, (sys.channels ch).completed
              ((ChannelSystem.fastForward inputs.length s).controllers ch) =
            (sys.channels ch).completed (s.controllers ch)) ∧
      (∀ ch, ChannelSystem.idleTicks s ≤ (sys.channels ch).idleTicks (s.controllers ch)) ∧
      (ChannelSystem.idleTicks s ≠ maxClk → ∃ ch,
        ChannelSystem.idleTicks s = (sys.channels ch).idleTicks (s.controllers ch) ∧
        ((∃ cfg k m, sys.channels ch = .cycleLevel cfg k m) ∨
          ∃ p rest, ((sys.channels ch).pending (s.controllers ch)).entries = p :: rest ∧
            ∀ inputs s', (inputs.length : Int) = ChannelSystem.idleTicks s + 1 →
              runAll sys.tick inputs s = .ok s' →
                p ∈ ((sys.channels ch).completed (s'.controllers ch)).map (·.entry))) := by
  refine ⟨fun c s inputs => ⟨fun hle => ?_, fun p rest s' hq hlength hrun => ?_⟩, fun sys s => ?_⟩
  · exact ⟨c.elision.runAll_eq hle, c.completed_fastForward _ s⟩
  · exact Channel.completed_after_idle hq hlength hrun
  · refine ⟨fun inputs hle => ⟨?_, fun ch => ?_⟩, fun ch => ?_, fun hne => ?_⟩
    · exact sys.elision.runAll_eq hle
    · exact (sys.channels ch).completed_fastForward _ _
    · exact (ChannelSystem.idleTicks_le_iff.mp le_rfl).2 ch
    · obtain ⟨ch, hch⟩ := (ChannelSystem.idleTicks_eq_or s).resolve_left hne
      have hch' : ChannelSystem.idleTicks s = (sys.channels ch).idleTicks (s.controllers ch) := hch
      refine ⟨ch, hch', ?_⟩
      rcases Channel.pending_of_idleTicks_ne (hch' ▸ hne) with hcycle | ⟨p, rest, hq⟩
      · exact .inl hcycle
      · refine .inr ⟨p, rest, hq, fun inputs s' hlength hrun => ?_⟩
        have hrun' := ChannelSystem.runAll_channel hrun ch
        refine Channel.completed_after_idle hq ?_ hrun'
        rw [List.length_map, hlength, hch']

/-- A channel with a latency of 3 and a channel with the M/D/1 model. -/
def smallMix : ChannelSystem Unit where
  numChannels := 2
  numChannels_pos := Nat.two_pos
  channels
    | 0 => .fixedLat { latency := 3 } fun req => req.admissionOrdinal.toNat
    | 1 => .md1 { rl := 3 } fun req => req.admissionOrdinal.toNat
  channelMapper := .passThrough
  txBytes := 64

/-- Callbacks that send nothing. -/
def silent : (ch : Fin 2) → (smallMix.channels ch).controller.Inputs
  | 0 => fun _ => []
  | 1 => fun _ => []

/-- A read on the first channel of a small system departs at clock 4: three ticks are skipped, and the
fourth completes it. -/
theorem elision_contract_small :
    ∃ s s' : smallMix.State, ChannelSystem.idleTicks s = 3 ∧
      runAll smallMix.tick [silent, silent, silent] s = .ok (ChannelSystem.fastForward 3 s) ∧
      runAll smallMix.tick [silent, silent, silent, silent] s = .ok s' ∧
      ∃ ch p, p ∈ ((smallMix.channels ch).completed (s'.controllers ch)).map (·.entry) := by
  let req : Request Command Unit :=
    { addrVec := [0], typeId := Request.read, sizeBytes := 64, callback := some () }
  have hobs : (do
      let a ← smallMix.toGenericDRAM.send req smallMix.toGenericDRAM.init
      let b ← runAll smallMix.tick [silent, silent, silent, silent] a.2.2
      pure (ChannelSystem.idleTicks a.2.2, a.1)) = .ok (3, true) := by
    decide +kernel
  obtain ⟨⟨accepted, r, s⟩, hsend, hobs⟩ := except_bind_eq_ok.mp hobs
  obtain ⟨s', hrun, hobs⟩ := except_bind_eq_ok.mp hobs
  obtain ⟨hidle, -⟩ := Prod.mk.inj (Except.ok.inj hobs)
  obtain ⟨hskip, -, hafter⟩ := (elision_contract (K := Unit)).2 smallMix s
  have hidle : ChannelSystem.idleTicks s = 3 := hidle
  refine ⟨s, s', hidle, (hskip [silent, silent, silent] hidle.ge).1, hrun, ?_⟩
  obtain ⟨ch, -, ⟨cfg, k, m, hcycle⟩ | ⟨p, rest, -, hhead⟩⟩ := hafter (by rw [hidle]; decide)
  · have hno : ∀ ch : Fin 2, smallMix.channels ch ≠ .cycleLevel cfg k m :=
      Fin.forall_fin_two.mpr ⟨nofun, nofun⟩
    exact absurd hcycle (hno ch)
  · exact ⟨ch, p, hhead _ s' (by rw [hidle]; rfl) hrun⟩

end Ramulator.MemorySystem
