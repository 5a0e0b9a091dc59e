/-
# Ramulator.MemorySystem.SimpleO3Simulation — a whole simulation, with and without tick elision.

`run_simulation` asks both sides how long they are idle, and skips that. Here the two sides are the ones it
is used with: the SimpleO3 frontend, with its cores, its cache and any address translation, on a
`GenericDRAMSystem` whose channels have a queue (`FixedLat`, `MD1` and the other formulas, and the Atomic
controllers). For these the run with elision is the run without, to the last attempt to send.

A closure that goes with a request to memory is known by its number, its ticket; the memory system calls
back with it. An exception on either side ends the run: the state of the frontend is then the exception.
-/
import Ramulator.Base.Simulation
import Ramulator.Frontend.SimpleO3Memory
import Ramulator.MemorySystem.Elision

namespace Ramulator.MemorySystem

open Ramulator.Base (FrontEnd LoopState Request)
open Ramulator.Controller Ramulator.Dram Ramulator.Frontend.O3 Ramulator.Lib

/-! ## A system of channels with queues -/

/-- No channel is a cycle-level controller; these are never idle. -/
structure QueueSystem extends ChannelSystem Nat where
  queued : ∀ ch cfg k m, channels ch ≠ .cycleLevel cfg k m

/-- The calls back that a channel has made. -/
def Channel.calls (c : Channel Nat) (s : c.controller.State) : List (Request Command Nat) :=
  ((c.completed s).filter (·.called)).map (·.entry.item)

/-- SimpleO3 does not send from a call back, and there are no plugins. -/
def Channel.noReactions : (c : Channel Nat) → c.controller.Inputs
  | .atomic _ _ => fun _ => []
  | .delay _ _ => fun _ => []
  | .cycleLevel _ k _ =>
      match k with
      | .genericDDR | .lpddr _ | .prac _ | .blockHammer _ => ({} : TickInputs Nat)
      | .hbm12 _ | .hbm34 _ => ({} : SlotInputs Nat)

/-- The request as the memory system gets it. -/
def ticketed (req : Req) (ticket : Nat) : Request Command Nat where
  addr := req.addr
  intraChannelAddr := req.intraChannelAddr
  addrVec := req.addrVec
  typeId := req.typeId
  sourceId := req.sourceId
  ingressId := req.ingressId
  frontendId := req.frontendId
  frontendSubId := req.frontendSubId
  admissionOrdinal := req.admissionOrdinal
  sizeBytes := req.sizeBytes
  command := req.command
  finalCommand := req.finalCommand
  isStatUpdated := req.isStatUpdated
  arrive := req.arrive
  depart := req.depart
  callback := req.callback.map fun _ => ticket

/-- The memory system with the tickets of the requests that it has not called back. -/
structure Ticketed (sys : QueueSystem) where
  system : sys.State
  next : Nat := 0
  waiting : List Nat := []

namespace QueueSystem

variable {sys : QueueSystem}

/-- The calls back that lie between two states, channel by channel. -/
def newCalls (s s' : sys.State) : List (Request Command Nat) :=
  (List.finRange sys.numChannels).flatMap fun ch =>
    ((sys.channels ch).calls (s'.controllers ch)).drop ((sys.channels ch).calls (s.controllers ch)).length

/-- `send`. A request may be called back before it returns. -/
def send (req : Req) (c : Ticketed sys) : Except String (LLC.Decision × Ticketed sys) :=
  (sys.toGenericDRAM.send (ticketed req c.next) c.system).map fun (accepted, _, system) =>
    if accepted then
      match newCalls c.system system with
      | [] => (.accept, { system := system, next := c.next + 1, waiting := c.waiting ++ [c.next] })
      | r :: _ => (.acceptNow r.arrive r.depart, { c with system := system, next := c.next + 1 })
    else (.reject, { c with system := system })

/-- The places of the requests that are called back, in turn. -/
def collect : List (Request Command Nat) → List Nat → List Return × List Nat
  | [], waiting => ([], waiting)
  | r :: rs, waiting =>
      match r.callback with
      | none => collect rs waiting
      | some ticket =>
          let (returns, left) := collect rs (waiting.erase ticket)
          (⟨waiting.idxOf ticket, r.arrive, r.depart⟩ :: returns, left)

def tick (c : Ticketed sys) : Except String (List Return × Ticketed sys) :=
  (sys.toChannelSystem.tick (fun ch => (sys.channels ch).noReactions) c.system).map fun system =>
    let (returns, waiting) := collect (newCalls c.system system) c.waiting
    (returns, { c with system := system, waiting := waiting })

/-- The memory system of a simulation. -/
def memory (sys : QueueSystem) : IMemorySystem where
  State := Ticketed sys
  init := { system := sys.toGenericDRAM.init }
  send := send
  tick := tick
  idleTicks := fun c => ChannelSystem.idleTicks c.system
  fastForward := fun ticks c => { c with system := ChannelSystem.fastForward ticks c.system }

end QueueSystem

/-! ## The two sides of a simulation -/

/-- What a tick does that the other side sees. -/
inductive Action where
  | attempt (a : Attempt)
  | returned (r : Return)
  deriving DecidableEq, Repr

section

variable (cfg : O3Config) (T : Translation) (mem : IMemorySystem)

/-- The frontend in a simulation, or the exception that ended it. -/
abbrev Running : Type := Except SystemFault { s : SimpleO3 cfg T // s.Reached }

variable {cfg T mem}

/-- A result that is a reachable state. -/
def Running.of (x : Except SystemFault (SimpleO3 cfg T)) (h : ∀ s, x = .ok s → s.Reached) : Running cfg T :=
  match x, h with
  | .error e, _ => .error e
  | .ok s, h => .ok ⟨s, h s rfl⟩

theorem Running.of_eq_ok {x : Except SystemFault (SimpleO3 cfg T)} {h : ∀ s, x = .ok s → s.Reached}
    {s : SimpleO3 cfg T} (hs : s.Reached) (hx : x = .ok s) : Running.of x h = .ok ⟨s, hs⟩ := by
  subst hx
  rfl

def tickFrontEnd (f : Running cfg T) (m : mem.State) : Running cfg T × mem.State × List Action :=
  match f with
  | .error e => (.error e, m, [])
  | .ok ⟨s, hs⟩ =>
      let result := s.tickOn mem m
      let f := Running.of (result.map (·.1)) fun s' h => by
        obtain ⟨⟨t, m', attempts⟩, htick, rfl⟩ := except_map_eq_ok.mp h
        exact hs.tickOn htick
      match result with
      | .error _ => (f, m, [])
      | .ok (_, m', attempts) => (f, m', attempts.map .attempt)

/-- The calls back of a tick reach the frontend. -/
def receive (returns : List Return) (f : Running cfg T) : Running cfg T :=
  match f with
  | .error e => .error e
  | .ok ⟨s, hs⟩ => Running.of (s.receiveAll returns) fun _ h => hs.receiveAll h

def tickMemory (m : mem.State) (f : Running cfg T) : mem.State × Running cfg T × List Action :=
  match mem.tick m with
  | .error what => (m, .error (.memory what), [])
  | .ok (returns, m') => (m', receive returns f, returns.map .returned)

/-- A run ends with an exception, also with one of `is_finished`. -/
def finished (f : Running cfg T) : Bool :=
  match f with
  | .error _ => true
  | .ok s =>
      match s.1.isFinished with
      | .error _ => true
      | .ok b => b

/-- `fast_forward` is called with positive numbers. -/
def fastForwardFrontEnd (f : Running cfg T) (ticks : Int) : Running cfg T :=
  match f with
  | .error e => .error e
  | .ok ⟨s, hs⟩ => if h : 0 ≤ ticks then .ok ⟨s.fastForward ticks, hs.fastForward h⟩ else .ok ⟨s, hs⟩

def idleTicksFrontEnd (f : Running cfg T) (maxUseful : Int) : Int :=
  match f with
  | .error _ => 0
  | .ok s => s.1.idleTicks maxUseful

end

/-- SimpleO3 as `run_simulation` sees it. -/
def frontEnd (cfg : O3Config) (T : Translation) (mem : IMemorySystem) (clockRatio : Int)
    (h : clockRatio < 2 ^ 31) : FrontEnd (Running cfg T) mem.State Action where
  clockRatio := clockRatio
  clockRatio_lt := h
  tick := tickFrontEnd
  isFinished := finished
  idleTicks := idleTicksFrontEnd
  fastForward := fastForwardFrontEnd

/-- The memory system as `run_simulation` sees it. -/
def memorySystem (cfg : O3Config) (T : Translation) (mem : IMemorySystem) (clockRatio : Int)
    (h : clockRatio < 2 ^ 31) : Base.MemorySystem (Running cfg T) mem.State Action where
  clockRatio := clockRatio
  clockRatio_lt := h
  tick := tickMemory
  idleTicks := mem.idleTicks
  fastForward := fun m ticks => mem.fastForward ticks m

/-! ## Both keep the contract -/

variable {cfg : O3Config} {T : Translation} {mem : IMemorySystem}

theorem tickFrontEnd_of_tickOn {s s' : SimpleO3 cfg T} (hs : s.Reached) (hs' : s'.Reached) {m m' : mem.State}
    {attempts : List Attempt} (h : s.tickOn mem m = .ok (s', m', attempts)) :
    tickFrontEnd (.ok ⟨s, hs⟩) m = (.ok ⟨s', hs'⟩, m', attempts.map .attempt) := by
  have hmap : (s.tickOn mem m).map (·.1) = .ok s' := by
    rw [h]
    rfl
  unfold tickFrontEnd
  dsimp only
  rw [Running.of_eq_ok hs' hmap, h]

theorem after_frontEnd (clockRatio : Int) (h : clockRatio < 2 ^ 31) {s : SimpleO3 cfg T} (hs : s.Reached) (k : Nat) :
    (frontEnd cfg T mem clockRatio h).after (.ok ⟨s, hs⟩) k =
      .ok ⟨s.fastForward k, hs.fastForward (Int.natCast_nonneg k)⟩ := by
  unfold FrontEnd.after
  split
  · show fastForwardFrontEnd (.ok ⟨s, hs⟩) (k : Int) = _
    unfold fastForwardFrontEnd
    exact dif_pos (Int.natCast_nonneg k)
  · obtain rfl : k = 0 := by omega
    congr 2
    exact s.fastForward_zero.symm

theorem frontEnd_contract (clockRatio : Int) (h : clockRatio < 2 ^ 31) :
    (frontEnd cfg T mem clockRatio h).Contract := by
  intro f maxUseful i hi
  match f with
  | .error e =>
      have hnone : (i : Int) < 0 := hi
      omega
  | .ok ⟨s, hs⟩ =>
      have hidle : (i : Int) < s.idleTicks maxUseful := hi
      have huntil : SimpleO3.IdleUntil (s.llc.clk + (i + 1)) s :=
        SimpleO3.idleUntil_of_le_idleTicks (SimpleO3.coresOk_of_reached hs) (SimpleO3.clk_nonneg_of_reached hs)
          (by omega) hidle
      rw [after_frontEnd, after_frontEnd]
      refine ⟨fun m => ?_, ?_⟩
      · have hclk : (s.fastForward i).llc.clk + 1 = s.llc.clk + (i + 1) := add_assoc ..
        have htick : (s.fastForward i).tickOn mem m = .ok ((s.fastForward i).fastForward 1, m, []) :=
          SimpleO3.tickOn_of_idle (hclk.symm ▸ huntil.fastForward i)
        rw [s.fastForward_fastForward 1 i] at htick
        exact tickFrontEnd_of_tickOn (hs.fastForward (Int.natCast_nonneg i))
          (hs.fastForward (Int.natCast_nonneg (i + 1))) htick
      · have hfinished : ∀ f : Running cfg T, (frontEnd cfg T mem clockRatio h).isFinished f = finished f :=
          fun _ => rfl
        rw [hfinished, hfinished]
        unfold finished
        dsimp only
        rw [SimpleO3.isFinished_fastForward]

/-- What `run_simulation` needs of a memory system: within its idle time it only counts. -/
def Quiet (mem : IMemorySystem) : Prop :=
  (∀ m, mem.fastForward 0 m = m) ∧ ∀ (m : mem.State) (i : Nat), i < mem.idleTicks m →
    mem.tick (mem.fastForward i m) = .ok ([], mem.fastForward (i + 1) m)

theorem receive_nil (f : Running cfg T) : receive [] f = f := by
  match f with
  | .error e => rfl
  | .ok ⟨s, hs⟩ => rfl

theorem memorySystem_contract (hmem : Quiet mem) (clockRatio : Int) (h : clockRatio < 2 ^ 31) :
    (memorySystem cfg T mem clockRatio h).Contract := by
  have hafter : ∀ m k, (memorySystem cfg T mem clockRatio h).after m k = mem.fastForward k m := by
    intro m k
    unfold Base.MemorySystem.after
    split
    · rfl
    · obtain rfl : k = 0 := by omega
      exact (hmem.1 m).symm
  intro m i hi f
  rw [hafter, hafter]
  show tickMemory _ f = _
  unfold tickMemory
  rw [hmem.2 m i hi]
  dsimp only
  rw [receive_nil]
  rfl

namespace QueueSystem

variable {sys : QueueSystem}

/-- Nothing is called back while the channels only count. -/
theorem newCalls_fastForward (ticks more : Int) (s : sys.State) :
    newCalls (ChannelSystem.fastForward ticks s) (ChannelSystem.fastForward more s) = [] := by
  have hcalls : ∀ (k : Int) ch, (sys.channels ch).calls ((ChannelSystem.fastForward k s).controllers ch) =
      (sys.channels ch).calls (s.controllers ch) := by
    intro k ch
    show (((sys.channels ch).completed ((sys.channels ch).fastForward k (s.controllers ch))).filter _).map _ = _
    rw [(sys.channels ch).completed_fastForward]
    rfl
  refine List.flatMap_eq_nil_iff.mpr fun ch _ => ?_
  rw [hcalls, hcalls]
  exact List.drop_length

theorem tick_of_no_calls {c : Ticketed sys} {system : sys.State}
    (htick : sys.toChannelSystem.tick (fun ch => (sys.channels ch).noReactions) c.system = .ok system)
    (hnone : newCalls c.system system = []) : tick c = .ok ([], { c with system := system }) := by
  refine except_map_eq_ok.mpr ⟨system, htick, ?_⟩
  rw [hnone]
  rfl

theorem quiet (sys : QueueSystem) : Quiet sys.memory := by
  have helision := sys.toChannelSystem.elision
  refine ⟨fun c => congrArg (fun system => ({ c with system := system } : Ticketed sys)) (helision.zero c.system), ?_⟩
  intro c i hi
  have hidle : (i : Int) < ChannelSystem.idleTicks c.system := hi
  have hleft := helision.remaining c.system i (Int.natCast_nonneg i) hidle.le
  have htick := helision.quiet (ChannelSystem.fastForward i c.system) (fun ch => (sys.channels ch).noReactions)
    (by omega)
  rw [helision.add] at htick
  exact tick_of_no_calls htick (newCalls_fastForward i (i + 1) c.system)

end QueueSystem

/-! ## Whole runs -/

/-- For every number of cores with their traces, every cache and address translation, every system of
channels with queues and all clock ratios, and from any reachable state: the run of `run_simulation` and the
run that ticks through the idle time both end or neither does, and they end in the same state of cores, cache,
translation and channels, after the same numbers of ticks on both sides, with the same attempts to send and the
same calls back in the same ticks. A state that the faster run passes, the plain run passes, after at least as
many steps. -/
theorem simulation_elision_exact (cfg : O3Config) (T : Translation) (sys : QueueSystem) (feRatio memRatio : Int)
    (hfe : 0 < feRatio ∧ feRatio < 2 ^ 31) (hmem : 0 < memRatio ∧ memRatio < 2 ^ 31)
    (s : SimpleO3 cfg T) (hs : s.Reached) (c : Ticketed sys) :
    let fe := frontEnd cfg T sys.memory feRatio hfe.2
    let mem := memorySystem cfg T sys.memory memRatio hmem.2
    let first : LoopState (Running cfg T) sys.memory.State Action :=
      Base.start feRatio.toNat memRatio.toNat (.ok ⟨s, hs⟩) c
    (∀ final, (∃ fuel, Base.runSimulation fe mem fuel (.ok ⟨s, hs⟩) c = .ok (some final)) ↔
      ∃ fuel, Base.referenceRun fe mem fuel (.ok ⟨s, hs⟩) c = some final) ∧
    ∀ n now, Loop.iterate (Base.simulationStep fe mem feRatio.toNat memRatio.toNat) n first = .running now →
      ∃ N, n ≤ N ∧ Loop.iterate (Base.referenceStep fe mem feRatio.toNat memRatio.toNat) N first = .running now := by
  intro fe mem first
  have hfeContract : fe.Contract := frontEnd_contract feRatio hfe.2
  have hmemContract : mem.Contract := memorySystem_contract sys.quiet memRatio hmem.2
  have hfeTick : feRatio.toNat < 2 ^ 31 := by omega
  have hmemTick : memRatio.toNat < 2 ^ 31 := by omega
  have hfirst : Base.InRange feRatio.toNat memRatio.toNat first := Base.start_inRange (by omega) (by omega) _ _
  have hsim := Base.simulationStep_simulates hfeContract hmemContract hfeTick hmemTick
  have hrun : ∀ fuel, Base.runSimulation fe mem fuel (.ok ⟨s, hs⟩) c =
      .ok (Loop.run (Base.simulationStep fe mem feRatio.toNat memRatio.toNat) fuel first) := fun fuel =>
    if_neg (show ¬(feRatio ≤ 0 ∨ memRatio ≤ 0) by omega)
  constructor
  · intro final
    simp only [hrun, Except.ok.injEq, Loop.run_eq_some_iff]
    constructor
    · rintro ⟨fuel, hfuel⟩
      obtain ⟨N, q, hq, rfl⟩ := hsim.iterate_done ⟨rfl, hfirst⟩ hfuel trivial
      exact ⟨N, Loop.run_eq_some_iff.mpr hq⟩
    · rintro ⟨fuel, hfuel⟩
      obtain ⟨r, hr, rfl⟩ := hsim.done_of_slow_done (fun _ => trivial) ⟨rfl, hfirst⟩ (Loop.run_eq_some_iff.mp hfuel)
      exact ⟨fuel, hr⟩
  · intro n now hn
    obtain ⟨N, t, hN, ht, rfl, -⟩ := hsim.iterate_running ⟨rfl, hfirst⟩ hn
    exact ⟨N, hN, ht⟩

/-- One channel with a latency of ten clocks. -/
def smallQueue : QueueSystem where
  numChannels := 1
  numChannels_pos := Nat.one_pos
  channels := fun _ => .fixedLat { latency := 10 } fun req => req.admissionOrdinal.toNat
  channelMapper := .passThrough
  txBytes := 64
  queued := fun _ _ _ _ => nofun

theorem smallRatio : 0 < (1 : Int) ∧ (1 : Int) < 2 ^ 31 := by decide

/-- The small core before its first tick. -/
theorem smallO3_reached {core : Core} (h : Core.init smallCore = .ok core) :
    SimpleO3.Reached ({ cores := fun _ => core } : SimpleO3 smallO3 noTranslation) := by
  have hstart : SimpleO3.Starts ({ cores := fun _ => core } : SimpleO3 smallO3 noTranslation) :=
    ⟨fun _ => h, rfl, rfl⟩
  exact ⟨_, hstart, .start⟩

/-- Thirteen iterations do what takes the plain loop twenty-nine: two loads leave the cache in ticks 4 and 18,
and return in ticks 14 and 28. -/
theorem simulation_elision_exact_small : ∃ (s : SimpleO3 smallO3 noTranslation) (hs : s.Reached) (final : _) (fuel : Nat),
    Base.runSimulation (frontEnd smallO3 noTranslation smallQueue.memory 1 smallRatio.2)
      (memorySystem smallO3 noTranslation smallQueue.memory 1 smallRatio.2) 13 (.ok ⟨s, hs⟩) smallQueue.memory.init =
        .ok (some final) ∧
    Base.referenceRun (frontEnd smallO3 noTranslation smallQueue.memory 1 smallRatio.2)
      (memorySystem smallO3 noTranslation smallQueue.memory 1 smallRatio.2) fuel (.ok ⟨s, hs⟩) smallQueue.memory.init =
        some final ∧
    final.feTicks = 29 ∧ final.trace.map (·.number) = [4, 14, 18, 28] := by
  obtain ⟨core, hcore, hobs⟩ : ∃ core, ∃ h : Core.init smallCore = .ok core,
      (Base.runSimulation (frontEnd smallO3 noTranslation smallQueue.memory 1 smallRatio.2)
        (memorySystem smallO3 noTranslation smallQueue.memory 1 smallRatio.2) 13 (.ok ⟨_, smallO3_reached h⟩)
        smallQueue.memory.init).map (fun r => r.map fun final => (final.feTicks, final.trace.map (·.number))) =
          .ok (some (29, [4, 14, 18, 28])) := by
    refine ⟨_, rfl, ?_⟩
    decide +kernel
  obtain ⟨r, hrun, hr⟩ := except_map_eq_ok.mp hobs
  obtain ⟨final, rfl, hfinal⟩ := Option.map_eq_some_iff.mp hr
  obtain ⟨hticks, hnumbers⟩ := Prod.mk.inj hfinal
  obtain ⟨fuel, hfuel⟩ := ((simulation_elision_exact smallO3 noTranslation smallQueue 1 1 smallRatio smallRatio _
    (smallO3_reached hcore) smallQueue.memory.init).1 final).mp ⟨13, hrun⟩
  exact ⟨_, smallO3_reached hcore, final, fuel, hrun, hfuel, hticks, hnumbers⟩

end Ramulator.MemorySystem
