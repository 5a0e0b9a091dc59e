/-
# Ramulator.MemorySystem.GenericDRAM — the memory system: one controller per channel.

`GenericDRAMSystem` (`memory_system/impl/generic_dram_system.cpp`) checks a request's size, lets the
channel mapper choose the channel, gives the request the channel's next admission ordinal and hands it
to the channel's controller. A rejected attempt uses its ordinal up, and the request gives it back.

The system is generic in its controllers: a controller is what `IController` shows of it. The ones that
derive from `ControllerBase` are instances (`IController.ofKind`). The list of admitted requests is
added for the sake of statements, and no operation reads it.
-/
import Ramulator.Controller.AddrMapper
import Ramulator.Controller.Kind

namespace Ramulator.MemorySystem

open Ramulator.Base (Request)
open Ramulator.Controller Ramulator.Dram Ramulator.Lib

variable {K : Type}

/-! ## Channel mappers -/

/-- The bit field that selects the channel. -/
structure Interleave where
  numChannels : Int
  chShift : Nat
  chWidth : Nat
  deriving DecidableEq, Repr

namespace Interleave

/-- `CacheLineInterleave::setup`. -/
def setupCacheLine (interleaveBits : Nat) (numChannels : Int) (txOffset : Nat) :
    Except String Interleave :=
  if numChannels > 1 ∧ isPowerOfTwo numChannels = false then
    .error ("CacheLineInterleave requires a power-of-two channel count, got " ++ toString numChannels)
  else .ok ⟨numChannels, txOffset + interleaveBits, calcLog2 numChannels⟩

/-- `Gem5PortInterleave::setup`. -/
def setupGem5Port (interleaveSize numChannels : Int) (txOffset : Nat) : Except String Interleave :=
  if numChannels ≤ 0 then
    .error ("Gem5PortInterleave requires a positive channel count, got " ++ toString numChannels)
  else if isPowerOfTwo numChannels = false then
    .error ("Gem5PortInterleave requires a power-of-two channel count, got " ++ toString numChannels)
  else if isPowerOfTwo interleaveSize = false then
    .error ("Gem5PortInterleave requires power-of-two interleave_size, got " ++
      toString interleaveSize)
  else if interleaveSize < 2 ^ txOffset then
    .error ("Gem5PortInterleave interleave_size (" ++ toString interleaveSize ++
      ") must be at least one Ramulator transaction (" ++ toString ((2 : Int) ^ txOffset) ++ ")")
  else .ok ⟨numChannels, calcLog2 interleaveSize, calcLog2 numChannels⟩

/-- The address without the channel field; the two parts have no bit in common. -/
def strip (c : Interleave) (addr : Int) : Int :=
  (addr >>> (c.chShift + c.chWidth)) * 2 ^ c.chShift + addr % 2 ^ c.chShift

end Interleave

inductive ChannelMapper where
  | passThrough
  | cacheLineInterleave (c : Interleave)
  | gem5PortInterleave (c : Interleave)
  deriving DecidableEq, Repr

namespace ChannelMapper

/-- The vector of `PassThroughChannelMapper::apply`: an unset channel is channel 0. -/
def passThroughVec : AddrVec → AddrVec
  | [] => [0]
  | channel :: rest => (if channel < 0 then 0 else channel) :: rest

/-- A vector with room for the channel. -/
def withChannel (v : AddrVec) (channel : Int) : AddrVec := (if v = [] then [-1] else v).set 0 channel

/-- `IChannelMapper::apply`. -/
def apply (req : Request Command K) : ChannelMapper → Request Command K
  | passThrough =>
      { req with addrVec := passThroughVec req.addrVec, intraChannelAddr := req.addr }
  | cacheLineInterleave c =>
      if c.numChannels ≤ 1 then
        { req with addrVec := withChannel req.addrVec 0, intraChannelAddr := req.addr }
      else
        { req with
          addrVec := withChannel req.addrVec ((req.addr >>> c.chShift) % 2 ^ c.chWidth)
          intraChannelAddr := c.strip req.addr }
  | gem5PortInterleave c =>
      { req with
        addrVec := withChannel req.addrVec req.ingressId
        intraChannelAddr := if c.numChannels = 1 then req.addr else c.strip req.addr }

end ChannelMapper

/-! ## Controllers -/

/-- What the memory system uses of a controller. The inputs of a tick are what its hooks do. No
controller writes the admission ordinal. -/
structure IController (K : Type) where
  State : Type
  Inputs : Type
  init : State
  send : Request Command K → State → Except String (Bool × Request Command K × State)
  tick : Inputs → State → Except String State
  keeps_ordinal : ∀ {req s accepted req' s'}, send req s = .ok (accepted, req', s') →
    req'.admissionOrdinal = req.admissionOrdinal

/-- A cycle-level controller with an address mapper. -/
def IController.ofKind (cfg : Config) (k : ControllerKind) (m : AddrMapper) : IController K where
  State := Derived K k.Own
  Inputs := k.Inputs K
  init := k.init cfg
  send := fun req d =>
    (d.base.sendVia cfg m req).map fun r => (r.1, r.2.1, { d with base := r.2.2 })
  tick := k.tick cfg
  keeps_ordinal := by
    intro req d accepted req' d' h
    obtain ⟨⟨accepted, r, t⟩, hsend, heq⟩ := except_map_eq_ok.mp h
    obtain ⟨-, rfl, -⟩ : _ ∧ r = req' ∧ _ := by simpa using heq
    exact ControllerBase.admissionOrdinal_sendVia hsend

/-! ## The memory system -/

structure GenericDRAM (K : Type) where
  numChannels : Nat
  numChannels_pos : 0 < numChannels
  controllers : Fin numChannels → IController K
  channelMapper : ChannelMapper
  txBytes : Int

namespace GenericDRAM

/-- The state. `admitted` lists the admitted requests by channel and ordinal, oldest first. -/
structure State (sys : GenericDRAM K) where
  controllers : (ch : Fin sys.numChannels) → (sys.controllers ch).State
  nextAdmissionOrdinal : Fin sys.numChannels → Int := fun _ => 0
  numReadRequests : Nat := 0
  numWriteRequests : Nat := 0
  admitted : List (Fin sys.numChannels × Int) := []

variable {sys : GenericDRAM K}

def init (sys : GenericDRAM K) : sys.State where
  controllers := fun ch => (sys.controllers ch).init

/-- The counters of admitted requests. -/
def State.count (req : Request Command K) (s : sys.State) : sys.State :=
  if req.typeId = Request.read then { s with numReadRequests := s.numReadRequests + 1 }
  else if req.typeId = Request.write then { s with numWriteRequests := s.numWriteRequests + 1 }
  else s

/-- `send` once the channel is known. -/
def sendTo (ch : Fin sys.numChannels) (req : Request Command K) (s : sys.State) :
    Except String (Bool × Request Command K × sys.State) :=
  let ordinal := s.nextAdmissionOrdinal ch
  ((sys.controllers ch).send { req with admissionOrdinal := ordinal } (s.controllers ch)).map
    fun (accepted, req, c) =>
      let s := { s with
        controllers := Function.update s.controllers ch c
        nextAdmissionOrdinal := Function.update s.nextAdmissionOrdinal ch (ordinal + 1) }
      if accepted then
        (true, req, { s with admitted := s.admitted ++ [(ch, req.admissionOrdinal)] }.count req)
      else (false, { req with admissionOrdinal := -1 }, s)

/-- `GenericDRAMSystem::send`. A channel that does not exist is an index out of bounds in the source. -/
def send (sys : GenericDRAM K) (req : Request Command K) (s : sys.State) :
    Except String (Bool × Request Command K × sys.State) :=
  if req.sizeBytes ≤ 0 ∨ req.sizeBytes > sys.txBytes then
    .error ("Request size_bytes must be set by the frontend (got " ++ toString req.sizeBytes ++
      ", tx_bytes = " ++ toString sys.txBytes ++ ").")
  else
    let req := sys.channelMapper.apply req
    let channelId := req.addrVec.coord 0
    if h : 0 ≤ channelId ∧ channelId.toNat < sys.numChannels then
      sendTo ⟨channelId.toNat, h.2⟩ req s
    else .error "channel id out of bounds"

/-- One controller ticks. -/
def tickAt (inputs : (ch : Fin sys.numChannels) → (sys.controllers ch).Inputs) (s : sys.State)
    (ch : Fin sys.numChannels) : Except String sys.State :=
  ((sys.controllers ch).tick (inputs ch) (s.controllers ch)).map fun c =>
    { s with controllers := Function.update s.controllers ch c }

/-- `GenericDRAMSystem::tick`. -/
def tick (sys : GenericDRAM K) (inputs : (ch : Fin sys.numChannels) → (sys.controllers ch).Inputs)
    (s : sys.State) : Except String sys.State :=
  (List.finRange sys.numChannels).foldlM (tickAt inputs) s

/-- The calls on a memory system. -/
inductive Call (sys : GenericDRAM K) where
  | send (req : Request Command K)
  | tick (inputs : (ch : Fin sys.numChannels) → (sys.controllers ch).Inputs)

def call (sys : GenericDRAM K) (c : sys.Call) (s : sys.State) : Except String sys.State :=
  match c with
  | .send req => (sys.send req s).map (·.2.2)
  | .tick inputs => sys.tick inputs s

/-- The states that calls which satisfy `allowed` reach. -/
def ReachedBy (sys : GenericDRAM K) (allowed : sys.Call → Prop) : sys.State → Prop :=
  Reachable sys.init fun s c s' => allowed c ∧ sys.call c s = .ok s'

/-- A run that does not fail ends in a reachable state. -/
theorem reached_of_runAll {α : Type} {sys : GenericDRAM K} {calls : List sys.Call}
    {f : sys.State → α} {o : α} (h : (runAll sys.call calls sys.init).map f = .ok o) :
    ∃ s, sys.ReachedBy (fun _ => True) s ∧ f s = o := by
  obtain ⟨s, hrun, hs⟩ := except_map_eq_ok.mp h
  exact ⟨s, (reachable_of_runAll .start hrun).mono fun _ _ _ h => ⟨trivial, h⟩, hs⟩

/-! ## What a call does -/

variable {req req' : Request Command K} {s s' : sys.State} {accepted : Bool}

theorem count_frame (req : Request Command K) (s : sys.State) :
    (s.count req).controllers = s.controllers ∧
      (s.count req).nextAdmissionOrdinal = s.nextAdmissionOrdinal ∧
      (s.count req).admitted = s.admitted := by
  unfold State.count
  split_ifs <;> exact ⟨rfl, rfl, rfl⟩

/-- The request as the controller of channel `ch` gets it. -/
def offered (sys : GenericDRAM K) (req : Request Command K) (s : sys.State)
    (ch : Fin sys.numChannels) : Request Command K :=
  { sys.channelMapper.apply req with admissionOrdinal := s.nextAdmissionOrdinal ch }

/-- A `send` is one `send` on the channel's controller. It uses up an ordinal, which an admitted
request keeps and a rejected one does not. -/
theorem send_cases (h : sys.send req s = .ok (accepted, req', s')) :
    ∃ (ch : Fin sys.numChannels) (r : Request Command K) (c : (sys.controllers ch).State),
      (ch : Int) = (sys.channelMapper.apply req).addrVec.coord 0 ∧
      (sys.controllers ch).send (sys.offered req s ch) (s.controllers ch) = .ok (accepted, r, c) ∧
      (s'.controllers ch = c ∧ ∀ ch', ch' ≠ ch → s'.controllers ch' = s.controllers ch') ∧
      s'.nextAdmissionOrdinal =
        Function.update s.nextAdmissionOrdinal ch (s.nextAdmissionOrdinal ch + 1) ∧
      (accepted = true ∧ req' = r ∧ s'.admitted = s.admitted ++ [(ch, r.admissionOrdinal)] ∨
        accepted = false ∧ req' = { r with admissionOrdinal := -1 } ∧ s'.admitted = s.admitted) := by
  unfold send at h
  dsimp only at h
  split_ifs at h with hsize hch
  unfold sendTo at h
  obtain ⟨⟨accepted', r, c⟩, hsend, heq⟩ := except_map_eq_ok.mp h
  have hupdate : ∀ f, f = Function.update s.controllers ⟨_, hch.2⟩ c →
      f ⟨_, hch.2⟩ = c ∧ ∀ ch', ch' ≠ ⟨_, hch.2⟩ → f ch' = s.controllers ch' := by
    rintro f rfl
    exact ⟨Function.update_self _ _ _, fun ch' hne => Function.update_of_ne hne _ _⟩
  refine ⟨_, r, c, Int.toNat_of_nonneg hch.1, ?_⟩
  cases accepted' with
  | true =>
      obtain ⟨rfl, rfl, rfl⟩ : _ ∧ _ ∧ _ = s' := by simpa using heq
      obtain ⟨hcontrollers, hnext, hadmitted⟩ := count_frame r _
      exact ⟨hsend, hupdate _ hcontrollers, hnext, .inl ⟨rfl, rfl, hadmitted⟩⟩
  | false =>
      obtain ⟨rfl, rfl, rfl⟩ : _ ∧ _ ∧ _ = s' := by simpa using heq
      exact ⟨hsend, hupdate _ rfl, rfl, .inr ⟨rfl, rfl, rfl⟩⟩

variable {inputs : (ch : Fin sys.numChannels) → (sys.controllers ch).Inputs}

theorem tick_frame (h : sys.tick inputs s = .ok s') :
    s'.nextAdmissionOrdinal = s.nextAdmissionOrdinal ∧ s'.admitted = s.admitted := by
  refine foldlM_preserves (P := fun t =>
    t.nextAdmissionOrdinal = s.nextAdmissionOrdinal ∧ t.admitted = s.admitted) ?_ ⟨rfl, rfl⟩ h
  intro t ch t' _ ht htick
  obtain ⟨c, -, rfl⟩ := except_map_eq_ok.mp htick
  exact ht

/-- What the tick of every controller preserves, the tick of the system preserves. -/
theorem tick_preserves {Q : (ch : Fin sys.numChannels) → (sys.controllers ch).State → Prop}
    (hQ : ∀ ch c c', Q ch c → (sys.controllers ch).tick (inputs ch) c = .ok c' → Q ch c')
    (hs : ∀ ch, Q ch (s.controllers ch)) (h : sys.tick inputs s = .ok s') :
    ∀ ch, Q ch (s'.controllers ch) := by
  refine foldlM_preserves (P := fun t => ∀ ch, Q ch (t.controllers ch)) ?_ hs h
  intro t ch t' _ ht htick ch'
  obtain ⟨c, hc, rfl⟩ := except_map_eq_ok.mp htick
  show Q ch' (Function.update t.controllers ch c ch')
  by_cases hch : ch' = ch
  · subst hch
    rw [Function.update_self]
    exact hQ ch' _ c (ht ch') hc
  · rw [Function.update_of_ne hch]
    exact ht ch'

/-- A tick of the system is one tick of each controller. -/
theorem controllers_tick (h : sys.tick inputs s = .ok s') (ch : Fin sys.numChannels) :
    (sys.controllers ch).tick (inputs ch) (s.controllers ch) = .ok (s'.controllers ch) := by
  have hfold : ∀ (chs : List (Fin sys.numChannels)), chs.Nodup → ∀ t : sys.State,
      chs.foldlM (tickAt inputs) t = .ok s' →
      (ch ∈ chs → (sys.controllers ch).tick (inputs ch) (t.controllers ch) =
        .ok (s'.controllers ch)) ∧
      (ch ∉ chs → s'.controllers ch = t.controllers ch) := by
    intro chs
    induction chs with
    | nil =>
        intro _ t h
        cases h
        exact ⟨nofun, fun _ => rfl⟩
    | cons ch' chs ih =>
        intro hnodup t h
        obtain ⟨hnot, hnodup⟩ := List.nodup_cons.mp hnodup
        rw [List.foldlM_cons] at h
        obtain ⟨u, hu, h⟩ := except_bind_eq_ok.mp h
        obtain ⟨c, hc, rfl⟩ := except_map_eq_ok.mp hu
        obtain ⟨hmem, hother⟩ := ih hnodup _ h
        by_cases hch : ch = ch'
        · subst hch
          have heq := hother hnot
          simp only [Function.update_self] at heq
          exact ⟨fun _ => heq ▸ hc, fun habs => absurd List.mem_cons_self habs⟩
        · simp only [Function.update_of_ne hch] at hmem hother
          refine ⟨fun hin => hmem ((List.mem_cons.mp hin).resolve_left hch), fun hout => ?_⟩
          exact hother fun hin => hout (List.mem_cons_of_mem ch' hin)
  exact (hfold _ (List.nodup_finRange _) s h).1 (List.mem_finRange ch)

/-- A tick of the system, when what each controller's tick does is known. -/
theorem tick_eq_of_forall
    {f : (ch : Fin sys.numChannels) → (sys.controllers ch).State → (sys.controllers ch).State}
    (hf : ∀ ch, (sys.controllers ch).tick (inputs ch) (s.controllers ch) =
      .ok (f ch (s.controllers ch))) :
    sys.tick inputs s = .ok { s with controllers := fun ch => f ch (s.controllers ch) } := by
  -- the controllers in the list have ticked, the others not yet
  have hfold : ∀ (chs : List (Fin sys.numChannels)), chs.Nodup → ∀ t : sys.State,
      (∀ ch ∈ chs, t.controllers ch = s.controllers ch) →
      chs.foldlM (tickAt inputs) t = .ok { t with
        controllers := fun ch => if ch ∈ chs then f ch (s.controllers ch) else t.controllers ch } := by
    intro chs
    induction chs with
    | nil => simp [pure, Except.pure]
    | cons ch chs ih =>
        intro hnodup t ht
        obtain ⟨hnot, hnodup⟩ := List.nodup_cons.mp hnodup
        have hone : tickAt inputs t ch = .ok { t with
            controllers := Function.update t.controllers ch (f ch (s.controllers ch)) } := by
          unfold tickAt
          rw [ht ch List.mem_cons_self, hf ch]
          rfl
        rw [List.foldlM_cons, hone]
        show List.foldlM (tickAt inputs) _ chs = _
        rw [ih hnodup]
        · congr 2
          funext ch'
          by_cases hch : ch' = ch
          · subst hch
            simp [hnot]
          · simp [hch]
        · intro ch' hch'
          have hne : ch' ≠ ch := by
            rintro rfl
            exact hnot hch'
          show Function.update t.controllers ch _ ch' = _
          rw [Function.update_of_ne hne]
          exact ht ch' (List.mem_cons_of_mem ch hch')
  unfold tick
  rw [hfold _ (List.nodup_finRange _) s fun _ _ => rfl]
  simp

end GenericDRAM

end Ramulator.MemorySystem
