/-
# Ramulator.MemorySystem.PassThrough — address vectors that come from the frontend.

Behind the pass-through mappers a request's DRAM location is the vector that the frontend wrote, while
`send` looks for a waiting write under the request's flat address, which the frontend wrote as well, or
left at its default. So whether forwarding and coalescing concern one location depends on how the two
agree. Here a frontend is any source of requests whose flat address is a function of the location
(`Native`); `ReadWriteTrace`, whose flat addresses are all the default, is in
`Ramulator.Frontend.ReadWriteTrace`.
-/
import Ramulator.MemorySystem.GenericDRAM
import Ramulator.Controller.Forwarding

namespace Ramulator.MemorySystem

open Ramulator.Base (Request)
open Ramulator.Controller Ramulator.Dram Ramulator.Lib

variable {K : Type}

/-- A memory system of cycle-level controllers behind the pass-through mappers. -/
structure PassThrough where
  numChannels : Nat
  numChannels_pos : 0 < numChannels
  config : Fin numChannels → Config
  kind : Fin numChannels → ControllerKind
  txBytes : Int

namespace PassThrough

variable {p : PassThrough}

/-- The configuration of a channel after `set_channel_id`. -/
def configOf (p : PassThrough) (ch : Fin p.numChannels) : Config :=
  { p.config ch with channelId := (ch : Int) }

variable (K) in
def system (p : PassThrough) : GenericDRAM K where
  numChannels := p.numChannels
  numChannels_pos := p.numChannels_pos
  controllers := fun ch => .ofKind (p.configOf ch) (p.kind ch) .passThrough
  channelMapper := .passThrough
  txBytes := p.txBytes

/-- The controller of a channel, without what its kind adds. -/
def base (s : (p.system K).State) (ch : Fin p.numChannels) : ControllerBase K :=
  Derived.base (s.controllers ch)

/-- The location of a request: its vector, with an unset channel set. -/
def location (req : Request Command K) : AddrVec := ChannelMapper.passThroughVec req.addrVec

theorem set_coord_zero (v : AddrVec) : v.set 0 (v.coord 0) = v := by
  cases v with
  | nil => rfl
  | cons c rest => rfl

variable {req req' : Request Command K} {s s' : (p.system K).State} {accepted : Bool}

/-- A `send` is one `send` on the controller of the location's channel, at that location. -/
theorem send_cases (h : (p.system K).send req s = .ok (accepted, req', s')) :
    ∃ (ch : Fin p.numChannels) (r r' : Request Command K),
      (ch : Int) = (location req).coord 0 ∧ r.addr = req.addr ∧ r.typeId = req.typeId ∧
      (base s ch).send (p.configOf ch) (fun _ => location req) r = .ok (accepted, r', base s' ch) ∧
      req'.addrVec = location req ∧ ∀ ch', ch' ≠ ch → base s' ch' = base s ch' := by
  obtain ⟨ch, r', c, hch, hsend, ⟨hctrl, hother⟩, -, hcase⟩ := GenericDRAM.send_cases h
  have hreq' : req'.addrVec = r'.addrVec := by
    rcases hcase with ⟨-, rfl, -⟩ | ⟨-, rfl, -⟩ <;> rfl
  obtain ⟨⟨accepted', r'', t⟩, hvia, heq⟩ := except_map_eq_ok.mp hsend
  obtain ⟨vec, hvec, hvia⟩ := except_bind_eq_ok.mp hvia
  have hloc : vec = location req := by
    split_ifs at hvec
    · exact (Except.ok.inj hvec).symm
    · exact (Except.ok.inj hvec).symm
  subst hloc
  cases heq
  have hbase : base s' ch = t := by
    unfold base
    rw [hctrl]
  have hvecs : (location req).set 0 (ch : Int) = location req := by
    rw [hch]
    exact set_coord_zero _
  refine ⟨ch, (p.system K).offered req s ch, r'', hch, rfl, rfl, ?_, ?_, fun ch' hne => ?_⟩
  · rw [hbase]
    exact hvia
  · rw [hreq', ← hvecs]
    exact (ControllerBase.send_request hvia).1
  · unfold base
    rw [hother ch' hne]

/-- A rejected `send` changes no controller. -/
theorem base_of_rejected (h : (p.system K).send req s = .ok (false, req', s'))
    (ch : Fin p.numChannels) : base s' ch = base s ch := by
  obtain ⟨ch₀, r, r', -, -, -, hsend, -, hother⟩ := send_cases h
  by_cases hch : ch = ch₀
  · subst hch
    rcases ControllerBase.send_cases hsend with
      ⟨-, -, heq⟩ | ⟨-, -, -, heq⟩ | ⟨-, -, heq⟩ | ⟨-, -, -, heq⟩ | ⟨-, heq⟩
    -- the first four accept the request
    all_goals
      obtain ⟨haccepted, heq⟩ := Prod.mk.inj heq
      try cases haccepted
    exact (Prod.mk.inj heq).2
  · exact hother ch hch

/-! ## What waits in the write buffers -/

section WriteSets

variable {P : Fin p.numChannels → Int → AddrVec → Prop}

theorem writeSetOk_send (hs : ∀ ch, WriteSetOk (P ch) (base s ch))
    (hP : ∀ ch : Fin p.numChannels, (ch : Int) = (location req).coord 0 →
      req.typeId = Request.write → P ch req.addr (location req))
    (h : (p.system K).send req s = .ok (accepted, req', s')) (ch : Fin p.numChannels) :
    WriteSetOk (P ch) (base s' ch) := by
  obtain ⟨ch₀, r, r', hch₀, haddr, htype, hsend, -, hother⟩ := send_cases h
  by_cases hch : ch = ch₀
  · subst hch
    refine (hs ch).send (fun hwrite => ?_) hsend
    have hvec : (location req).set 0 (p.configOf ch).channelId = location req := by
      show (location req).set 0 (ch : Int) = _
      rw [hch₀]
      exact set_coord_zero _
    rw [haddr, hvec]
    exact hP ch hch₀ (htype ▸ hwrite)
  · rw [hother ch hch]
    exact hs ch

theorem writeSetOk_tick {inputs : (ch : Fin p.numChannels) → ((p.system K).controllers ch).Inputs}
    (hs : ∀ ch, WriteSetOk (P ch) (base s ch)) (h : (p.system K).tick inputs s = .ok s') :
    ∀ ch, WriteSetOk (P ch) (base s' ch) := by
  refine GenericDRAM.tick_preserves (Q := fun ch d => WriteSetOk (P ch) (Derived.base d)) ?_ hs h
  intro ch d d' hd htick
  exact writeSetOk_kindTick (p.kind ch) hd htick

end WriteSets

/-! ## One location -/

/-- If the request, which goes to `vec`, was forwarded from the write buffer or absorbed into it, then
a write to `vec` was waiting there. -/
def OneLocation (req : Request Command K) (vec : AddrVec) (s s' : ControllerBase K) : Prop :=
  Took .forwarded req s s' ∨ Took .coalesced req s s' → ∃ w ∈ s.write, w.addrVec = vec

/-- No write to another location waits under the flat address `addr`. -/
def NoAlias (addr : Int) (vec : AddrVec) (s : ControllerBase K) : Prop :=
  ∀ w ∈ s.write, w.addr = addr → w.addrVec = vec

/-- Where flat addresses are a function of the location, a forward concerns one location exactly if no
other location hides behind the address. -/
theorem oneLocation_iff {cfg : Config} {lineId : AddrVec → Int} {s s' : ControllerBase K}
    {apply : Request Command K → AddrVec} {vec : AddrVec}
    (hok : WriteSetOk (fun a v => a = lineId v) s) (haddr : req.addr = lineId vec)
    (hsend : s.send cfg apply req = .ok (accepted, req', s')) :
    OneLocation req vec s s' ↔ NoAlias req.addr vec s := by
  obtain ⟨hforward, hcoalesce⟩ := send_took hsend
  have hroute : (Took .forwarded req s s' ∨ Took .coalesced req s s') ↔
      ∃ w ∈ s.write, w.addr = req.addr := by
    rw [hforward, hcoalesce, ← or_and_right, and_iff_right (ControllerBase.send_type hsend),
      hok.mem_iff]
  unfold OneLocation NoAlias
  rw [hroute]
  constructor
  · intro hone w hw hwaddr
    -- the write to `vec` has the same address, and no two waiting writes have
    obtain ⟨w', hw', hvec⟩ := hone ⟨w, hw, hwaddr⟩
    have haddr' : w'.addr = w.addr := by rw [hok.only w' hw', hvec, hwaddr, haddr]
    rw [← List.inj_on_of_nodup_map hok.distinct hw' hw haddr']
    exact hvec
  · rintro hno ⟨w, hw, hwaddr⟩
    exact ⟨w, hw, hno w hw hwaddr⟩

/-- The frontend gives every request the flat address `lineId` of its location. -/
def Native (lineId : AddrVec → Int) : (p.system K).Call → Prop
  | .send req => req.addr = lineId (location req)
  | .tick _ => True

theorem writeSetOk_of_reached {lineId : AddrVec → Int}
    (hs : (p.system K).ReachedBy (Native lineId) s) (ch : Fin p.numChannels) :
    WriteSetOk (fun a v => a = lineId v) (base s ch) := by
  revert ch
  refine hs.invariant (fun s => ∀ ch, WriteSetOk (fun a v => a = lineId v) (base s ch))
    (fun ch => writeSetOk_init) ?_
  rintro s (req | inputs) s' h ⟨hnative, hcall⟩
  · obtain ⟨⟨accepted, req', t⟩, hsend, rfl⟩ := except_map_eq_ok.mp hcall
    exact writeSetOk_send h (fun _ _ _ => hnative) hsend
  · exact writeSetOk_tick h hcall

/-- The same in the memory system. -/
theorem oneLocation_send_iff (lineId : AddrVec → Int)
    (hs : ∀ ch, WriteSetOk (fun a v => a = lineId v) (base s ch))
    (haddr : req.addr = lineId (location req))
    (h : (p.system K).send req s = .ok (accepted, req', s')) {ch : Fin p.numChannels}
    (hch : (ch : Int) = (location req).coord 0) :
    OneLocation req (location req) (base s ch) (base s' ch) ↔
      NoAlias req.addr (location req) (base s ch) := by
  obtain ⟨ch₀, r, r', hch₀, hraddr, hrtype, hsend, -, -⟩ := send_cases h
  obtain rfl : ch = ch₀ := Fin.ext (Int.ofNat.inj (hch.trans hch₀.symm))
  have hiff := oneLocation_iff (hs ch) (hraddr.trans haddr) hsend
  unfold OneLocation Took at hiff ⊢
  rw [hraddr, hrtype] at hiff
  exact hiff

end PassThrough

end Ramulator.MemorySystem
