/-
# Ramulator.MemorySystem.Admission — rejected requests and admission ordinals.

A rejected attempt must leave no trace but a hole in the sequence of ordinals: the controller is as it
was, and the request, which the controller's mapper has written to, can be sent again as if it were
new. The admitted requests of a channel carry increasing ordinals in the order of their admission.
Each channel counts for itself, so the ordinals of different channels repeat.
-/
import Ramulator.MemorySystem.GenericDRAM

namespace Ramulator.MemorySystem

open Ramulator.Base (Request)
open Ramulator.Controller Ramulator.Dram Ramulator.Lib

variable {K : Type}

namespace GenericDRAM

variable {sys : GenericDRAM K} {s s' : sys.State}

/-- The ordinals of the requests that channel `ch` has admitted, oldest first. -/
def State.ordinals (s : sys.State) (ch : Fin sys.numChannels) : List Int :=
  (s.admitted.filter (·.1 = ch)).map (·.2)

/-- Per channel, ordinals increase and stay below the next one. -/
structure OrdinalsOk (s : sys.State) : Prop where
  increasing : ∀ ch, (s.ordinals ch).Pairwise (· < ·)
  below : ∀ ch, ∀ o ∈ s.ordinals ch, o < s.nextAdmissionOrdinal ch

theorem ordinalsOk_init (sys : GenericDRAM K) : OrdinalsOk sys.init :=
  ⟨fun _ => .nil, fun _ _ ho => nomatch ho⟩

/-- Steps that admit nothing and do not lower the counters. -/
theorem OrdinalsOk.frame (h : OrdinalsOk s) (hadmitted : s'.admitted = s.admitted)
    (hnext : ∀ ch, s.nextAdmissionOrdinal ch ≤ s'.nextAdmissionOrdinal ch) : OrdinalsOk s' := by
  have hordinals : ∀ ch, s'.ordinals ch = s.ordinals ch := by
    intro ch
    unfold State.ordinals
    rw [hadmitted]
  refine ⟨fun ch => ?_, fun ch o ho => ?_⟩
  · rw [hordinals]
    exact h.increasing ch
  · rw [hordinals] at ho
    exact (h.below ch o ho).trans_le (hnext ch)

theorem le_update_succ (f : Fin sys.numChannels → Int) (ch ch' : Fin sys.numChannels) :
    f ch' ≤ Function.update f ch (f ch + 1) ch' := by
  by_cases hch : ch' = ch
  · rw [hch, Function.update_self]
    omega
  · rw [Function.update_of_ne hch]

/-- The next ordinal of `ch` is above all that it has given. -/
theorem OrdinalsOk.push (h : OrdinalsOk s) {ch : Fin sys.numChannels}
    (hadmitted : s'.admitted = s.admitted ++ [(ch, s.nextAdmissionOrdinal ch)])
    (hnext : s'.nextAdmissionOrdinal =
      Function.update s.nextAdmissionOrdinal ch (s.nextAdmissionOrdinal ch + 1)) : OrdinalsOk s' := by
  have hordinals : ∀ ch', s'.ordinals ch' =
      s.ordinals ch' ++ if ch' = ch then [s.nextAdmissionOrdinal ch] else [] := by
    intro ch'
    unfold State.ordinals
    rw [hadmitted, List.filter_append, List.map_append]
    by_cases hch : ch' = ch
    · simp [hch]
    · simp [hch, Ne.symm hch]
  refine ⟨fun ch' => ?_, fun ch' o ho => ?_⟩
  · rw [hordinals]
    split_ifs with hch
    · subst hch
      refine List.pairwise_append.mpr ⟨h.increasing ch', List.pairwise_singleton _ _, ?_⟩
      intro o ho o' ho'
      rw [List.mem_singleton.mp ho']
      exact h.below ch' o ho
    · rw [List.append_nil]
      exact h.increasing ch'
  · rw [hordinals, List.mem_append] at ho
    rw [hnext]
    rcases ho with ho | ho
    · exact (h.below ch' o ho).trans_le (le_update_succ _ ch ch')
    · split_ifs at ho with hch
      · rw [List.mem_singleton.mp ho, hch, Function.update_self]
        omega
      · cases ho

theorem OrdinalsOk.send (h : OrdinalsOk s) {req req' : Request Command K} {accepted : Bool}
    (hsend : sys.send req s = .ok (accepted, req', s')) : OrdinalsOk s' := by
  obtain ⟨ch, r, c, -, hc, -, hnext, hcase⟩ := send_cases hsend
  rcases hcase with ⟨-, -, hadmitted⟩ | ⟨-, -, hadmitted⟩
  · rw [(sys.controllers ch).keeps_ordinal hc] at hadmitted
    exact h.push hadmitted hnext
  · refine h.frame hadmitted fun ch' => ?_
    rw [hnext]
    exact le_update_succ _ ch ch'

theorem OrdinalsOk.tick (h : OrdinalsOk s)
    {inputs : (ch : Fin sys.numChannels) → (sys.controllers ch).Inputs}
    (htick : sys.tick inputs s = .ok s') : OrdinalsOk s' := by
  obtain ⟨hnext, hadmitted⟩ := tick_frame htick
  exact h.frame hadmitted fun ch => by rw [hnext]

theorem ordinalsOk_of_reached {allowed : sys.Call → Prop} (hs : sys.ReachedBy allowed s) :
    OrdinalsOk s := by
  refine hs.invariant OrdinalsOk (ordinalsOk_init sys) ?_
  rintro s (req | inputs) s' h ⟨-, hcall⟩
  · obtain ⟨⟨accepted, req', t⟩, hsend, rfl⟩ := except_map_eq_ok.mp hcall
    exact h.send hsend
  · exact h.tick hcall

end GenericDRAM

/-- A rejected `send` leaves the controller as it was. Sending the request object again, after any
number of rejections in whatever states, does what sending a fresh copy would do, unless the mapper
redirects rows of vectors that it passes through. The requests that a channel admits carry increasing
ordinals, and a rejected request carries none. -/
theorem rejected_send_atomic :
    (∀ (cfg : Config) (m : AddrMapper) (req req' : Request Command K) (s s' : ControllerBase K),
      s.sendVia cfg m req = .ok (false, req', s') → s' = s) ∧
    (∀ (cfg : Config) (m : AddrMapper) (req r : Request Command K) (s : ControllerBase K),
      m.Settled req → ControllerBase.Retried cfg m req r →
        s.sendVia cfg m r = s.sendVia cfg m req) ∧
    ∀ (sys : GenericDRAM K) (s : sys.State), sys.ReachedBy (fun _ => True) s →
      (∀ ch, (s.ordinals ch).Pairwise (· < ·)) ∧
      ∀ (req req' : Request Command K) (accepted : Bool) (s' : sys.State),
        sys.send req s = .ok (accepted, req', s') →
          (accepted = true → ∃ ch : Fin sys.numChannels,
            (ch : Int) = (sys.channelMapper.apply req).addrVec.coord 0 ∧
              s'.admitted = s.admitted ++ [(ch, req'.admissionOrdinal)]) ∧
          (accepted = false → req'.admissionOrdinal = -1 ∧ s'.admitted = s.admitted) := by
  refine ⟨fun cfg m req req' s s' h => ?_, fun cfg m req r s hsettled hr => ?_, fun sys s hs => ?_⟩
  · exact (ControllerBase.sendVia_rejected h).1
  · exact hr.sendVia_eq hsettled s
  · refine ⟨(GenericDRAM.ordinalsOk_of_reached hs).increasing, ?_⟩
    intro req req' accepted s' hsend
    obtain ⟨ch, r, c, hch, -, -, -, hcase⟩ := GenericDRAM.send_cases hsend
    rcases hcase with ⟨rfl, rfl, hadmitted⟩ | ⟨rfl, rfl, hadmitted⟩
    · exact ⟨fun _ => ⟨ch, hch, hadmitted⟩, nofun⟩
    · exact ⟨nofun, fun _ => ⟨rfl, hadmitted⟩⟩

/-! ### Runs of a small system -/

/-- Two channels, each with its own small controller, behind the pass-through mappers. -/
def smallSystem : GenericDRAM Unit where
  numChannels := 2
  numChannels_pos := by decide
  controllers := fun ch =>
    .ofKind { smallConfig with channelId := (ch : Int) } .genericDDR .passThrough
  channelMapper := .passThrough
  txBytes := 64

/-- A transaction at the given place. -/
def smallRequest (vec : AddrVec) (type : Int) : Request Command Unit :=
  { Request.ofAddrVec vec type with sizeBytes := 64 }

/-- A read buffer of one place, which one read fills. -/
def tightConfig : Config := { smallConfig with readBufferSize := 1 }

/-- A table without entries that keeps row 0 of every bank free. -/
def smallRIT : RITAddrMapper where
  spec := smallDDR
  reservedRowsPerBank := 1
  row_pos := by decide
  reserved_lt := by decide

/-- The fields of a flat mapper for the small device. -/
def smallBits : AddrMapperBase where
  addrBits := [0, 0, 1, 4, 4]
  txOffset := 6
  rowIdx := 3
  addrBits_length := rfl

/-- Over a flat mapper, a request that was rejected once is admitted with the row that a fresh copy
gets. -/
theorem rejected_send_atomic_small :
    ∃ (req r r' : Request Command Unit) (s s' t t' : ControllerBase Unit),
      s.sendVia tightConfig (.rit smallRIT (.roBaRaCoCh smallBits)) req = .ok (false, r, s') ∧
      s' = s ∧ t.sendVia tightConfig (.rit smallRIT (.roBaRaCoCh smallBits)) r = .ok (true, r', t') ∧
      t.sendVia tightConfig (.rit smallRIT (.roBaRaCoCh smallBits)) req = .ok (true, r', t') ∧
      ∃ u : smallSystem.State, smallSystem.ReachedBy (fun _ => True) u ∧
        u.admitted.map (·.2) = [0, 1] ∧ ∀ ch, (u.ordinals ch).Pairwise (· < ·) := by
  obtain ⟨hatomic, hretry, hordinals⟩ := rejected_send_atomic (K := Unit)
  let m : AddrMapper := .rit smallRIT (.roBaRaCoCh smallBits)
  let req : Request Command Unit := { smallRequest [] Request.read with intraChannelAddr := 64 }
  have hrun : (do
      let a ← (ControllerBase.init tightConfig).sendVia tightConfig m req
      let b ← a.2.2.sendVia tightConfig m req
      let t ← b.2.2.tick tightConfig {}
      let c ← t.sendVia tightConfig m b.2.1
      pure (b.1, c.1)) = .ok (false, true) := by
    decide +kernel
  obtain ⟨a, -, hrun⟩ := except_bind_eq_ok.mp hrun
  obtain ⟨⟨accepted, r, s'⟩, hb, hrun⟩ := except_bind_eq_ok.mp hrun
  obtain ⟨t, -, hrun⟩ := except_bind_eq_ok.mp hrun
  obtain ⟨⟨accepted', r', t'⟩, hc, hrun⟩ := except_bind_eq_ok.mp hrun
  obtain ⟨rfl, rfl⟩ : accepted = false ∧ accepted' = true := Prod.mk.inj (Except.ok.inj hrun)
  have hsame := hretry tightConfig m req r t (.inl rfl) (.step a.2.2 .start ⟨s', hb⟩)
  have hobs : (runAll smallSystem.call [.send (smallRequest smallRow Request.read),
      .send (smallRequest smallRow Request.read)] smallSystem.init).map
      (fun u => u.admitted.map (·.2)) = .ok ([0, 1] : List Int) := by
    decide +kernel
  obtain ⟨u, hu, hadmitted⟩ := GenericDRAM.reached_of_runAll hobs
  exact ⟨req, r, r', a.2.2, s', t, t', hb, hatomic _ _ _ _ _ _ hb, hc, hsame ▸ hc, u, hu, hadmitted,
    (hordinals smallSystem u hu).1⟩

/-- The ordinals of the system as a whole repeat: each channel starts at 0. And over the pass-through
mapper a rejected read is moved above the reserved rows once more when it is sent again. -/
theorem ordinals_repeat_and_retry_shifts :
    (∃ u : smallSystem.State, smallSystem.ReachedBy (fun _ => True) u ∧
      ¬ (u.admitted.map (·.2)).Pairwise (· < ·)) ∧
    ∃ (req req' r r₁ r₂ : Request Command Unit) (s s' t t₁ t₂ : ControllerBase Unit),
      (ControllerBase.init tightConfig).sendVia tightConfig (.rit smallRIT .passThrough) req =
        .ok (true, req', s) ∧
      s.sendVia tightConfig (.rit smallRIT .passThrough) req = .ok (false, r, s') ∧
      s'.tick tightConfig {} = .ok t ∧
      t.sendVia tightConfig (.rit smallRIT .passThrough) r = .ok (true, r₁, t₁) ∧
      t.sendVia tightConfig (.rit smallRIT .passThrough) req = .ok (true, r₂, t₂) ∧
      r₁.addrVec ≠ r₂.addrVec := by
  refine ⟨?_, ?_⟩
  · have hobs : (runAll smallSystem.call [.send (smallRequest smallRow Request.read),
        .send (smallRequest (1 :: smallRow.tail) Request.read)] smallSystem.init).map
        (fun u => u.admitted.map (·.2)) = .ok ([0, 0] : List Int) := by
      decide +kernel
    obtain ⟨u, hu, hadmitted⟩ := GenericDRAM.reached_of_runAll hobs
    refine ⟨u, hu, ?_⟩
    rw [hadmitted]
    decide
  · let m : AddrMapper := .rit smallRIT .passThrough
    let req := smallRequest smallRow Request.read
    have hrun : (do
        let a ← (ControllerBase.init tightConfig).sendVia tightConfig m req
        let b ← a.2.2.sendVia tightConfig m req
        let t ← b.2.2.tick tightConfig {}
        let c ← t.sendVia tightConfig m b.2.1
        let d ← t.sendVia tightConfig m req
        pure ([a.1, b.1, c.1, d.1], c.2.1.addrVec, d.2.1.addrVec)) =
        .ok ([true, false, true, true], [0, 0, 0, 0, 7, 0], [0, 0, 0, 0, 6, 0]) := by
      decide +kernel
    obtain ⟨⟨x₀, req', s⟩, ha, hrun⟩ := except_bind_eq_ok.mp hrun
    obtain ⟨⟨x₁, r, s'⟩, hb, hrun⟩ := except_bind_eq_ok.mp hrun
    obtain ⟨t, ht, hrun⟩ := except_bind_eq_ok.mp hrun
    obtain ⟨⟨x₂, r₁, t₁⟩, hc, hrun⟩ := except_bind_eq_ok.mp hrun
    obtain ⟨⟨x₃, r₂, t₂⟩, hd, hrun⟩ := except_bind_eq_ok.mp hrun
    obtain ⟨hx, hvec₁, hvec₂⟩ : [x₀, x₁, x₂, x₃] = [true, false, true, true] ∧
        r₁.addrVec = [0, 0, 0, 0, 7, 0] ∧ r₂.addrVec = [0, 0, 0, 0, 6, 0] := by
      simpa using Except.ok.inj hrun
    obtain ⟨rfl, rfl, rfl, rfl⟩ : x₀ = true ∧ x₁ = false ∧ x₂ = true ∧ x₃ = true := by
      simpa using hx
    refine ⟨req, req', r, r₁, r₂, s, s', t, t₁, t₂, ha, hb, ht, hc, hd, ?_⟩
    rw [hvec₁, hvec₂]
    decide

end Ramulator.MemorySystem
