/-
# Ramulator.Controller.Forwarding — write forwarding in all controllers.

The controllers of the repository differ in how they choose and serve requests, but they move requests
with the operations of `ControllerBase`, except that LPDDR has a move of its own. So each of their
ticks keeps the write-forwarding set exact (`Ramulator.Controller.WriteSet`), and in every state that
one of them reaches `send` forwards and coalesces exactly when a write to the address is waiting.
-/
import Ramulator.Controller.WriteSet
import Ramulator.Controller.Kind

namespace Ramulator.Controller

open Ramulator.Base (Request)
open Ramulator.Dram Ramulator.Lib ControllerBase

variable {K : Type} {P : Int → AddrVec → Prop} {cfg : Config} {s s' : ControllerBase K}

/-! ## The generic DDR controller -/

theorem WriteSetOk.tick (h : WriteSetOk P s) {inputs : TickInputs K}
    (htick : s.tick cfg inputs = .ok s') : WriteSetOk P s' := by
  obtain ⟨s₁, hpre, htick⟩ := except_bind_eq_ok.mp htick
  obtain ⟨s₂, hserve, hpost⟩ := except_bind_eq_ok.mp htick
  obtain ⟨hres, -⟩ := scheduleWith_spec cfg (some fun _ => true) (fun _ => true) (fun _ => true) s₁
  exact (((h.preTick hpre).resolved hres).serve hserve).prioritySendAll hpost

/-! ## HBM -/

theorem place_upgradeOnSlot (cfg : Config) (fits : Entry K → Bool) (s : ControllerBase K)
    (e : Entry K) : (s.upgradeOnSlot cfg fits e).place = e.place := by
  unfold upgradeOnSlot
  dsimp only
  split_ifs <;> exact place_tryUpgradeCommand cfg s e

theorem WriteSetOk.tryIssueSlot (h : WriteSetOk P s) {fits : Entry K → Bool} {slot : SlotType}
    {onIssue : List (Request Command K)} {issued : Option IssuedCommand}
    (hslot : s.tryIssueSlot cfg fits slot onIssue = .ok (s', issued)) : WriteSetOk P s' := by
  unfold ControllerBase.tryIssueSlot at hslot
  obtain ⟨hres, -⟩ :=
    scheduleWith_spec cfg (if slot = .columnBus then some fits else none) fits fits s
  rcases hfound : s.scheduleWith cfg (if slot = .columnBus then some fits else none) fits fits with
    ⟨t, - | ⟨b, i⟩⟩
  all_goals
    rw [hfound] at hres hslot
    have ht : WriteSetOk P t := h.resolved hres
    dsimp only at hslot
  · cases hslot
    exact ht
  · cases hi : (t.bufs b)[i]? with
    | none =>
        simp only [hi] at hslot
        cases hslot
        exact ht
    | some e =>
        simp only [hi] at hslot
        obtain ⟨⟨u, c⟩, hserve, heq⟩ := except_map_eq_ok.mp hslot
        obtain ⟨v, hissue, hpure⟩ := except_bind_eq_ok.mp hserve
        obtain ⟨hv, hi'⟩ := ht.countAndIssue hi (place_upgradeOnSlot cfg fits t e) hissue
        cases hpure
        cases heq
        exact hv.advance hi'

theorem writeSetOk_hbm12Tick {h : HBMConfig} {inputs : SlotInputs K} {d d' : Derived K Unit}
    (hd : WriteSetOk P d.base) (htick : hbm12Tick cfg h inputs d = .ok d') : WriteSetOk P d'.base := by
  obtain ⟨s₁, hpre, htick⟩ := except_bind_eq_ok.mp htick
  obtain ⟨⟨s₂, col⟩, hcol, htick⟩ := except_bind_eq_ok.mp htick
  obtain ⟨⟨s₃, row⟩, hrow, htick⟩ := except_bind_eq_ok.mp htick
  obtain ⟨s₄, hpost, htick⟩ := except_bind_eq_ok.mp htick
  cases htick
  exact (((hd.preTick hpre).tryIssueSlot hcol).tryIssueSlot hrow).prioritySendAll hpost

theorem writeSetOk_columnSlot {h : HBM34Config} {onIssue : List (Request Command K)}
    {d d' : Derived K HBM34State} (hd : WriteSetOk P d.base)
    (hslot : h.columnSlot cfg onIssue d = .ok d') : WriteSetOk P d'.base := by
  unfold HBM34Config.columnSlot at hslot
  dsimp only at hslot
  split_ifs at hslot
  · obtain ⟨⟨t, issued⟩, ht, rfl⟩ := except_map_eq_ok.mp hslot
    exact hd.tryIssueSlot ht
  · cases hslot
    exact hd

theorem writeSetOk_rowSlot {h : HBM34Config} {onIssue : List (Request Command K)}
    {d d' : Derived K HBM34State} (hd : WriteSetOk P d.base)
    (hslot : h.rowSlot cfg onIssue d = .ok d') : WriteSetOk P d'.base := by
  obtain ⟨⟨t, - | c⟩, ht, rfl⟩ := except_map_eq_ok.mp hslot
  all_goals exact hd.tryIssueSlot ht

theorem writeSetOk_hbm34Tick {h : HBM34Config} {inputs : SlotInputs K} {d d' : Derived K HBM34State}
    (hd : WriteSetOk P d.base) (htick : hbm34Tick cfg h inputs d = .ok d') : WriteSetOk P d'.base := by
  obtain ⟨s₁, hpre, htick⟩ := except_bind_eq_ok.mp htick
  obtain ⟨d₂, hcol, htick⟩ := except_bind_eq_ok.mp htick
  obtain ⟨d₃, hrow, htick⟩ := except_bind_eq_ok.mp htick
  obtain ⟨s₄, hpost, htick⟩ := except_bind_eq_ok.mp htick
  cases htick
  have h₁ : WriteSetOk P s₁ := hd.preTick hpre
  exact (writeSetOk_rowSlot (writeSetOk_columnSlot h₁ hcol) hrow).prioritySendAll hpost

/-! ## PRAC and BlockHammer -/

theorem WriteSetOk.enqueuePrac (h : WriteSetOk P s) (req : Request Command K) :
    WriteSetOk P (PRACConfig.enqueuePrac s req) := by
  unfold PRACConfig.enqueuePrac
  split_ifs
  · exact h.frame rfl rfl
  · exact h

theorem writeSetOk_injectRecoveryCommands {p : PRACConfig} {d : Derived K PRACState}
    (hd : WriteSetOk P d.base) : WriteSetOk P (p.injectRecoveryCommands cfg d).base := by
  have hfold : ∀ (reqs : List (Request Command K)) (s : ControllerBase K), WriteSetOk P s →
      WriteSetOk P (reqs.foldl PRACConfig.enqueuePrac s) := by
    intro reqs
    induction reqs with
    | nil => exact fun s hs => hs
    | cons req reqs ih => exact fun s hs => ih _ (hs.enqueuePrac req)
  unfold PRACConfig.injectRecoveryCommands
  split_ifs
  · exact hfold _ _ hd
  · exact hd

theorem pracSchedule_resolved (cfg : Config) (p : PRACConfig) (own : PRACState)
    (s : ControllerBase K) : Resolved s (p.schedule cfg own s).1 := by
  unfold PRACConfig.schedule
  dsimp only
  obtain ⟨hres, -⟩ := pickBestReadyFrom_spec cfg s .active (p.fits cfg s.clk own)
  rcases hfound : s.pickBestReadyFrom cfg .active (p.fits cfg s.clk own) with ⟨t, - | i⟩
  all_goals rw [hfound] at hres
  · dsimp only
    split_ifs
    · exact hres.trans (pickBestReadyFrom_spec cfg t .prac (PRACConfig.pracBufferFilter own)).1
    · exact hres.trans
        (scheduleWith_spec cfg none (p.fits cfg s.clk own) (p.fits cfg s.clk own) t).1
  · exact hres

theorem writeSetOk_pracServe {p : PRACConfig} {onIssue : List (Request Command K)} {own : PRACState}
    {cand : Option (Buf × Nat)} {d : Derived K PRACState} {issued : Option Command}
    (h : WriteSetOk P s) (hserve : p.serve cfg onIssue own (s, cand) = .ok (d, issued)) :
    WriteSetOk P d.base := by
  rcases cand with - | ⟨b, i⟩
  · cases hserve
    exact h
  · unfold PRACConfig.serve at hserve
    cases hi : (s.bufs b)[i]? with
    | none =>
        simp only [hi] at hserve
        cases hserve
        exact h
    | some e =>
        simp only [hi] at hserve
        obtain ⟨t, ht, heq⟩ := except_map_eq_ok.mp hserve
        cases heq
        exact h.serveCandidate hi ht

theorem writeSetOk_pracTick {p : PRACConfig} {inputs : TickInputs K} {d d' : Derived K PRACState}
    (hd : WriteSetOk P d.base) (htick : pracTick cfg p inputs d = .ok d') : WriteSetOk P d'.base := by
  obtain ⟨s₁, hpre, htick⟩ := except_bind_eq_ok.mp htick
  obtain ⟨⟨d₂, issued⟩, hserve, htick⟩ := except_bind_eq_ok.mp htick
  obtain ⟨s₃, hpost, htick⟩ := except_bind_eq_ok.mp htick
  cases htick
  have hinject : WriteSetOk P (p.injectRecoveryCommands cfg { d with base := s₁ }).base :=
    writeSetOk_injectRecoveryCommands (hd.preTick hpre)
  have hres := pracSchedule_resolved cfg p (p.injectRecoveryCommands cfg { d with base := s₁ }).own
    (p.injectRecoveryCommands cfg { d with base := s₁ }).base
  exact (writeSetOk_pracServe (hinject.resolved hres) hserve).prioritySendAll hpost

theorem writeSetOk_blockHammerServe {bh : BlockHammerConfig} {onIssue : List (Request Command K)}
    {own : BlockHammerState} {cand : Option (Buf × Nat)} {d : Derived K BlockHammerState}
    (h : WriteSetOk P s) (hserve : bh.serve cfg onIssue own (s, cand) = .ok d) :
    WriteSetOk P d.base := by
  rcases cand with - | ⟨b, i⟩
  · cases hserve
    exact h
  · unfold BlockHammerConfig.serve at hserve
    cases hi : (s.bufs b)[i]? with
    | none =>
        simp only [hi] at hserve
        cases hserve
        exact h
    | some e =>
        simp only [hi] at hserve
        obtain ⟨t, ht, rfl⟩ := except_map_eq_ok.mp hserve
        exact h.serveCandidate hi ht

theorem writeSetOk_blockHammerTick {bh : BlockHammerConfig} {inputs : TickInputs K}
    {d d' : Derived K BlockHammerState} (hd : WriteSetOk P d.base)
    (htick : blockHammerTick cfg bh inputs d = .ok d') : WriteSetOk P d'.base := by
  obtain ⟨s₁, hpre, htick⟩ := except_bind_eq_ok.mp htick
  obtain ⟨d₂, hserve, htick⟩ := except_bind_eq_ok.mp htick
  obtain ⟨s₃, hpost, htick⟩ := except_bind_eq_ok.mp htick
  cases htick
  obtain ⟨hres, -⟩ := scheduleWith_spec cfg (some fun _ => true) (fun _ => true)
    (bh.isActSafe cfg (BlockHammerConfig.update d.own)) s₁
  exact (writeSetOk_blockHammerServe ((hd.preTick hpre).resolved hres) hserve).prioritySendAll hpost

/-! ## LPDDR -/

section LPDDR

variable {lp : LPDDRConfig} {d d' : LPDDR K} {onIssue : List (Request Command K)}

/-- The move to the activating buffer takes the address out of the set itself. A full activating
buffer drops the request, and its address as well. -/
theorem WriteSetOk.moveToActivating (h : WriteSetOk P d.base) {b : Buf} {i : Nat} {e : Entry K}
    (hi : (d.base.bufs b)[i]? = some e) : WriteSetOk P (d.moveToActivating cfg lp b i e).base := by
  refine h.removeAt hi rfl ?_
  show (if (d.base.bufs .activating).length < cfg.spec.bankCount
    then d.base.setBuf .activating (d.base.bufs .activating ++ [e]) else d.base).bufs .write = _
  split_ifs <;> rfl

theorem writeSetOk_issueOwnedAct2 {kind : Act2IssueKind} {i : Nat} (h : WriteSetOk P d.base)
    (hissue : d.issueOwnedAct2 cfg onIssue kind i = .ok d') : WriteSetOk P d'.base := by
  unfold LPDDR.issueOwnedAct2 at hissue
  cases hi : (d.base.bufs .activating)[i]? with
  | none =>
      simp only [hi] at hissue
      cases hissue
      exact h
  | some e =>
      simp only [hi] at hissue
      obtain ⟨t, ht, heq⟩ := except_bind_eq_ok.mp hissue
      obtain ⟨hok, hi'⟩ := h.countAndIssue hi rfl ht
      cases heq
      exact hok.promoteToActive hi'

theorem writeSetOk_issueDeferredAct2 {required : Bool} (h : WriteSetOk P d.base)
    (hissue : d.issueDeferredAct2 cfg onIssue required = .ok d') : WriteSetOk P d'.base := by
  have hpick : WriteSetOk P (d.pickDeferredAct2 cfg).1.base := h.frame rfl rfl
  unfold LPDDR.issueDeferredAct2 at hissue
  rcases hfound : d.pickDeferredAct2 cfg with ⟨t, - | i⟩
  all_goals rw [hfound] at hpick hissue
  · cases hissue
    exact hpick
  · exact writeSetOk_issueOwnedAct2 hpick hissue

theorem writeSetOk_issueCas {b : Buf} {i : Nat} {e : Entry K} (h : WriteSetOk P d.base)
    (hi : (d.base.bufs b)[i]? = some e) (hissue : d.issueCas cfg lp onIssue b i e = .ok d') :
    WriteSetOk P d'.base := by
  unfold LPDDR.issueCas at hissue
  dsimp only at hissue
  split_ifs at hissue
  · obtain ⟨t, ht, heq⟩ := except_bind_eq_ok.mp hissue
    cases heq
    exact (h.issueAndNotify hi ht).1
  · cases hissue
    exact h

theorem writeSetOk_issueStandardCandidate {b : Buf} {i : Nat} {e : Entry K} (h : WriteSetOk P d.base)
    (hi : (d.base.bufs b)[i]? = some e)
    (hissue : d.issueStandardCandidate cfg lp onIssue b i e = .ok d') : WriteSetOk P d'.base := by
  obtain ⟨t, ht, heq⟩ := except_bind_eq_ok.mp hissue
  obtain ⟨hok, hi'⟩ := h.countAndIssue hi (place_tryUpgradeCommand cfg d.base e) ht
  split_ifs at heq
  · cases heq
    exact WriteSetOk.moveToActivating hok hi'
  · cases heq
    exact hok.advance hi'

theorem writeSetOk_continueCas {b : Buf} {i : Nat} (h : WriteSetOk P d.base)
    (hcas : d.continueCas cfg lp onIssue b i = .ok d') : WriteSetOk P d'.base := by
  unfold LPDDR.continueCas at hcas
  cases hi : (d.base.bufs b)[i]? with
  | none =>
      simp only [hi] at hcas
      cases hcas
      exact h
  | some e =>
      simp only [hi] at hcas
      split_ifs at hcas
      · obtain ⟨t, ht, heq⟩ := except_bind_eq_ok.mp hcas
        cases heq
        obtain ⟨hok, hi'⟩ := h.countAndIssue hi rfl ht
        exact hok.retireRequest hi'
      · obtain ⟨t, ht, heq⟩ := except_bind_eq_ok.mp hcas
        cases heq
        exact (h.countAndIssue hi rfl ht).1
      · cases hcas
        exact h

theorem writeSetOk_selectCandidate (cfg : Config) (lp : LPDDRConfig) (h : WriteSetOk P d.base) :
    WriteSetOk P (d.selectCandidate cfg lp).1.base := by
  have hnormal : WriteSetOk P (d.selectNormalCandidate cfg lp).1.base :=
    h.resolved (scheduleWith_spec cfg (some (LPDDR.activeOk cfg lp (d.assert _)))
      (LPDDR.otherOk cfg lp (d.assert _)) (LPDDR.otherOk cfg lp (d.assert _)) d.base).1
  unfold LPDDR.selectCandidate
  rcases hfound : d.selectNormalCandidate cfg lp with ⟨t, - | cand⟩
  all_goals rw [hfound] at hnormal
  · dsimp only
    unfold LPDDR.pickCasLookaheadCandidate
    split_ifs
    · exact hnormal
    · exact hnormal.frame rfl rfl
  · exact hnormal

theorem writeSetOk_serveTick {urgent : Option Nat} (h : WriteSetOk P d.base)
    (hserve : d.serveTick cfg lp onIssue urgent = .ok d') : WriteSetOk P d'.base := by
  unfold LPDDR.serveTick at hserve
  cases urgent with
  | some i => exact writeSetOk_issueOwnedAct2 h hserve
  | none =>
      have hselect := writeSetOk_selectCandidate cfg lp h
      dsimp only at hserve
      rcases hfound : d.selectCandidate cfg lp with ⟨t, - | ⟨b, i⟩⟩
      all_goals rw [hfound] at hselect hserve
      · exact writeSetOk_issueDeferredAct2 hselect hserve
      · dsimp only at hserve
        cases hi : (t.base.bufs b)[i]? with
        | none =>
            simp only [hi] at hserve
            cases hserve
            exact hselect
        | some e =>
            simp only [hi] at hserve
            unfold LPDDR.issueCandidate at hserve
            split_ifs at hserve
            · exact writeSetOk_issueStandardCandidate hselect hi hserve
            · exact writeSetOk_issueDeferredAct2 hselect hserve
            · exact writeSetOk_issueCas hselect hi hserve

theorem writeSetOk_lpddrTick {inputs : TickInputs K} (hd : WriteSetOk P d.base)
    (htick : lpddrTick cfg lp inputs d = .ok d') : WriteSetOk P d'.base := by
  obtain ⟨s₁, hpre, htick⟩ := except_bind_eq_ok.mp htick
  obtain ⟨d₃, hissue, htick⟩ := except_bind_eq_ok.mp htick
  obtain ⟨s₄, hpost, htick⟩ := except_bind_eq_ok.mp htick
  cases htick
  have hpick : WriteSetOk P (LPDDR.pickUrgentAct2 cfg { d with base := s₁ }).1.base :=
    (hd.preTick hpre).frame rfl rfl
  refine WriteSetOk.prioritySendAll ?_ hpost
  unfold LPDDR.issueTick at hissue
  dsimp only at hissue
  split at hissue
  · refine writeSetOk_continueCas ?_ hissue
    exact hpick
  · exact writeSetOk_serveTick hpick hissue

end LPDDR

/-! ## All controllers -/

theorem writeSetOk_kindTick (k : ControllerKind) {inputs : k.Inputs K} {d d' : Derived K k.Own}
    (hd : WriteSetOk P d.base) (htick : k.tick cfg inputs d = .ok d') : WriteSetOk P d'.base := by
  cases k with
  | genericDDR =>
      obtain ⟨t, ht, rfl⟩ := except_map_eq_ok.mp htick
      exact hd.tick ht
  | hbm12 h => exact writeSetOk_hbm12Tick hd htick
  | hbm34 h => exact writeSetOk_hbm34Tick hd htick
  | lpddr lp => exact writeSetOk_lpddrTick hd htick
  | prac p => exact writeSetOk_pracTick hd htick
  | blockHammer bh => exact writeSetOk_blockHammerTick hd htick

theorem writeSetOk_of_reached {k : ControllerKind} {d : Derived K k.Own} (hd : k.Reached cfg d) :
    WriteSetOk (fun _ _ => True) d.base := by
  refine hd.invariant (fun d => WriteSetOk (fun _ _ => True) d.base) writeSetOk_init ?_
  rintro d (⟨apply, req⟩ | req | inputs) d' h hcall
  · obtain ⟨⟨accepted, req', t⟩, hsend, rfl⟩ := except_map_eq_ok.mp hcall
    exact h.send (fun _ => trivial) hsend
  · obtain ⟨⟨accepted, t⟩, hsend, rfl⟩ := except_map_eq_ok.mp hcall
    exact writeSetOk_keptBySend d.base req accepted t trivial h hsend
  · exact writeSetOk_kindTick k h hcall

/-! ## What `send` does with it -/

/-- The request went the given way when it was sent in `s`. -/
def Took (route : Route) (req : Request Command K) (s s' : ControllerBase K) : Prop :=
  ∃ evs, s'.log = s.log ++ .accepted s.nextUid req.typeId req.addr route :: evs

theorem not_took_self (route : Route) (req : Request Command K) (s : ControllerBase K) :
    ¬ Took route req s s := by
  rintro ⟨evs, h⟩
  simpa using congrArg List.length h

/-- A request goes one way. -/
theorem took_iff {route route' : Route} {req : Request Command K} {evs : List Event}
    (h : s'.log = s.log ++ .accepted s.nextUid req.typeId req.addr route' :: evs) :
    Took route req s s' ↔ route' = route := by
  constructor
  · rintro ⟨evs', h'⟩
    rw [h, List.append_cancel_left_eq, List.cons.injEq] at h'
    exact (Event.accepted.inj h'.1).2.2.2
  · rintro rfl
    exact ⟨evs, h⟩

/-- The way of a request: forwarded or coalesced if its address is in the set. -/
theorem send_took {apply : Request Command K → AddrVec} {req req' : Request Command K}
    {accepted : Bool} (hsend : s.send cfg apply req = .ok (accepted, req', s')) :
    (Took .forwarded req s s' ↔ req.typeId = Request.read ∧ req.addr ∈ s.bufferedWriteAddrs) ∧
      (Took .coalesced req s s' ↔ req.typeId = Request.write ∧ req.addr ∈ s.bufferedWriteAddrs) := by
  have hne : Request.read ≠ Request.write := by decide
  rcases send_cases hsend with
    ⟨ht, hmem, heq⟩ | ⟨ht, hmem, -, heq⟩ | ⟨ht, hmem, heq⟩ | ⟨ht, hmem, -, heq⟩ | ⟨hmem, heq⟩
  all_goals
    obtain rfl := congrArg (fun r => r.2.2) heq
  · have hlog : ((s.forward (mapped cfg apply req)).2.2).log =
        s.log ++ .accepted s.nextUid req.typeId req.addr .forwarded ::
          [.departureScheduled s.nextUid (s.clk + 1)] := by
      rw [forward_eq]
      rfl
    rw [took_iff hlog, took_iff hlog]
    simp [ht, hmem, hne]
  · have hlog : (s.enqueueRead ((mapped cfg apply req).arrivedAt s.clk)).log =
        s.log ++ .accepted s.nextUid req.typeId req.addr .buffered :: [] := rfl
    rw [took_iff hlog, took_iff hlog]
    simp [hmem]
  · have hlog : ((s.coalesce ((mapped cfg apply req).arrivedAt s.clk)).2.2).log =
        s.log ++ .accepted s.nextUid req.typeId req.addr .coalesced ::
          [.departureScheduled s.nextUid s.clk,
            .completedWrite s.nextUid s.clk req.callback.isSome] := by
      rw [coalesce_eq]
      rfl
    rw [took_iff hlog, took_iff hlog]
    simp [ht, hmem, hne.symm]
  · have hlog : (s.enqueueWrite ((mapped cfg apply req).arrivedAt s.clk)).log =
        s.log ++ .accepted s.nextUid req.typeId req.addr .buffered :: [] := rfl
    rw [took_iff hlog, took_iff hlog]
    simp [hmem]
  · simp [not_took_self, hmem]

/-- The write-forwarding set is the set of the addresses in the write buffer, which are pairwise
distinct; so a read is forwarded, and a write coalesced, exactly when a write to its address is waiting
there. -/
theorem write_forwarding_exact {k : ControllerKind} {d : Derived K k.Own} (hd : k.Reached cfg d) :
    d.base.bufferedWriteAddrs = (d.base.write.map (·.addr)).toFinset ∧
      (d.base.write.map (·.addr)).Nodup ∧
      ∀ (apply : Request Command K → AddrVec) (req req' : Request Command K) (accepted : Bool)
        (s' : ControllerBase K), d.base.send cfg apply req = .ok (accepted, req', s') →
        (Took .forwarded req d.base s' ↔
          req.typeId = Request.read ∧ ∃ w ∈ d.base.write, w.addr = req.addr) ∧
        (Took .coalesced req d.base s' ↔
          req.typeId = Request.write ∧ ∃ w ∈ d.base.write, w.addr = req.addr) := by
  have hok := writeSetOk_of_reached hd
  refine ⟨hok.exact, hok.distinct, fun apply req req' accepted s' hsend => ?_⟩
  obtain ⟨hfwd, hcoal⟩ := send_took hsend
  rw [hfwd, hcoal, hok.mem_iff]
  exact ⟨Iff.rfl, Iff.rfl⟩

/-- A read behind a buffered write to its address is forwarded. -/
theorem write_forwarding_exact_small :
    ∃ (d : Derived Unit ControllerKind.genericDDR.Own) (s' : ControllerBase Unit),
      ControllerKind.genericDDR.Reached smallConfig d ∧ d.base.write.map (·.addr) = [64] ∧
        Took .forwarded (Request.ofAddr 64 Request.read) d.base s' := by
  let write : ControllerKind.genericDDR.Call Unit :=
    .send (fun _ => smallRow) (Request.ofAddr 64 Request.write)
  obtain ⟨d, hcall, haddrs⟩ : ∃ d, ControllerKind.genericDDR.call smallConfig write
      (ControllerKind.genericDDR.init smallConfig) = .ok d ∧ d.base.write.map (·.addr) = [64] :=
    ⟨_, rfl, rfl⟩
  have hd : ControllerKind.genericDDR.Reached smallConfig d := .step write .start hcall
  obtain ⟨w, hw, hwaddr⟩ : ∃ w ∈ d.base.write, w.addr = 64 := by
    rw [← List.mem_map, haddrs]
    exact List.mem_singleton_self 64
  have hexact := (write_forwarding_exact hd).2.2 (fun _ => smallRow)
    (Request.ofAddr 64 Request.read) _ _ _ rfl
  exact ⟨d, _, hd, haddrs, hexact.1.mpr ⟨rfl, w, hw, hwaddr⟩⟩

end Ramulator.Controller
