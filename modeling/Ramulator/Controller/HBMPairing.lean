/-
# Ramulator.Controller.HBMPairing — the clock edges of HBM3 and HBM4.

HBM34 issues column commands on rising edges only and precharges on falling ones, and a precharge at the
pairing edge of a row command must not meet that command's pseudo-channel in certain ways. The controller
remembers one row command. That is enough: an `ACT` keeps the row bus busy up to its pairing edge, so that
no other row command of a rising edge comes in between, and the pairing edge of every other command is the
next tick.

The rules speak of pseudo-channels, and an address may leave its pseudo-channel open. `slot_matches` counts
such an address to every pseudo-channel; `can_issue_falling_edge_pre` does not.
-/
import Ramulator.Controller.Issues
import Ramulator.Controller.Legality
import Ramulator.Dram.Occupancy

namespace Ramulator.Controller

open Ramulator.Base (Request)
open Ramulator.Dram Ramulator.Lib

variable {K : Type} {cfg : Config} {h : HBM34Config}

/-! ## The rules -/

/-- What the specifications of HBM3 and HBM4 fix: the bus of every command, the place of the
pseudo-channel among the levels, and that an `ACT` occupies the row bus for one and a half cycles, which
are three ticks. -/
structure IsHBM34 (cfg : Config) (h : HBM34Config) : Prop where
  rowCommand : ∀ c, h.isRowCommand c = true ↔
    c ∈ [Command.ACT, .PREpb, .PREab, .REFab, .REFpb, .RFMab, .RFMpb]
  columnCommand : ∀ c, h.isColumnCommand c = true ↔ c ∈ columnCommands
  levelPc_pos : 0 < h.levelPc
  levelPc_le : h.levelPc ≤ cfg.spec.bankLevel
  bankLevel_lt : cfg.spec.bankLevel < cfg.spec.levelSizes.length
  rowBus : ∀ c, h.isRowCommand c = true → ∃ k ∈ cfg.spec.timingCons 0 .ACT,
    k.cmd = c ∧ k.val = 3 ∧ k.window = 1 ∧ k.sibling = false ∧ k.historyGroup = none

/-- Two coordinates at the level of the pseudo-channels have one in common. -/
def SamePc (pc pc' : Int) : Prop := pc = pc' ∨ pc < 0 ∨ pc' < 0

/-- Two addresses name the same bank of a pseudo-channel. -/
def SameBank (h : HBM34Config) (a a' : AddrVec) : Prop :=
  a.coord h.levelSid = a'.coord h.levelSid ∧ a.coord h.levelBg = a'.coord h.levelBg ∧
    a.coord h.levelBank = a'.coord h.levelBank

/-- The falling edge at which the pairing rules of a row command apply. -/
def pairingEdge (r : Issue Command) : Int := r.clk + if r.cmd = .ACT then 3 else 1

/-- The edge and pairing rules, over everything that has been issued. -/
structure EdgeRules (h : HBM34Config) (H : List (Issue Command)) : Prop where
  column : ∀ e ∈ H, h.isColumnCommand e.cmd = true → e.clk % 2 = 1
  falling : ∀ e ∈ H, e.clk % 2 = 0 → e.cmd = .PREpb ∨ e.cmd = .PREab
  allBank : ∀ e ∈ H, ∀ r ∈ H, h.isColumnCommand e.cmd = true → isAllBankRowCommand r.cmd = true →
    r.clk = e.clk → ¬SamePc (r.addr.coord h.levelPc) (e.addr.coord h.levelPc)
  pairing : ∀ r ∈ H, ∀ p ∈ H, h.isRowCommand r.cmd = true → r.clk % 2 = 1 →
    p.cmd = .PREpb ∨ p.cmd = .PREab → p.clk = pairingEdge r →
    SamePc (r.addr.coord h.levelPc) (p.addr.coord h.levelPc) →
    p.cmd = .PREpb ∧ ¬SameBank h p.addr r.addr ∧ isAllBankRowCommand r.cmd = false

/-- An address on the controller's channel that names its pseudo-channel. -/
def NamesPc (cfg : Config) (h : HBM34Config) (a : AddrVec) : Prop :=
  a.coord 0 = cfg.channelId ∧ 0 ≤ a.coord h.levelPc

/-- Every request that a call brings has an address satisfying `ok`. -/
def BringsOnly (cfg : Config) (ok : AddrVec → Prop) :
    (ControllerKind.hbm34 h).Call K → Prop
  | .send apply req => ok ((apply req).set 0 cfg.channelId)
  | .prioritySend req => ok req.addrVec
  | .tick inputs =>
      ∀ r ∈ inputs.refresh ++ inputs.preSchedule ++ inputs.onIssue ++ inputs.onRowIssue ++
        inputs.postSchedule, ok r.addrVec

/-! ## One slot of a tick -/

namespace ControllerBase

variable {s s' : ControllerBase K} {ok : AddrVec → Prop} {fits : Command → AddrVec → Bool}

/-- What one slot of a tick does. -/
structure SlotStep (cfg : Config) (ok : AddrVec → Prop) (fits : Command → AddrVec → Bool)
    (s s' : ControllerBase K) (issued : Option IssuedCommand) : Prop where
  grown : Grown s s' (issued.toList.map fun c => ⟨c.command, c.addrVec, s.clk⟩)
  addrs : AllAddrs ok s'
  quiet : issued = none → s'.device = s.device
  device : ∀ c, issued = some c →
    s'.device = s.device.issueCommand cfg.spec c.command c.addrVec s.clk
  timing : ∀ c, issued = some c → s.device.checkTiming c.command c.addrVec s.clk = true
  fits : ∀ c, issued = some c → fits c.command c.addrVec = true
  ok : ∀ c, issued = some c → ok c.addrVec
  clk : ∀ c, issued = some c → c.clk = s.clk

theorem SlotStep.of_resolved (hs : AllAddrs ok s) (hres : Resolved s s') :
    SlotStep cfg ok fits s s' none where
  grown := hres.grown
  addrs := hs.resolved hres
  quiet := fun _ => by rw [hres.rest]
  device := nofun
  timing := nofun
  fits := nofun
  ok := nofun
  clk := nofun

/-- What the row policy makes of a request on a bus still fits the bus and its timing. -/
theorem upgradeOnSlot_spec {f : Entry K → Bool} (hf : ∀ e : Entry K, f e = fits e.cmd e.addrVec)
    {b : Buf} {i : Nat} {e : Entry K} (hchosen : Chosen cfg s b i e) (hfits : f e = true) :
    (s.upgradeOnSlot cfg f e).uid = e.uid ∧ (s.upgradeOnSlot cfg f e).addrVec = e.addrVec ∧
      fits (s.upgradeOnSlot cfg f e).cmd e.addrVec = true ∧
      s.device.checkTiming (s.upgradeOnSlot cfg f e).cmd e.addrVec s.clk = true := by
  have hkeep : fits e.cmd e.addrVec = true := (hf e).symm.trans hfits
  unfold upgradeOnSlot
  rcases tryUpgradeCommand_cases cfg s e with heq | ⟨ap, -, htiming, heq⟩
  · rw [heq]
    dsimp only
    rw [if_neg (fun hne => hne.1 rfl)]
    exact ⟨rfl, rfl, hkeep, hchosen.timing⟩
  · rw [heq]
    dsimp only
    split_ifs with hback
    · exact ⟨rfl, rfl, hkeep, hchosen.timing⟩
    · refine ⟨rfl, rfl, ?_, htiming⟩
      show fits ap e.addrVec = true
      -- an upgrade that stays fits, or is no change of the command
      by_cases hap : ap = e.cmd
      · rw [hap]
        exact hkeep
      · by_contra hno
        exact hback ⟨hap, (hf _).trans (Bool.eq_false_of_not_eq_true hno)⟩

/-- The request as its command is issued on a bus. -/
def onSlot (cfg : Config) (f : Entry K → Bool) (s : ControllerBase K) (e : Entry K) : Entry K :=
  { s.upgradeOnSlot cfg f e with isStatUpdated := true }

/-- Serving a request on a bus: its command is issued, the plugins see it, and the request advances. -/
theorem serveOnSlot_eq_ok {f : Entry K → Bool} {onIssue : List (Request Command K)} {b : Buf} {i : Nat}
    {e : Entry K} {c : IssuedCommand} (hi : (s.bufs b)[i]? = some e)
    (huid : (s.onSlot cfg f e).uid = e.uid) (haddr : (s.onSlot cfg f e).addrVec = e.addrVec)
    (h : s.serveOnSlot cfg f onIssue b i e = .ok (s', c)) :
    ∃ stats p t, (s.issued cfg b i (s.onSlot cfg f e) stats p).prioritySendAll cfg onIssue = .ok t ∧
      s' = t.advance cfg b i (s.onSlot cfg f e) ∧
      c = ⟨(s.onSlot cfg f e).cmd, (s.onSlot cfg f e).addrVec, t.clk⟩ := by
  obtain ⟨stats, -, hcount⟩ := count_eq cfg b i (s.upgradeOnSlot cfg f e) s
  unfold serveOnSlot at h
  rw [hcount] at h
  obtain ⟨t, ht, heq⟩ := except_bind_eq_ok.mp h
  obtain ⟨p, hp⟩ := issueAndNotify_eq_ok hi huid haddr ht
  obtain ⟨rfl, rfl⟩ := Prod.mk.inj (Except.ok.inj heq)
  exact ⟨stats, p, t, hp, rfl, rfl⟩

/-- What one slot of a tick can do: nothing, or issue the command of a candidate that fits. -/
theorem tryIssueSlot_cases {f : Entry K → Bool} (hf : ∀ e : Entry K, f e = fits e.cmd e.addrVec)
    {slot : SlotType} {onIssue : List (Request Command K)} {issued : Option IssuedCommand}
    (h : s.tryIssueSlot cfg f slot onIssue = .ok (s', issued)) :
    (issued = none ∧ Resolved s s') ∨
      ∃ t b i e stats p u, Resolved s t ∧ Candidate cfg t b i e ∧ f e = true ∧
        (t.issued cfg b i (t.onSlot cfg f e) stats p).prioritySendAll cfg onIssue = .ok u ∧
        s' = u.advance cfg b i (t.onSlot cfg f e) ∧
        issued = some ⟨(t.onSlot cfg f e).cmd, (t.onSlot cfg f e).addrVec, u.clk⟩ := by
  unfold tryIssueSlot at h
  obtain ⟨hres, hpick⟩ :=
    scheduleWith_found cfg (if slot = .columnBus then some f else none) f f s
  rcases hfound : s.scheduleWith cfg (if slot = .columnBus then some f else none) f f with
    ⟨t, - | ⟨b, i⟩⟩
  all_goals
    rw [hfound] at hres hpick h
    dsimp only at h hres
  · cases h
    exact .inl ⟨rfl, hres⟩
  · obtain ⟨e, hcand, hfit⟩ := hpick b i rfl
    have hfits : f e = true := by
      cases b with
      | active =>
          have hany : (if slot = .columnBus then some f else none).any (· e) = true := hfit
          split_ifs at hany
          · exact hany
          · cases hany
      | _ => exact hfit
    obtain ⟨huid, haddr, -⟩ := upgradeOnSlot_spec hf hcand.toChosen hfits
    have hi : (t.bufs b)[i]? = some e := hcand.getElem
    rw [hi] at h
    obtain ⟨⟨u, c⟩, hserve, heq⟩ := except_map_eq_ok.mp h
    cases heq
    obtain ⟨stats, p, v, hp, rfl, rfl⟩ := serveOnSlot_eq_ok hi huid haddr hserve
    exact .inr ⟨t, b, i, e, stats, p, v, hres, hcand, hfits, hp, rfl, rfl⟩

theorem slotStep_tryIssueSlot {f : Entry K → Bool} (hf : ∀ e : Entry K, f e = fits e.cmd e.addrVec)
    {slot : SlotType} {onIssue : List (Request Command K)} {issued : Option IssuedCommand}
    (hs : AllAddrs ok s) (honIssue : ∀ r ∈ onIssue, ok r.addrVec)
    (h : s.tryIssueSlot cfg f slot onIssue = .ok (s', issued)) :
    SlotStep cfg ok fits s s' issued := by
  rcases tryIssueSlot_cases hf h with
    ⟨rfl, hres⟩ | ⟨t, b, i, e, stats, p, v, hres, hcand, hfits, hp, rfl, rfl⟩
  · exact .of_resolved hs hres
  · obtain ⟨-, haddr, hfits', htiming⟩ := upgradeOnSlot_spec hf hcand.toChosen hfits
    have hi : (t.bufs b)[i]? = some e := hcand.getElem
    have hsent := onlyEnqueued_prioritySendAll hp
    have hdev : t.device = s.device := by rw [hres.rest]
    have hclk : t.clk = s.clk := by rw [hres.rest]
    have haddr' : (t.onSlot cfg f e).addrVec = e.addrVec := haddr
    have hok : ok (t.onSlot cfg f e).addrVec := by
      rw [haddr']
      exact hs.resolved hres b e (List.mem_of_getElem? hi)
    have haddrs : AllAddrs ok v :=
      prioritySendAll_preserves allAddrs_keptBySend honIssue
        ((hs.resolved hres).issued hi haddr') hp
    have hgrown := ((hres.grown.trans (grown_issued cfg b i (t.onSlot cfg f e) stats p t)).trans
      (grown_prioritySendAll hp)).trans (grown_advance cfg b i (t.onSlot cfg f e) v)
    refine ⟨?_, haddrs.advance hok, nofun, ?_, ?_, ?_, ?_, ?_⟩
    · rw [hclk] at hgrown
      exact hgrown
    all_goals
      rintro c ⟨rfl⟩
      dsimp only
    · rw [advance_device, hsent.device, ← hdev, ← hclk]
      rfl
    · rw [← hdev, ← hclk, haddr']
      exact htiming
    · rw [haddr']
      exact hfits'
    · exact hok
    · exact hsent.clk.trans hclk

end ControllerBase

/-! ## What the buses let pass -/

/-- A request as far as a bus looks at it. -/
def probe (K : Type) (c : Command) (a : AddrVec) : Entry K :=
  { command := some c, addrVec := a, uid := 0 }

namespace HBM34Config

variable {clk : Int} {own : HBM34State} {c : Command} {a : AddrVec}

theorem slotMatches34_probe (slot : SlotType) (e : Entry K) :
    h.slotMatches34 cfg clk own slot e = h.slotMatches34 cfg clk own slot (probe K e.cmd e.addrVec) :=
  rfl

/-- The column bus takes column commands. -/
theorem isColumn_of_columnBus (hrising : isRisingEdge clk = true)
    (hfits : h.slotMatches34 cfg clk own .columnBus (probe K c a) = true) :
    h.isColumnCommand c = true := by
  unfold slotMatches34 at hfits
  dsimp only at hfits
  rw [if_pos hrising, if_neg (by simp)] at hfits
  exact hfits

/-- On a rising edge the row bus takes row commands, but no all-bank command beside a column command of
its pseudo-channel. -/
theorem of_rowBus_rising (hrising : isRisingEdge clk = true)
    (hfits : h.slotMatches34 cfg clk own .rowBus (probe K c a) = true) :
    h.isRowCommand c = true ∧ (0 ≤ own.risingColumnPc → isAllBankRowCommand c = true →
      ¬(a.coord h.levelPc < 0 ∨ a.coord h.levelPc = own.risingColumnPc)) := by
  unfold slotMatches34 at hfits
  dsimp only at hfits
  rw [if_pos hrising] at hfits
  split_ifs at hfits with hbeside
  exact ⟨hfits, fun hcol hall hpc => hbeside ⟨rfl, hcol, hall, hpc⟩⟩

/-- On a falling edge the row bus takes precharges, subject to the command with which they would be
paired. -/
theorem of_rowBus_falling (hfalling : isRisingEdge clk = false)
    (hfits : h.slotMatches34 cfg clk own .rowBus (probe K c a) = true) :
    (c = .PREpb ∨ c = .PREab) ∧ (clk = own.risingEdgeCmdInfo.nextPairingFallingEdge →
      own.risingEdgeCmdInfo.pc = a.coord h.levelPc →
      c = .PREpb ∧ h.bankKey cfg a ≠ own.risingEdgeCmdInfo.bankKey ∧
        own.risingEdgeCmdInfo.command.any isAllBankRowCommand = false) := by
  unfold slotMatches34 at hfits
  dsimp only at hfits
  rw [if_neg (by simp [hfalling]), if_neg (by simp)] at hfits
  split_ifs at hfits with hpre
  refine ⟨by by_contra hno; exact hpre (not_or.mp hno), fun hclk hpc => ?_⟩
  unfold canIssueFallingEdgePre at hfits
  have hpc' : own.risingEdgeCmdInfo.pc = (probe K c a).addrVec.coord h.levelPc := hpc
  rw [if_neg (not_not.mpr hclk), if_neg (not_not.mpr hpc')] at hfits
  split_ifs at hfits with hall
  rw [Bool.and_eq_true, decide_eq_true_eq, bne_iff_ne] at hfits
  exact ⟨hfits.1, hfits.2, Bool.eq_false_of_not_eq_true hall⟩

/-- One bank has one key. -/
theorem bankKey_of_sameBank {a a' : AddrVec} (hsame : SameBank h a a') :
    h.bankKey cfg a = h.bankKey cfg a' := by
  unfold bankKey
  rw [hsame.1, hsame.2.1, hsame.2.2]

end HBM34Config

theorem isRisingEdge_iff {clk : Int} : isRisingEdge clk = true ↔ clk % 2 = 1 := by
  unfold isRisingEdge
  rw [beq_iff_eq]

/-! ## The tick -/

/-- The fields of HBM34 after a tick that issues `col` and `row`. -/
def ownAfter (cfg : Config) (h : HBM34Config) (clk : Int) (own : HBM34State)
    (col row : Option IssuedCommand) : HBM34State where
  risingColumnPc := (col.map fun c => c.addrVec.coord h.levelPc).getD (-1)
  risingEdgeCmdInfo :=
    match row with
    | some c => if isRisingEdge clk then h.recordRisingRow cfg c else own.risingEdgeCmdInfo
    | none => own.risingEdgeCmdInfo

/-- The two slots of a tick, from `s₁` after the hooks over `s₂` to `s₃`. -/
structure TickSlots (cfg : Config) (h : HBM34Config) (ok : AddrVec → Prop) (own : HBM34State)
    (s₁ s₂ s₃ : ControllerBase K) (col row : Option IssuedCommand) : Prop where
  rising : isRisingEdge s₁.clk = false → col = none
  colStep : ControllerBase.SlotStep cfg ok (fun c a => h.slotMatches34 cfg s₁.clk
    { own with risingColumnPc := -1 } .columnBus (probe K c a)) s₁ s₂ col
  rowStep : ControllerBase.SlotStep cfg ok (fun c a => h.slotMatches34 cfg s₁.clk
    (ownAfter cfg h s₁.clk own col none) .rowBus (probe K c a)) s₂ s₃ row

/-- The shape of a tick: the hooks, the column slot on a rising edge, and the row slot. -/
theorem hbm34Tick_slots {ok : AddrVec → Prop} {inputs : SlotInputs K} {d d' : Derived K HBM34State}
    (hs : ControllerBase.AllAddrs ok d.base)
    (hpolicy : ∀ i, ok (bankAddr cfg.spec d.base.device.channelId i))
    (hin : ∀ r ∈ inputs.refresh ++ inputs.preSchedule ++ inputs.onIssue ++ inputs.onRowIssue ++
      inputs.postSchedule, ok r.addrVec)
    (htick : hbm34Tick cfg h inputs d = .ok d') :
    ∃ (s₁ s₂ s₃ : ControllerBase K) (col row : Option IssuedCommand),
      d.base.preTick cfg inputs.toTickInputs = .ok s₁ ∧
      TickSlots cfg h ok d.own s₁ s₂ s₃ col row ∧ ControllerBase.OnlyEnqueued s₃ d'.base ∧
      ControllerBase.AllAddrs ok d'.base ∧ d'.own = ownAfter cfg h s₁.clk d.own col row := by
  simp only [List.mem_append, or_assoc] at hin
  obtain ⟨s₁, hpre, htick⟩ := except_bind_eq_ok.mp htick
  obtain ⟨⟨s₂, own₂⟩, hcol, htick⟩ := except_bind_eq_ok.mp htick
  obtain ⟨⟨s₃, own₃⟩, hrow, htick⟩ := except_bind_eq_ok.mp htick
  obtain ⟨s₄, hpost, htick⟩ := except_bind_eq_ok.mp htick
  cases htick
  have h₁ : ControllerBase.AllAddrs ok s₁ := hs.preTick hpolicy
    (fun r hr => hin r (by rcases List.mem_append.mp hr with hr | hr <;> tauto)) hpre
  obtain ⟨col, hnone, hcolStep, hown₂⟩ : ∃ col : Option IssuedCommand,
      (isRisingEdge s₁.clk = false → col = none) ∧
      ControllerBase.SlotStep cfg ok (fun c a => h.slotMatches34 cfg s₁.clk
        { d.own with risingColumnPc := -1 } .columnBus (probe K c a)) s₁ s₂ col ∧
      own₂ = ownAfter cfg h s₁.clk d.own col none := by
    unfold HBM34Config.columnSlot at hcol
    dsimp only at hcol
    split_ifs at hcol with hrising
    · obtain ⟨⟨t, col⟩, ht, heq⟩ := except_map_eq_ok.mp hcol
      cases heq
      refine ⟨col, fun hno => (by rw [hrising] at hno; cases hno), ?_, rfl⟩
      exact ControllerBase.slotStep_tryIssueSlot
        (fun e => HBM34Config.slotMatches34_probe .columnBus e) h₁ (fun r hr => hin r (by tauto)) ht
    · cases hcol
      exact ⟨none, fun _ => rfl, .of_resolved h₁ (.refl s₁), rfl⟩
  subst hown₂
  have hclk₂ : s₂.clk = s₁.clk := hcolStep.grown.clk
  unfold HBM34Config.rowSlot at hrow
  obtain ⟨⟨t, row⟩, ht, heq⟩ := except_map_eq_ok.mp hrow
  have hrowStep : ControllerBase.SlotStep cfg ok (fun c a => h.slotMatches34 cfg s₂.clk
      (ownAfter cfg h s₁.clk d.own col none) .rowBus (probe K c a)) s₂ t row :=
    ControllerBase.slotStep_tryIssueSlot (fun e => HBM34Config.slotMatches34_probe .rowBus e)
      hcolStep.addrs (fun r hr => hin r (by tauto)) ht
  dsimp only at heq
  rw [hclk₂] at hrowStep heq
  obtain ⟨rfl, rfl⟩ : t = s₃ ∧ own₃ = ownAfter cfg h s₁.clk d.own col row := by
    cases row with
    | none =>
        cases heq
        exact ⟨rfl, rfl⟩
    | some c =>
        dsimp only at heq
        split_ifs at heq with hrising
        all_goals
          cases heq
          refine ⟨rfl, ?_⟩
          unfold ownAfter
          simp [hrising]
  refine ⟨s₁, s₂, t, col, row, hpre, ⟨hnone, hcolStep, hrowStep⟩,
    ControllerBase.onlyEnqueued_prioritySendAll hpost, ?_, rfl⟩
  exact ControllerBase.prioritySendAll_preserves ControllerBase.allAddrs_keptBySend
    (fun r hr => hin r (by tauto)) hrowStep.addrs hpost

/-! ## The rules over a whole run -/

/-- The commands of one tick, at a clock after all others, join a history that keeps the rules. The
pairing rules only have to be looked at for earlier row commands. -/
theorem EdgeRules.append {H N : List (Issue Command)} {n : Int} (hH : EdgeRules h H)
    (hpast : ∀ r ∈ H, r.clk < n) (hnew : ∀ e ∈ N, e.clk = n)
    (hcolumn : ∀ e ∈ N, h.isColumnCommand e.cmd = true → n % 2 = 1)
    (hfalling : ∀ e ∈ N, n % 2 = 0 → e.cmd = .PREpb ∨ e.cmd = .PREab)
    (hallBank : ∀ e ∈ N, ∀ r ∈ N, h.isColumnCommand e.cmd = true → isAllBankRowCommand r.cmd = true →
      ¬SamePc (r.addr.coord h.levelPc) (e.addr.coord h.levelPc))
    (hpairing : ∀ r ∈ H, ∀ p ∈ N, h.isRowCommand r.cmd = true → r.clk % 2 = 1 →
      n = pairingEdge r → SamePc (r.addr.coord h.levelPc) (p.addr.coord h.levelPc) →
      p.cmd = .PREpb ∧ ¬SameBank h p.addr r.addr ∧ isAllBankRowCommand r.cmd = false) :
    EdgeRules h (H ++ N) := by
  have hlater : ∀ r ∈ N, n < pairingEdge r := by
    intro r hr
    have hclk := hnew r hr
    unfold pairingEdge
    split_ifs <;> omega
  refine ⟨fun e he hcol => ?_, fun e he heven => ?_, fun e he r hr hcol hall heq => ?_,
    fun r hr p hp hrow hodd hpre hedge hpc => ?_⟩
  · rcases List.mem_append.mp he with he | he
    · exact hH.column e he hcol
    · rw [hnew e he]
      exact hcolumn e he hcol
  · rcases List.mem_append.mp he with he | he
    · exact hH.falling e he heven
    · exact hfalling e he (by rw [← hnew e he]; exact heven)
  · rcases List.mem_append.mp he with he | he <;> rcases List.mem_append.mp hr with hr | hr
    · exact hH.allBank e he r hr hcol hall heq
    · have h₁ := hpast e he
      have h₂ := hnew r hr
      omega
    · have h₁ := hpast r hr
      have h₂ := hnew e he
      omega
    · exact hallBank e he r hr hcol hall
  · rcases List.mem_append.mp hr with hr | hr <;> rcases List.mem_append.mp hp with hp | hp
    · exact hH.pairing r hr p hp hrow hodd hpre hedge hpc
    · exact hpairing r hr p hp hrow hodd (by rw [← hnew p hp]; exact hedge) hpc
    · have h₁ := hlater r hr
      have h₂ := hpast p hp
      omega
    · have h₁ := hlater r hr
      have h₂ := hnew p hp
      omega

/-- The invariant: addresses name their pseudo-channel, an `ACT` keeps the row bus busy, and a row
command whose pairing edge is still to come is the one that is remembered. -/
structure PairInv (cfg : Config) (h : HBM34Config) (d : Derived K HBM34State)
    (H : List (Issue Command)) : Prop where
  addrs : ControllerBase.AllAddrs (NamesPc cfg h) d.base
  channel : d.base.device.channelId = cfg.channelId
  root : d.base.device.RootFull cfg.spec
  clk : 0 ≤ d.base.clk
  past : ∀ r ∈ H, r.clk ≤ d.base.clk
  named : ∀ r ∈ H, NamesPc cfg h r.addr
  busy : ∀ r ∈ H, r.cmd = .ACT → ∀ c, h.isRowCommand c = true →
    r.clk + 3 ≤ d.base.device.readyClk c
  remembers : ∀ r ∈ H, h.isRowCommand r.cmd = true → r.clk % 2 = 1 → d.base.clk < pairingEdge r →
    d.own.risingEdgeCmdInfo = h.recordRisingRow cfg ⟨r.cmd, r.addr, r.clk⟩
  rules : EdgeRules h H

variable {d d' : Derived K HBM34State} {H : List (Issue Command)}

theorem pairInv_init : PairInv cfg h ((ControllerKind.hbm34 h).init cfg : Derived K HBM34State) [] where
  addrs := fun _ _ he => absurd he List.not_mem_nil
  channel := by
    show (DRAMDevice.init cfg.spec cfg.channelId).channelId = cfg.channelId
    unfold DRAMDevice.init DRAMDevice.channelId DRAMNode.root
    cases cfg.spec.rowLevel - 1 <;> rfl
  root := DRAMDevice.rootFull_init cfg.spec cfg.channelId
  clk := le_rfl
  past := fun _ hr => absurd hr List.not_mem_nil
  named := fun _ hr => absurd hr List.not_mem_nil
  busy := fun _ hr => absurd hr List.not_mem_nil
  remembers := fun _ hr => absurd hr List.not_mem_nil
  rules := ⟨fun _ hr => absurd hr List.not_mem_nil, fun _ hr => absurd hr List.not_mem_nil,
    fun _ hr => absurd hr List.not_mem_nil, fun _ hr => absurd hr List.not_mem_nil⟩

/-- A call that issues nothing and leaves clock, device and own fields alone. -/
theorem PairInv.frame (hd : PairInv cfg h d H) (haddrs : ControllerBase.AllAddrs (NamesPc cfg h) d'.base)
    (hclk : d'.base.clk = d.base.clk) (hdevice : d'.base.device = d.base.device)
    (hown : d'.own = d.own) : PairInv cfg h d' H := by
  refine ⟨haddrs, ?_, ?_, ?_, ?_, hd.named, ?_, ?_, hd.rules⟩
  · rw [hdevice]
    exact hd.channel
  · rw [hdevice]
    exact hd.root
  · rw [hclk]
    exact hd.clk
  · rw [hclk]
    exact hd.past
  · rw [hdevice]
    exact hd.busy
  · rw [hclk, hown]
    exact hd.remembers

/-- The `PREpb` of a closed-row policy names its pseudo-channel. -/
theorem namesPc_bankAddr (hspec : IsHBM34 cfg h) (i : Nat) :
    NamesPc cfg h (bankAddr cfg.spec cfg.channelId i) := by
  have hpos := hspec.levelPc_pos
  have hle := hspec.levelPc_le
  have hlt := hspec.bankLevel_lt
  have hcoord : ∀ l, l ≤ cfg.spec.bankLevel → (bankAddr cfg.spec cfg.channelId i).coord l =
      if l = 0 then cfg.channelId else ((cfg.spec.bankNodes.getD i []).getD (l - 1) 0 : Int) := by
    intro l hl
    unfold bankAddr AddrVec.coord
    rw [List.getD_eq_getElem?_getD, List.getElem?_map, List.getElem?_range (by omega)]
    show (if l = 0 then _ else if l ≤ cfg.spec.bankLevel then _ else _) = _
    rw [if_pos hl]
  refine ⟨hcoord 0 (Nat.zero_le _), ?_⟩
  rw [hcoord h.levelPc hle, if_neg hpos.ne']
  exact Int.natCast_nonneg _

/-- The device after a slot: the channel lets nothing pass earlier than before. -/
theorem ControllerBase.SlotStep.device_kept {s s' : ControllerBase K} {ok : AddrVec → Prop}
    {fits : Command → AddrVec → Bool} {issued : Option IssuedCommand}
    (hstep : SlotStep cfg ok fits s s' issued) (hroot : s.device.RootFull cfg.spec) :
    s'.device.RootFull cfg.spec ∧ s'.device.channelId = s.device.channelId ∧
      ∀ c, s.device.readyClk c ≤ s'.device.readyClk c := by
  cases issued with
  | none =>
      rw [hstep.quiet rfl]
      exact ⟨hroot, rfl, fun _ => le_rfl⟩
  | some c =>
      rw [hstep.device c rfl]
      exact ⟨(DRAMDevice.rootTiming_issueCommand hroot _ _ _).1, DRAMDevice.channelId_issueCommand ..,
        fun c' => DRAMDevice.readyClk_le_issueCommand hroot _ c' _ _⟩

/-- The history that a tick at clock `n` adds. -/
def tickIssues (n : Int) (col row : Option IssuedCommand) : List (Issue Command) :=
  (col.toList ++ row.toList).map fun c => ⟨c.command, c.addrVec, n⟩

theorem mem_tickIssues {n : Int} {col row : Option IssuedCommand} {e : Issue Command}
    (he : e ∈ tickIssues n col row) :
    ∃ c, e = ⟨c.command, c.addrVec, n⟩ ∧ (col = some c ∨ row = some c) := by
  obtain ⟨c, hc, rfl⟩ := List.mem_map.mp he
  rcases List.mem_append.mp hc with hc | hc
  · exact ⟨c, rfl, .inl (Option.mem_toList.mp hc)⟩
  · exact ⟨c, rfl, .inr (Option.mem_toList.mp hc)⟩

namespace TickSlots

variable {ok : AddrVec → Prop} {own : HBM34State} {s₁ s₂ s₃ : ControllerBase K}
  {col row : Option IssuedCommand} {c : IssuedCommand}

/-- The column slot issues column commands, on rising edges. -/
theorem column (hslots : TickSlots cfg h ok own s₁ s₂ s₃ col row) (hc : col = some c) :
    s₁.clk % 2 = 1 ∧ h.isColumnCommand c.command = true := by
  have hrising : isRisingEdge s₁.clk = true := by
    by_contra hno
    rw [hslots.rising (Bool.eq_false_of_not_eq_true hno)] at hc
    cases hc
  exact ⟨isRisingEdge_iff.mp hrising,
    HBM34Config.isColumn_of_columnBus hrising (hslots.colStep.fits c hc)⟩

/-- The row slot on a falling edge. -/
theorem row_falling (hslots : TickSlots cfg h ok own s₁ s₂ s₃ col row) (hc : row = some c)
    (heven : s₁.clk % 2 = 0) :
    (c.command = .PREpb ∨ c.command = .PREab) ∧
      (s₁.clk = own.risingEdgeCmdInfo.nextPairingFallingEdge →
        own.risingEdgeCmdInfo.pc = c.addrVec.coord h.levelPc →
        c.command = .PREpb ∧ h.bankKey cfg c.addrVec ≠ own.risingEdgeCmdInfo.bankKey ∧
          own.risingEdgeCmdInfo.command.any isAllBankRowCommand = false) := by
  have hfalling : isRisingEdge s₁.clk = false := by
    unfold isRisingEdge
    rw [heven]
    rfl
  have hfits := HBM34Config.of_rowBus_falling hfalling (hslots.rowStep.fits c hc)
  exact hfits

/-- The row slot issues row commands. -/
theorem isRow (hspec : IsHBM34 cfg h) (hslots : TickSlots cfg h ok own s₁ s₂ s₃ col row)
    (hc : row = some c) : h.isRowCommand c.command = true := by
  rcases Int.emod_two_eq s₁.clk with heven | hodd
  · rw [hspec.rowCommand]
    rcases (hslots.row_falling hc heven).1 with hpre | hpre <;> rw [hpre] <;> decide
  · exact (HBM34Config.of_rowBus_rising (isRisingEdge_iff.mpr hodd) (hslots.rowStep.fits c hc)).1

end TickSlots

/-- Row commands are not column commands. -/
theorem IsHBM34.not_column (hspec : IsHBM34 cfg h) {c : Command} (hrow : h.isRowCommand c = true) :
    h.isColumnCommand c = false := by
  refine Bool.eq_false_of_not_eq_true fun hcol => ?_
  rw [hspec.rowCommand] at hrow
  rw [hspec.columnCommand] at hcol
  cases c <;> revert hrow hcol <;> decide

theorem IsHBM34.isRow_of_isAllBank (hspec : IsHBM34 cfg h) {c : Command}
    (hall : isAllBankRowCommand c = true) : h.isRowCommand c = true := by
  rw [hspec.rowCommand]
  revert hall
  cases c <;> decide

section Tick

variable {s₁ s₂ s₃ : ControllerBase K} {col row : Option IssuedCommand}

/-- What a tick issues keeps the rules. -/
theorem PairInv.tick_rules (hspec : IsHBM34 cfg h) (hd : PairInv cfg h d H)
    (hclk : s₁.clk = d.base.clk + 1)
    (hslots : TickSlots cfg h (NamesPc cfg h) d.own s₁ s₂ s₃ col row) :
    EdgeRules h (H ++ tickIssues s₁.clk col row) := by
  have hrowOnly : ∀ c, row = some c → h.isColumnCommand c.command = false := fun c hc =>
    hspec.not_column (hslots.isRow hspec hc)
  refine hd.rules.append (n := s₁.clk) (fun r hr => ?_) (fun e he => ?_) (fun e he hcol => ?_)
    (fun e he heven => ?_) (fun e he r hr hcol hall hpc => ?_) (fun r hr p hp hrow hodd hedge hpc => ?_)
  · have hpast := hd.past r hr
    omega
  · obtain ⟨c, rfl, -⟩ := mem_tickIssues he
    rfl
  · obtain ⟨c, rfl, hc | hc⟩ := mem_tickIssues he
    · exact (hslots.column hc).1
    · rw [hrowOnly c hc] at hcol
      cases hcol
  · obtain ⟨c, rfl, hc | hc⟩ := mem_tickIssues he
    · have hodd := (hslots.column hc).1
      omega
    · exact (hslots.row_falling hc heven).1
  · -- the column command is from the column slot, the all-bank command from the row slot
    obtain ⟨c, rfl, hc | hc⟩ := mem_tickIssues he
    · obtain ⟨c', rfl, hc' | hc'⟩ := mem_tickIssues hr
      · have hno := hspec.not_column (hspec.isRow_of_isAllBank hall)
        rw [(hslots.column hc').2] at hno
        cases hno
      · have hnamed : 0 ≤ c.addrVec.coord h.levelPc := (hslots.colStep.ok c hc).2
        have hpcOf : (ownAfter cfg h s₁.clk d.own col none).risingColumnPc =
            c.addrVec.coord h.levelPc := by
          unfold ownAfter
          rw [hc]
          rfl
        have hbeside := (HBM34Config.of_rowBus_rising (isRisingEdge_iff.mpr (hslots.column hc).1)
          (hslots.rowStep.fits c' hc')).2
        rw [hpcOf] at hbeside
        rcases hpc with heq | hneg | hneg
        · exact hbeside hnamed hall (.inr heq)
        · exact hbeside hnamed hall (.inl hneg)
        · exact absurd hneg (not_lt.mpr hnamed)
    · rw [hrowOnly c hc] at hcol
      cases hcol
  · -- the row command that is remembered is `r`
    have heven : s₁.clk % 2 = 0 := by
      unfold pairingEdge at hedge
      split_ifs at hedge <;> omega
    have hinfo := hd.remembers r hr hrow hodd (by omega)
    obtain ⟨c, rfl, hc | hc⟩ := mem_tickIssues hp
    · have hodd' := (hslots.column hc).1
      omega
    · have hsame : r.addr.coord h.levelPc = c.addrVec.coord h.levelPc := by
        have hr' := (hd.named r hr).2
        have hc' := (hslots.rowStep.ok c hc).2
        rcases hpc with heq | hneg | hneg
        · exact heq
        · omega
        · exact absurd hneg (not_lt.mpr hc')
      have hfalling := (hslots.row_falling hc heven).2
      rw [hinfo] at hfalling
      obtain ⟨hcmd, hkey, hall⟩ := hfalling hedge hsame
      have hall' : isAllBankRowCommand r.cmd = false := hall
      refine ⟨hcmd, fun hbank => hkey ?_, hall'⟩
      rw [HBM34Config.bankKey_of_sameBank hbank]
      show _ = if isAllBankRowCommand r.cmd then -1 else _
      rw [hall']
      rfl

/-- After a tick the row command whose pairing edge is to come is remembered: the tick has issued it, or
no other row command since. -/
theorem PairInv.tick_remembers (hspec : IsHBM34 cfg h) (hd : PairInv cfg h d H)
    (hclk : s₁.clk = d.base.clk + 1) (hdev : s₁.device = d.base.device)
    (hslots : TickSlots cfg h (NamesPc cfg h) d.own s₁ s₂ s₃ col row) {r : Issue Command}
    (hr : r ∈ H ++ tickIssues s₁.clk col row) (hrow : h.isRowCommand r.cmd = true)
    (hodd : r.clk % 2 = 1) (hedge : s₁.clk < pairingEdge r) :
    (ownAfter cfg h s₁.clk d.own col row).risingEdgeCmdInfo =
      h.recordRisingRow cfg ⟨r.cmd, r.addr, r.clk⟩ := by
  rcases List.mem_append.mp hr with hr | hr
  · have hinfo := hd.remembers r hr hrow hodd (by omega)
    unfold ownAfter
    cases hc : row with
    | none => exact hinfo
    | some c =>
        -- another row command on this edge would have to wait for the row bus
        refine (if_neg fun hrising => ?_).trans hinfo
        have hready := DRAMDevice.readyClk_le_of_checkTiming (hslots.rowStep.timing c hc)
          (by rw [hslots.colStep.grown.clk, hclk]; have := hd.clk; omega)
        rw [hslots.colStep.grown.clk] at hready
        have hmono := (hslots.colStep.device_kept (by rw [hdev]; exact hd.root)).2.2 c.command
        rw [hdev] at hmono
        have hpast := hd.past r hr
        unfold pairingEdge at hedge
        split_ifs at hedge with hact
        · have hbusy := hd.busy r hr hact c.command (hslots.isRow hspec hc)
          omega
        · omega
  · obtain ⟨c, rfl, hc | hc⟩ := mem_tickIssues hr
    · have hno : h.isColumnCommand c.command = false := hspec.not_column hrow
      rw [(hslots.column hc).2] at hno
      cases hno
    · unfold ownAfter
      rw [hc]
      show (if isRisingEdge s₁.clk then h.recordRisingRow cfg c else _) = _
      rw [if_pos (isRisingEdge_iff.mpr hodd)]
      have hcclk := (hslots.rowStep.clk c hc).trans hslots.colStep.grown.clk
      unfold HBM34Config.recordRisingRow
      rw [hcclk]

/-- After a tick every `ACT` keeps the row bus busy for three ticks. -/
theorem PairInv.tick_busy (hspec : IsHBM34 cfg h) (hd : PairInv cfg h d H)
    (hclk : s₁.clk = d.base.clk + 1) (hdev : s₁.device = d.base.device)
    (hslots : TickSlots cfg h (NamesPc cfg h) d.own s₁ s₂ s₃ col row) {r : Issue Command}
    (hr : r ∈ H ++ tickIssues s₁.clk col row) (hact : r.cmd = .ACT) {c : Command}
    (hc : h.isRowCommand c = true) : r.clk + 3 ≤ s₃.device.readyClk c := by
  have hroot₁ : s₁.device.RootFull cfg.spec := by
    rw [hdev]
    exact hd.root
  obtain ⟨hroot₂, hchannel₂, hmono₂⟩ := hslots.colStep.device_kept hroot₁
  obtain ⟨-, -, hmono₃⟩ := hslots.rowStep.device_kept hroot₂
  rcases List.mem_append.mp hr with hr | hr
  · have hbusy := hd.busy r hr hact c hc
    rw [← hdev] at hbusy
    exact hbusy.trans ((hmono₂ c).trans (hmono₃ c))
  · obtain ⟨c', rfl, hc' | hc'⟩ := mem_tickIssues hr
    · have hcol := (hslots.column hc').2
      rw [show c'.command = .ACT from hact, hspec.columnCommand] at hcol
      exact absurd hcol (by decide)
    · obtain ⟨k, hk, rfl, hval, hwindow, hsibling, hgroup⟩ := hspec.rowBus c hc
      rw [hslots.rowStep.device c' hc', show c'.command = .ACT from hact, ← hval]
      show s₁.clk + k.val ≤ _
      rw [← hslots.colStep.grown.clk]
      refine DRAMDevice.add_val_le_readyClk hroot₂ ?_ hk hwindow hsibling hgroup ?_
      · rw [(hslots.rowStep.ok c' hc').1, hchannel₂, hdev, hd.channel]
      · have hpos := hd.clk
        rw [hslots.colStep.grown.clk]
        omega

end Tick

theorem PairInv.tick (hspec : IsHBM34 cfg h) (hd : PairInv cfg h d H) {inputs : SlotInputs K}
    (hin : BringsOnly cfg (NamesPc cfg h) (h := h) (.tick inputs : (ControllerKind.hbm34 h).Call K))
    (htick : hbm34Tick cfg h inputs d = .ok d') :
    PairInv cfg h d' (H ++ issuesIn d'.base.clk (d'.base.log.drop d.base.log.length)) := by
  obtain ⟨s₁, s₂, s₃, col, row, hpre, hslots, hpost, haddrs, hown⟩ :=
    hbm34Tick_slots hd.addrs (fun i => by rw [hd.channel]; exact namesPc_bankAddr hspec i) hin htick
  obtain ⟨hclk, hdev, -, -, evs, hlog, hevs⟩ := ControllerBase.preTick_frame hpre
  have hgrown := (hslots.colStep.grown.trans hslots.rowStep.grown).trans
    (ControllerBase.Grown.of_log_eq hpost.clk hpost.log)
  have hissues : issuesIn d'.base.clk (d'.base.log.drop d.base.log.length) =
      tickIssues s₁.clk col row := by
    obtain ⟨evs', hlog', hevs'⟩ := hgrown.log
    rw [hlog', hlog, List.append_assoc, List.drop_left, issuesIn_append,
      issuesIn_of_not_isIssue hevs, hgrown.clk, hevs', hslots.colStep.grown.clk]
    simp [tickIssues]
  have hroot₁ : s₁.device.RootFull cfg.spec := by
    rw [hdev]
    exact hd.root
  obtain ⟨hroot₂, hchannel₂, -⟩ := hslots.colStep.device_kept hroot₁
  obtain ⟨hroot₃, hchannel₃, -⟩ := hslots.rowStep.device_kept hroot₂
  rw [hissues]
  have hclk' : d'.base.clk = s₁.clk := hgrown.clk
  refine ⟨haddrs, ?_, ?_, ?_, fun r hr => ?_, fun r hr => ?_, fun r hr hact c hc => ?_,
    fun r hr hrow hodd hedge => ?_, hd.tick_rules hspec hclk hslots⟩
  · rw [hpost.device, hchannel₃, hchannel₂, hdev, hd.channel]
  · rw [hpost.device]
    exact hroot₃
  · have hpos := hd.clk
    omega
  · rw [hclk']
    rcases List.mem_append.mp hr with hr | hr
    · have hpast := hd.past r hr
      omega
    · obtain ⟨c, rfl, -⟩ := mem_tickIssues hr
      exact le_rfl
  · rcases List.mem_append.mp hr with hr | hr
    · exact hd.named r hr
    · obtain ⟨c, rfl, hc | hc⟩ := mem_tickIssues hr
      · exact hslots.colStep.ok c hc
      · exact hslots.rowStep.ok c hc
  · rw [hpost.device]
    exact hd.tick_busy hspec hclk hdev hslots hr hact hc
  · rw [hown]
    rw [hclk'] at hedge
    exact hd.tick_remembers hspec hclk hdev hslots hr hrow hodd hedge

theorem PairInv.call (hspec : IsHBM34 cfg h) (hd : PairInv cfg h d H)
    {c : (ControllerKind.hbm34 h).Call K} (hin : BringsOnly cfg (NamesPc cfg h) c)
    (hcall : (ControllerKind.hbm34 h).call cfg c d = .ok d') :
    PairInv cfg h d' (H ++ issuesIn d'.base.clk (d'.base.log.drop d.base.log.length)) := by
  cases c with
  | send apply req =>
      obtain ⟨⟨accepted, req', t⟩, hsend, rfl⟩ := except_map_eq_ok.mp hcall
      obtain ⟨hclk, hdev, -, -, -, evs, hlog, hevs⟩ := ControllerBase.send_frame hsend
      dsimp only
      rw [hlog, List.drop_left, issuesIn_of_not_isIssue hevs, List.append_nil]
      exact hd.frame (hd.addrs.send hin hsend) hclk hdev rfl
  | prioritySend req =>
      obtain ⟨⟨accepted, t⟩, hsend, rfl⟩ := except_map_eq_ok.mp hcall
      have hsent := ControllerBase.onlyEnqueued_keptBySend d.base d.base req accepted t trivial
        (.refl _) hsend
      dsimp only
      rw [hsent.log, List.drop_length]
      show PairInv cfg h _ (H ++ [])
      rw [List.append_nil]
      exact hd.frame (ControllerBase.allAddrs_keptBySend d.base req accepted t hin hd.addrs hsend)
        hsent.clk hsent.device rfl
  | tick inputs => exact hd.tick hspec hin hcall

/-- HBM34 keeps the edge and pairing rules in every run whose requests name their pseudo-channel. -/
theorem edge_rules (hspec : IsHBM34 cfg h) (d : Derived K HBM34State) (H : List (Issue Command))
    (hd : (ControllerKind.hbm34 h).Traced cfg (fun _ c => BringsOnly cfg (NamesPc cfg h) c) (d, H)) :
    EdgeRules h H := by
  refine (hd.invariant (fun p => PairInv cfg h p.1 p.2) pairInv_init ?_).rules
  rintro ⟨d, H⟩ c ⟨d', H'⟩ hinv ⟨⟨hin, hcall⟩, hH'⟩
  dsimp only at hcall hH'
  rw [hH']
  exact hinv.call hspec hin hcall

/-! ### Concrete runs -/

/-- The commands of the row bus. -/
def hbmRowCommands : List Command := [.ACT, .PREpb, .PREab, .REFab, .REFpb, .RFMab, .RFMpb]

def smallHBMTimingCons (level : Nat) (c : Command) : List (TimingConsEntry Command) :=
  match level, c with
  | 0, .ACT => hbmRowCommands.map fun c => { cmd := c, val := 3 }
  | 4, .ACT => [{ cmd := .RD, val := 4 }, { cmd := .PREpb, val := 5 }]
  | 4, .PREpb => [{ cmd := .ACT, val := 4 }]
  | _, _ => []

/-- One channel of two pseudo-channels with two banks each. -/
def smallHBM : Standard where
  commands := Command.all
  commands_complete := Command.mem_all
  rowLevel := 5
  levelSizes := [1, 2, 1, 1, 2, 16, 16]
  timingCons := smallHBMTimingCons
  commandCycles := fun c => if c = .ACT then 3 else if c ∈ columnCommands then 2 else 1
  bankLevel := 4
  supports := fun c => c ∈ columnCommands ++ hbmRowCommands
  readLatency := 4
  readCommand := .RD
  writeCommand := .WR

def smallHBMConfig : Config where
  __ := smallConfig
  spec := smallHBM
  rowPolicy := .opened

def smallHBM34 : HBM34Config where
  isColumnCommand := fun c => c ∈ columnCommands
  isRowCommand := fun c => c ∈ hbmRowCommands
  levelPc := 1
  levelSid := 2
  levelBg := 3
  levelBank := 4

theorem isHBM34_small : IsHBM34 smallHBMConfig smallHBM34 where
  rowCommand := fun _ => decide_eq_true_iff
  columnCommand := fun _ => decide_eq_true_iff
  levelPc_pos := Nat.one_pos
  levelPc_le := by decide
  bankLevel_lt := by decide
  rowBus := fun c hc => by
    refine ⟨{ cmd := c, val := 3 }, ?_, rfl, rfl, rfl, rfl, rfl⟩
    exact List.mem_map_of_mem (of_decide_eq_true hc)

/-- A check for the calls of the concrete runs: sends and plain ticks, with addresses that pass `ok`. -/
def bringsOnly (ok : AddrVec → Bool) : (ControllerKind.hbm34 smallHBM34).Call Unit → Bool
  | .send apply req => ok ((apply req).set 0 smallHBMConfig.channelId)
  | .prioritySend req => ok req.addrVec
  | .tick inputs =>
      (inputs.refresh ++ inputs.preSchedule ++ inputs.onIssue ++ inputs.onRowIssue ++
        inputs.postSchedule).all fun r => ok r.addrVec

theorem bringsOnly_sound {q : AddrVec → Bool} {p : AddrVec → Prop} (hok : ∀ a, q a = true → p a)
    (c : (ControllerKind.hbm34 smallHBM34).Call Unit) (hc : bringsOnly q c = true) :
    BringsOnly smallHBMConfig p c := by
  cases c with
  | send apply req => exact hok _ hc
  | prioritySend req => exact hok _ hc
  | tick inputs => exact fun r hr => hok _ (List.all_eq_true.mp hc r hr)

def hbmTick : (ControllerKind.hbm34 smallHBM34).Call Unit := .tick ({} : SlotInputs Unit)

/-- A row of the first pseudo-channel is opened and read, and its bank precharged on the falling edge. -/
theorem edge_rules_small : IsHBM34 smallHBMConfig smallHBM34 ∧
    ∃ (d : Derived Unit HBM34State) (H : List (Issue Command)),
      (ControllerKind.hbm34 smallHBM34).Traced smallHBMConfig
        (fun _ c => BringsOnly smallHBMConfig (NamesPc smallHBMConfig smallHBM34) c) (d, H) ∧
      H.map (fun e => (e.cmd, e.clk)) = [(.ACT, 1), (.RD, 5), (.PREpb, 6)] ∧
      EdgeRules smallHBM34 H := by
  obtain ⟨d, H, htraced, hH⟩ := ControllerKind.traced_of_observe
    (f := fun p => p.2.map fun e => (e.cmd, e.clk))
    (bringsOnly_sound (q := fun a => a.coord 0 = 0 && 0 ≤ a.coord 1)
      (p := NamesPc smallHBMConfig smallHBM34) fun a ha => by
        rw [Bool.and_eq_true, decide_eq_true_eq, decide_eq_true_eq] at ha
        exact ha)
    (show (ControllerKind.hbm34 smallHBM34).observe smallHBMConfig _
        ([.send (fun _ => [0, 0, 0, 0, 0, 3, 0]) (Request.ofAddr 0 0),
          .send (fun _ => [0, 0, 0, 0, 0, 4, 0]) (Request.ofAddr 64 0)] ++ List.replicate 6 hbmTick) _ =
      .ok ([(.ACT, 1), (.RD, 5), (.PREpb, 6)] : List (Command × Int)) from by decide +kernel)
  exact ⟨isHBM34_small, d, H, htraced, hH, edge_rules isHBM34_small d H htraced⟩

/-- A refresh of all pseudo-channels, and a precharge of a bank of the first at its pairing edge: the
comparison of the two pseudo-channels does not see that the refresh is of the first, too. -/
theorem precharge_beside_refresh : IsHBM34 smallHBMConfig smallHBM34 ∧
    ∃ (d : Derived Unit HBM34State) (H : List (Issue Command)),
      (ControllerKind.hbm34 smallHBM34).Traced smallHBMConfig
        (fun _ c => BringsOnly smallHBMConfig (fun a => a.coord 0 = smallHBMConfig.channelId) c) (d, H) ∧
      ¬EdgeRules smallHBM34 H := by
  obtain ⟨d, H, htraced, hH⟩ := ControllerKind.traced_of_observe
    (f := fun p => p.2.map fun e => (e.cmd, e.addr, e.clk))
    (bringsOnly_sound (q := fun a => a.coord 0 = 0)
      (p := fun a => a.coord 0 = smallHBMConfig.channelId) fun a ha => of_decide_eq_true ha)
    (show (ControllerKind.hbm34 smallHBM34).observe smallHBMConfig _
        [.prioritySend (Request.ofCommand [0, -1, -1, -1, -1, -1, -1] .REFab), hbmTick,
          .prioritySend (Request.ofCommand [0, 0, 0, 0, 0, -1, -1] .PREpb), hbmTick] _ =
      .ok ([(.REFab, [0, -1, -1, -1, -1, -1, -1], 1), (.PREpb, [0, 0, 0, 0, 0, -1, -1], 2)] :
        List (Command × AddrVec × Int)) from by decide +kernel)
  refine ⟨isHBM34_small, d, H, htraced, fun hrules => ?_⟩
  obtain ⟨r, l, rfl, hr, hl⟩ := List.map_eq_cons_iff.mp hH
  obtain ⟨p, l', rfl, hp, -⟩ := List.map_eq_cons_iff.mp hl
  obtain ⟨hrcmd, hr⟩ := Prod.mk.inj hr
  obtain ⟨hraddr, hrclk⟩ := Prod.mk.inj hr
  obtain ⟨hpcmd, hp⟩ := Prod.mk.inj hp
  obtain ⟨hpaddr, hpclk⟩ := Prod.mk.inj hp
  have hpair := hrules.pairing r List.mem_cons_self p (List.mem_cons_of_mem _ List.mem_cons_self)
    (by rw [hrcmd]; rfl) (by rw [hrclk]; rfl) (.inl hpcmd)
    (by unfold pairingEdge; rw [hpclk, hrclk, hrcmd]; rfl)
    (.inr (.inl (by rw [hraddr]; decide)))
  rw [hrcmd] at hpair
  exact absurd hpair.2.2 (by decide)

end Ramulator.Controller
