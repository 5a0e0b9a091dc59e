/-
# Ramulator.Dram.Occupancy — commands that keep the whole channel busy.

A constraint at the channel level with a window of one, such as those that the specification generates
for commands which occupy their bus for several cycles, applies to every command of the channel. Here is
what it guarantees, for any addresses below the channel: `readyClk` never decreases, a command that passes
`check_timing` is not before it, and issuing the preceding command raises it.
-/
import Ramulator.Dram.Device

namespace Ramulator.Dram

open Ramulator.Lib

namespace NodeTiming

variable {C : Type} [DecidableEq C] {spec : DRAMSpec C} {level : Nat} {command c : C} {clk : Int}
  {tm : NodeTiming C}

/-- Every history has the length with which it was made. -/
def HistoryFull (spec : DRAMSpec C) (level : Nat) (tm : NodeTiming C) : Prop :=
  ∀ c, (tm.cmdHistory c).length = spec.maxWindow level c

omit [DecidableEq C] in
theorem historyFull_init (spec : DRAMSpec C) (level : Nat) : (init spec level).HistoryFull spec level :=
  fun _ => List.length_replicate

theorem cmdHistory_updateTarget (spec : DRAMSpec C) (level : Nat) (command : C) (clk : Int)
    (tm : NodeTiming C) :
    (tm.updateTarget spec level command clk).cmdHistory = (tm.pushHistory command clk).cmdHistory := rfl

theorem HistoryFull.updateTarget (h : tm.HistoryFull spec level) (command : C) (clk : Int) :
    (tm.updateTarget spec level command clk).HistoryFull spec level := by
  intro c
  rw [cmdHistory_updateTarget, ← h c]
  unfold pushHistory
  split_ifs with hnil
  · rfl
  · by_cases hc : c = command
    · subst hc
      have hpos := List.length_pos_iff.mpr hnil
      dsimp only
      rw [Function.update_self]
      unfold pushFront
      rw [List.length_cons, List.length_dropLast]
      omega
    · dsimp only
      rw [Function.update_of_ne hc]

theorem HistoryFull.updateSibling (h : tm.HistoryFull spec level) (command : C) (clk : Int) :
    (tm.updateSibling spec level command clk).HistoryFull spec level := h

theorem le_updateSibling (spec : DRAMSpec C) (level : Nat) (command c : C) (clk : Int)
    (tm : NodeTiming C) :
    tm.cmdReadyClk c ≤ (tm.updateSibling spec level command clk).cmdReadyClk c :=
  ((bumpAll_le_iff _ _ _ _ c _).mp le_rfl).1

theorem le_updateTarget (spec : DRAMSpec C) (level : Nat) (command c : C) (clk : Int)
    (tm : NodeTiming C) :
    tm.cmdReadyClk c ≤ (tm.updateTarget spec level command clk).cmdReadyClk c := by
  have hsame : (((tm.pushHistory command clk).pushShared spec level command clk).cmdReadyClk c) =
      tm.cmdReadyClk c := by
    show (tm.pushHistory command clk).cmdReadyClk c = _
    unfold pushHistory
    split_ifs <;> rfl
  rw [← hsame]
  exact ((bumpAll_le_iff _ _ _ _ c _).mp le_rfl).1

/-- A plain constraint under the recorded command counts from its clock. -/
theorem add_val_le_updateTarget (h : tm.HistoryFull spec level) {k : TimingConsEntry C}
    (hk : k ∈ spec.timingCons level command) (hwindow : k.window = 1) (hsibling : k.sibling = false)
    (hgroup : k.historyGroup = none) (hclk : 0 ≤ clk) :
    clk + k.val ≤ (tm.updateTarget spec level command clk).cmdReadyClk k.cmd := by
  have hpos : tm.cmdHistory command ≠ [] := by
    have hwin := DRAMSpec.window_le_maxWindow hk
    have hlen := h command
    rintro hnil
    rw [hnil, List.length_nil] at hlen
    omega
  have hpast : ((tm.pushHistory command clk).pushShared spec level command clk).past command k = clk := by
    unfold past
    rw [hgroup, hwindow]
    show ((tm.pushHistory command clk).cmdHistory command).getD 0 (-1) = clk
    unfold pushHistory
    rw [if_neg hpos]
    dsimp only
    rw [Function.update_self]
    rfl
  refine ((bumpAll_le_iff _ _ _ _ k.cmd _).mp le_rfl).2 k hk rfl _ ?_
  rw [hsibling, hpast]
  simp [not_lt.mpr hclk]

end NodeTiming

namespace DRAMDevice

variable {spec : Standard} {d : DRAMDevice} {c c' : Command} {addr : AddrVec} {clk : Int}

/-- The timing fields of the channel. -/
def rootTiming (d : DRAMDevice) : NodeTiming Command :=
  match d.root with
  | .mk _ _ tm _ _ => tm

/-- The clock from which on the channel lets `c` pass. -/
def readyClk (d : DRAMDevice) (c : Command) : Int := d.rootTiming.cmdReadyClk c

/-- The root is a node of level 0 with full histories. -/
def RootFull (spec : Standard) (d : DRAMDevice) : Prop :=
  (∃ id tm n child, d.root = .mk 0 id tm n child) ∧ d.rootTiming.HistoryFull spec.toDRAMSpec 0

theorem rootFull_init (spec : Standard) (channelId : Int) : (init spec channelId).RootFull spec := by
  unfold RootFull rootTiming init DRAMNode.root
  cases spec.rowLevel - 1 with
  | zero => exact ⟨⟨_, _, _, _, rfl⟩, NodeTiming.historyFull_init _ _⟩
  | succ n => exact ⟨⟨_, _, _, _, rfl⟩, NodeTiming.historyFull_init _ _⟩

theorem rootTiming_issueCommand (hroot : d.RootFull spec) (c : Command) (addr : AddrVec) (clk : Int) :
    (d.issueCommand spec c addr clk).RootFull spec ∧
      ((d.issueCommand spec c addr clk).rootTiming =
          d.rootTiming.updateTarget spec.toDRAMSpec 0 c clk ∨
        ((d.channelId ≠ addr.coord 0 ∧ addr.coord 0 ≠ -1) ∧
          (d.issueCommand spec c addr clk).rootTiming =
            d.rootTiming.updateSibling spec.toDRAMSpec 0 c clk)) := by
  obtain ⟨⟨id, tm, n, child, hmk⟩, hfull⟩ := hroot
  unfold RootFull rootTiming issueCommand channelId at *
  rw [hmk] at hfull ⊢
  simp only [DRAMNode.updateTiming]
  split_ifs with hmiss hall
  · exact ⟨⟨⟨_, _, _, _, rfl⟩, hfull.updateSibling c clk⟩, .inr ⟨hmiss, rfl⟩⟩
  · exact ⟨⟨⟨_, _, _, _, rfl⟩, hfull.updateTarget c clk⟩, .inl rfl⟩
  · exact ⟨⟨⟨_, _, _, _, rfl⟩, hfull.updateTarget c clk⟩, .inl rfl⟩

theorem readyClk_le_issueCommand (hroot : d.RootFull spec) (c c' : Command) (addr : AddrVec)
    (clk : Int) : d.readyClk c' ≤ (d.issueCommand spec c addr clk).readyClk c' := by
  unfold readyClk
  rcases (rootTiming_issueCommand hroot c addr clk).2 with heq | ⟨-, heq⟩
  · rw [heq]
    exact NodeTiming.le_updateTarget _ _ _ _ _ _
  · rw [heq]
    exact NodeTiming.le_updateSibling _ _ _ _ _ _

/-- After a command of this channel, what it constrains waits. -/
theorem add_val_le_readyClk (hroot : d.RootFull spec) (haddr : addr.coord 0 = d.channelId)
    {k : TimingConsEntry Command} (hk : k ∈ spec.timingCons 0 c) (hwindow : k.window = 1)
    (hsibling : k.sibling = false) (hgroup : k.historyGroup = none) (hclk : 0 ≤ clk) :
    clk + k.val ≤ (d.issueCommand spec c addr clk).readyClk k.cmd := by
  unfold readyClk
  rcases (rootTiming_issueCommand hroot c addr clk).2 with heq | ⟨⟨hne, -⟩, -⟩
  · rw [heq]
    exact NodeTiming.add_val_le_updateTarget hroot.2 hk hwindow hsibling hgroup hclk
  · exact absurd haddr.symm hne

/-- What passes the check is not too early for the channel. -/
theorem readyClk_le_of_checkTiming (h : d.checkTiming c addr clk = true) (hclk : 0 ≤ clk) :
    d.readyClk c ≤ clk := by
  unfold checkTiming at h
  unfold readyClk rootTiming
  cases hmk : d.root with
  | mk level id tm n child =>
      rw [hmk] at h
      unfold DRAMNode.checkTiming at h
      split_ifs at h with hwait
      all_goals
        dsimp only
        omega

end DRAMDevice

end Ramulator.Dram
