/-
# Ramulator.Controller.PRACDispatch — the banks whose counters a command touches.

The controller with per-row counting has a dispatcher of its own: it computes flat bank ids from the rank,
the bank group and the bank of an address, where a wildcard stands for all of them within the rank. With
ranks, bank groups and banks below the channel these are the banks that the device's own dispatch visits.
-/
import Ramulator.Dram.Dispatch
import Ramulator.Controller.PRAC

namespace Ramulator.Controller

open Ramulator.Dram Ramulator.Lib.MixedRadix

variable {cfg : Config} {p : PRACConfig} {addr : AddrVec}

/-! ## Ranks, bank groups and banks -/

/-- The organization below the channel. -/
structure RankGroupBank (cfg : Config) (p : PRACConfig) : Prop where
  rank : p.rankLevel = 1
  bankgroup : p.bankgroupLevel = some 2
  bank : cfg.spec.bankLevel = 3

/-- Every entry down to the bank is a coordinate or a wildcard. -/
def InRangeOrWild (spec : Standard) (addr : AddrVec) : Prop :=
  ∀ l < spec.bankLevel, addr.coord (l + 1) = -1 ∨
    (0 ≤ addr.coord (l + 1) ∧ addr.coord (l + 1) < spec.levelSize (l + 1))

theorem bankSizes_of_groups (h : cfg.spec.bankLevel = 3) :
    cfg.spec.bankSizes = [cfg.spec.levelSize 1, cfg.spec.levelSize 2, cfg.spec.levelSize 3] := by
  rw [Standard.bankSizes, h]
  rfl

theorem position_of_groups (R G B r g k : Nat) : position [R, G, B] [r, g, k] = (r * G + g) * B + k := by
  show k + B * (g + G * (r + R * 0)) = _
  ring

theorem bankCount_of_groups (h : cfg.spec.bankLevel = 3) :
    cfg.spec.bankCount = cfg.spec.levelSize 1 * (cfg.spec.levelSize 2 * cfg.spec.levelSize 3) := by
  rw [Standard.bankCount_eq, bankSizes_of_groups h]
  show cfg.spec.levelSize 1 * (cfg.spec.levelSize 2 * (cfg.spec.levelSize 3 * 1)) = _
  rw [Nat.mul_one]

/-- The flat ids of the banks, by their three coordinates. -/
theorem bankNodes_of_groups (h : cfg.spec.bankLevel = 3) (i : Nat) (hi : i < cfg.spec.bankCount) :
    ∃ r < cfg.spec.levelSize 1, ∃ g < cfg.spec.levelSize 2, ∃ k < cfg.spec.levelSize 3,
      cfg.spec.bankNodes.getD i [] = [r, g, k] ∧
        i = (r * cfg.spec.levelSize 2 + g) * cfg.spec.levelSize 3 + k := by
  obtain ⟨hwithin, hplace⟩ := Standard.bankNodes_spec hi
  rw [bankSizes_of_groups h] at hwithin hplace
  cases hpath : cfg.spec.bankNodes.getD i [] with
  | nil =>
      rw [hpath] at hwithin
      cases hwithin
  | cons r rest =>
      rw [hpath] at hwithin hplace
      obtain ⟨hr, hrest⟩ := List.forall₂_cons.mp hwithin
      obtain ⟨g, rest', hg, hrest', rfl⟩ := List.forall₂_cons_left_iff.mp hrest
      obtain ⟨k, rest'', hk, hnil, rfl⟩ := List.forall₂_cons_left_iff.mp hrest'
      obtain rfl := List.forall₂_nil_left_iff.mp hnil
      exact ⟨r, hr, g, hg, k, hk, rfl, hplace.symm.trans (position_of_groups ..)⟩

theorem bankNode_of_groups (h : cfg.spec.bankLevel = 3) {r g k : Nat} (hr : r < cfg.spec.levelSize 1)
    (hg : g < cfg.spec.levelSize 2) (hk : k < cfg.spec.levelSize 3) :
    (r * cfg.spec.levelSize 2 + g) * cfg.spec.levelSize 3 + k < cfg.spec.bankCount ∧
      cfg.spec.bankNodes.getD ((r * cfg.spec.levelSize 2 + g) * cfg.spec.levelSize 3 + k) [] = [r, g, k] := by
  have hwithin : Within cfg.spec.bankSizes [r, g, k] := by
    rw [bankSizes_of_groups h]
    exact .cons hr (.cons hg (.cons hk .nil))
  have hplace := position_of_groups (cfg.spec.levelSize 1) (cfg.spec.levelSize 2) (cfg.spec.levelSize 3) r g k
  rw [← bankSizes_of_groups h] at hplace
  rw [← hplace]
  refine ⟨?_, ?_⟩
  · rw [Standard.bankCount_eq]
    exact position_lt hwithin
  · rw [List.getD_eq_getElem?_getD, Standard.bankNodes_eq, Standard.getElem?_coordinates hwithin]
    rfl

/-! ## Both dispatchers -/

/-- A bank of the named rank whose bank group and bank are addressed. -/
def OfRank (spec : Standard) (addr : AddrVec) (b : Int) : Prop :=
  ∃ g < spec.levelSize 2, ∃ k < spec.levelSize 3,
    (addr.coord 2 = -1 ∨ addr.coord 2 = (g : Nat)) ∧ (addr.coord 3 = -1 ∨ addr.coord 3 = (k : Nat)) ∧
      b = (addr.coord 1 * spec.levelSize 2 + (g : Nat)) * spec.levelSize 3 + (k : Nat)

theorem selected_of_groups (h : cfg.spec.bankLevel = 3) {channelId : Int}
    (hchannel : addr.coord 0 = -1 ∨ addr.coord 0 = channelId) {i r g k : Nat} (hi : i < cfg.spec.bankCount)
    (hpath : cfg.spec.bankNodes.getD i [] = [r, g, k]) :
    cfg.spec.Selected channelId addr i ↔
      (addr.coord 1 = -1 ∨ addr.coord 1 = (r : Nat)) ∧ (addr.coord 2 = -1 ∨ addr.coord 2 = (g : Nat)) ∧
        (addr.coord 3 = -1 ∨ addr.coord 3 = (k : Nat)) := by
  rw [Standard.selected_iff hi, hpath, h]
  constructor
  · rintro ⟨-, hall⟩
    exact ⟨hall 0 (by decide), hall 1 (by decide), hall 2 (by decide)⟩
  · rintro ⟨hr, hg, hk⟩
    refine ⟨hchannel, fun l hl => ?_⟩
    match l, hl with
    | 0, _ => exact hr
    | 1, _ => exact hg
    | 2, _ => exact hk

/-- The device's dispatch. -/
theorem mem_targetBanks_of_groups (h : cfg.spec.bankLevel = 3) {channelId : Int} {c : Command}
    (hform : cfg.spec.Addresses c.bankTarget addr)
    (hchannel : addr.coord 0 = -1 ∨ addr.coord 0 = channelId) (hrange : InRangeOrWild cfg.spec addr)
    (hrank : addr.coord 1 ≠ -1) (b : Int) :
    b ∈ cfg.spec.targetBanks channelId c addr ↔ OfRank cfg.spec addr b := by
  have hlevels : 0 < cfg.spec.bankLevel := h ▸ Nat.succ_pos 2
  constructor
  · intro hb
    obtain ⟨i, hi, rfl⟩ := Standard.isBank_of_mem_targetBanks hform hb
    obtain ⟨r, hr, g, hg, k, hk, hpath, hflat⟩ := bankNodes_of_groups h i hi
    have hsel := (Standard.mem_targetBanks_iff hlevels hform hchannel hi).mp hb
    obtain ⟨hcr, hcg, hck⟩ := (selected_of_groups h hchannel hi hpath).mp hsel
    refine ⟨g, hg, k, hk, hcg, hck, ?_⟩
    rw [hcr.resolve_left hrank, hflat]
    push_cast
    rfl
  · rintro ⟨g, hg, k, hk, hcg, hck, rfl⟩
    obtain ⟨hpos, hlt⟩ := (hrange 0 hlevels).resolve_left hrank
    obtain ⟨r, hr⟩ := Int.eq_ofNat_of_zero_le hpos
    have hr' : r < cfg.spec.levelSize 1 := by
      rw [hr] at hlt
      exact Int.ofNat_lt.mp hlt
    obtain ⟨hi, hpath⟩ := bankNode_of_groups h hr' hg hk
    have hsel := (selected_of_groups h hchannel hi hpath).mpr ⟨.inr hr, hcg, hck⟩
    have hmem := (Standard.mem_targetBanks_iff hlevels hform hchannel hi).mpr hsel
    have hcoord : addr.coord 1 = (r : Int) := hr
    rw [hcoord]
    push_cast at hmem
    exact hmem

/-- The numbers below a product are the pairs of numbers below its factors. -/
theorem mem_map_range_mul_iff {G B : Nat} {offset b : Int} :
    b ∈ (List.range (G * B)).map (fun j : Nat => offset + j) ↔
      ∃ g < G, ∃ k < B, b = offset + ((g : Nat) * B + (k : Nat) : Nat) := by
  rw [List.mem_map]
  constructor
  · rintro ⟨j, hj, rfl⟩
    have hjlt := List.mem_range.mp hj
    have hpos : 0 < B := by
      rcases Nat.eq_zero_or_pos B with rfl | hpos
      · exact absurd hjlt (Nat.not_lt_zero j)
      · exact hpos
    refine ⟨j / B, Nat.div_lt_of_lt_mul (by rwa [Nat.mul_comm] at hjlt), j % B, Nat.mod_lt j hpos, ?_⟩
    rw [Nat.mul_comm, Nat.div_add_mod]
  · rintro ⟨g, hg, k, hk, rfl⟩
    refine ⟨g * B + k, List.mem_range.mpr ?_, rfl⟩
    calc g * B + k < g * B + B := Nat.add_lt_add_left hk _
      _ = (g + 1) * B := (Nat.succ_mul g B).symm
      _ ≤ G * B := Nat.mul_le_mul_right B hg

/-- The controller's dispatch. -/
theorem mem_counterBanks_of_groups (horg : RankGroupBank cfg p) (hrange : InRangeOrWild cfg.spec addr)
    (hrank : addr.coord 1 ≠ -1) (b : Int) :
    b ∈ p.counterBanks cfg addr ↔ OfRank cfg.spec addr b := by
  have hrange' : ∀ l < 3, addr.coord (l + 1) = -1 ∨
      (0 ≤ addr.coord (l + 1) ∧ addr.coord (l + 1) < cfg.spec.levelSize (l + 1)) := by
    rw [← horg.bank]
    exact hrange
  have hperRank : p.numBanksPerRank cfg = cfg.spec.levelSize 2 * cfg.spec.levelSize 3 := by
    have hpos : 0 < cfg.spec.levelSize 1 := by
      obtain ⟨hlow, hhigh⟩ := (hrange' 0 (by decide)).resolve_left hrank
      exact Int.ofNat_lt.mp (hlow.trans_lt hhigh)
    rw [PRACConfig.numBanksPerRank, PRACConfig.numRanks, horg.rank, bankCount_of_groups horg.bank,
      Nat.mul_div_cancel_left _ hpos]
  have hperGroup : p.numBanksPerBankgroup cfg = cfg.spec.levelSize 3 := by
    rw [PRACConfig.numBanksPerBankgroup, horg.bankgroup, horg.bank]
    rfl
  unfold PRACConfig.counterBanks OfRank
  simp only [horg.rank, horg.bankgroup, horg.bank, hperRank, hperGroup, Option.any_some, Option.elim_some,
    bind_pure_comp, List.map_eq_map, List.map_map, Function.comp_def,
    Int.toNat_natCast]
  rcases hrange' 1 (by decide) with hgWild | ⟨hgLow, hgHigh⟩
  · rcases hrange' 2 (by decide) with hkWild | ⟨hkLow, hkHigh⟩
    · -- every bank of the rank
      simp only [hgWild, hkWild, beq_self_eq_true, Bool.and_self, if_true, true_or, true_and]
      rw [mem_map_range_mul_iff]
      refine exists_congr fun g => and_congr_right fun _ => exists_congr fun k => and_congr_right fun _ => ?_
      have hflat : addr.coord 1 * ((cfg.spec.levelSize 2 * cfg.spec.levelSize 3 : Nat) : Int) +
          ((g * cfg.spec.levelSize 3 + k : Nat) : Int) =
          (addr.coord 1 * cfg.spec.levelSize 2 + (g : Nat)) * cfg.spec.levelSize 3 + (k : Nat) := by
        push_cast
        ring
      rw [hflat]
    · -- the same bank of every bank group
      obtain ⟨k, hk⟩ := Int.eq_ofNat_of_zero_le hkLow
      have hkHigh' : k < cfg.spec.levelSize 3 := by
        rw [hk] at hkHigh
        exact Int.ofNat_lt.mp hkHigh
      have hkWild : (((k : Nat) : Int) == -1) = false := by simp
      simp only [hgWild, hk, hkWild, beq_self_eq_true, Bool.and_false, Bool.false_eq_true, if_false, if_true,
        true_or, true_and, Nat.mul_div_cancel _ (Nat.zero_lt_of_lt hkHigh'), List.mem_map, List.mem_range]
      refine exists_congr fun g => and_congr_right fun _ => ?_
      constructor
      · rintro rfl
        refine ⟨k, hkHigh', .inr rfl, ?_⟩
        push_cast
        ring
      · rintro ⟨k', -, hk' | hk', rfl⟩
        · omega
        · obtain rfl : k = k' := Int.ofNat.inj hk'
          push_cast
          ring
  · obtain ⟨g, hg⟩ := Int.eq_ofNat_of_zero_le hgLow
    have hgHigh' : g < cfg.spec.levelSize 2 := by
      rw [hg] at hgHigh
      exact Int.ofNat_lt.mp hgHigh
    have hgWild : (((g : Nat) : Int) == -1) = false := by simp
    rcases hrange' 2 (by decide) with hkWild | ⟨hkLow, hkHigh⟩
    · -- every bank of one bank group
      simp only [hg, hgWild, hkWild, beq_self_eq_true, Bool.false_and, Bool.false_eq_true, if_false, if_true,
        true_or, true_and, List.mem_map, List.mem_range]
      constructor
      · rintro ⟨k, hk, rfl⟩
        refine ⟨g, hgHigh', k, hk, .inr rfl, ?_⟩
        push_cast
        ring
      · rintro ⟨g', -, k, hk, hg' | hg', rfl⟩
        · omega
        · obtain rfl : g = g' := Int.ofNat.inj hg'
          refine ⟨k, hk, ?_⟩
          push_cast
          ring
    · -- one bank
      obtain ⟨k, hk⟩ := Int.eq_ofNat_of_zero_le hkLow
      have hkHigh' : k < cfg.spec.levelSize 3 := by
        rw [hk] at hkHigh
        exact Int.ofNat_lt.mp hkHigh
      have hkWild : (((k : Nat) : Int) == -1) = false := by simp
      have hflat : cfg.spec.flatBankId addr =
          (addr.coord 1 * cfg.spec.levelSize 2 + (g : Nat)) * cfg.spec.levelSize 3 + (k : Nat) := by
        have hlevels : List.range 3 = [0, 1, 2] := by decide
        rw [Standard.flatBankId, horg.bank, hlevels]
        simp only [List.foldl_cons, List.foldl_nil, zero_mul, zero_add]
        rw [← hg, ← hk]
      simp only [hg, hk, hgWild, hkWild, Bool.false_and, Bool.false_eq_true, if_false, List.mem_singleton, hflat]
      constructor
      · rintro rfl
        exact ⟨g, hgHigh', k, hkHigh', .inr rfl, .inr rfl, rfl⟩
      · rintro ⟨g', -, k', -, hg' | hg', hk' | hk', rfl⟩
        · omega
        · omega
        · omega
        · obtain rfl : g = g' := Int.ofNat.inj hg'
          obtain rfl : k = k' := Int.ofNat.inj hk'
          rfl

theorem nodup_counterBanks (horg : RankGroupBank cfg p) (hrange : InRangeOrWild cfg.spec addr) :
    (p.counterBanks cfg addr).Nodup := by
  have hperGroup : p.numBanksPerBankgroup cfg = cfg.spec.levelSize 3 := by
    rw [PRACConfig.numBanksPerBankgroup, horg.bankgroup, horg.bank]
    rfl
  have hbank := hrange 2 (by rw [horg.bank]; decide)
  unfold PRACConfig.counterBanks
  simp only [horg.bank, hperGroup, bind_pure_comp, List.map_eq_map, List.map_map, Function.comp_def]
  split_ifs with hall hgroups hbanks
  · exact List.nodup_range.map fun i j hij => by omega
  · refine List.nodup_range.map fun i j hij => ?_
    have hwild : addr.coord 3 ≠ -1 := by
      intro heq
      rw [hgroups, heq] at hall
      exact hall rfl
    obtain ⟨hlow, hhigh⟩ := hbank.resolve_left hwild
    have hpos : (cfg.spec.levelSize 3 : Int) ≠ 0 := by
      have hlt : addr.coord 3 < (cfg.spec.levelSize 3 : Int) := hhigh
      have hle : 0 ≤ addr.coord 3 := hlow
      omega
    have hmul : (i : Int) * cfg.spec.levelSize 3 = (j : Int) * cfg.spec.levelSize 3 := by
      omega
    exact Int.ofNat.inj (Int.eq_of_mul_eq_mul_right hpos hmul)
  · exact List.nodup_range.map fun i j hij => by omega
  · exact List.nodup_singleton _

/-- The two dispatchers reach the same banks, each once. -/
theorem counterBanks_perm (horg : RankGroupBank cfg p) {channelId : Int} {c : Command}
    (hform : cfg.spec.Addresses c.bankTarget addr)
    (hchannel : addr.coord 0 = -1 ∨ addr.coord 0 = channelId) (hrange : InRangeOrWild cfg.spec addr)
    (hrank : addr.coord 1 ≠ -1) :
    (p.counterBanks cfg addr).Perm (cfg.spec.targetBanks channelId c addr) := by
  refine (List.perm_ext_iff_of_nodup (nodup_counterBanks horg hrange)
    (Standard.nodup_targetBanks cfg.spec channelId c addr)).mpr fun b => ?_
  rw [mem_counterBanks_of_groups horg hrange hrank,
    mem_targetBanks_of_groups horg.bank hform hchannel hrange hrank]

/-- The walks agree. The array of banks lists the nodes of the bank level; a concrete address leads to the
node that the array holds at its flat id, and the flat ids number the banks. The dispatch of a command
visits no bank twice; it visits the banks at which the timing walk takes the target branch, so that these
are the banks whose states change; and they are the banks whose counters the controller touches. -/
theorem dispatch_agree (cfg : Config) (hlevels : 0 < cfg.spec.bankLevel ∧ cfg.spec.bankLevel < cfg.spec.rowLevel)
    (d : DRAMDevice) (hd : DRAMDevice.Issued cfg.spec cfg.channelId d) (addr : AddrVec)
    (hchannel : addr.coord 0 = -1 ∨ addr.coord 0 = cfg.channelId) (hrange : InRangeOrWild cfg.spec addr) :
    (d.root.forEachAtLevel cfg.spec.bankLevel).map Prod.fst = cfg.spec.bankNodes ∧
    (cfg.spec.Concrete addr →
      ∃ node, d.root.follow (cfg.spec.bankPath addr) = some node ∧
        (d.root.forEachAtLevel cfg.spec.bankLevel)[(cfg.spec.flatBankId addr).toNat]? =
          some (cfg.spec.bankPath addr, node)) ∧
    Set.BijOn (fun path : List Nat => cfg.spec.flatBankId (addr.coord 0 :: path.map fun j : Nat => (j : Int)))
      {path | Within cfg.spec.bankSizes path} {b | 0 ≤ b ∧ b < cfg.spec.bankCount} ∧
    ∀ (c : Command) (clk : Int),
      (d.targetBanks cfg.spec c addr).Nodup ∧
      (cfg.spec.Addresses c.bankTarget addr →
        (∀ b ∈ d.targetBanks cfg.spec c addr, ∃ i < cfg.spec.bankCount, b = (i : Nat)) ∧
        (∀ i < cfg.spec.bankCount,
          (((i : Nat) : Int) ∈ d.targetBanks cfg.spec c addr ↔ d.bankVisit cfg.spec c addr i = some .target) ∧
          (d.issueCommand cfg.spec c addr clk).root.timingAt (cfg.spec.bankNodes.getD i []) =
            (d.root.timingAt (cfg.spec.bankNodes.getD i [])).map
              (DRAMNode.Visit.apply cfg.spec.toDRAMSpec cfg.spec.bankLevel c clk
                (d.bankVisit cfg.spec c addr i)) ∧
          (d.issueCommand cfg.spec c addr clk).banks i =
            if d.bankVisit cfg.spec c addr i = some .target then
              c.action (addr.coord cfg.spec.rowLevel) (d.banks i)
            else d.banks i) ∧
        ∀ p : PRACConfig, RankGroupBank cfg p → addr.coord 1 ≠ -1 →
          (p.counterBanks cfg addr).Perm (d.targetBanks cfg.spec c addr)) := by
  have htargets : ∀ c : Command, d.targetBanks cfg.spec c addr =
      cfg.spec.targetBanks cfg.channelId c addr := by
    intro c
    unfold DRAMDevice.targetBanks
    rw [hd.channelId_eq]
  refine ⟨hd.banks_eq hlevels.2, hd.getElem?_banks hlevels.2, Standard.flatBankId_bijOn _ _, fun c clk => ⟨?_, fun hform => ⟨?_, ?_, ?_⟩⟩⟩
  · rw [htargets]
    exact Standard.nodup_targetBanks _ _ _ _
  · rw [htargets]
    exact fun b hb => Standard.isBank_of_mem_targetBanks hform hb
  · intro i hi
    exact ⟨(hd.bankVisit_eq_target_iff hlevels hform hchannel hi).symm,
      hd.bank_issueCommand hlevels clk hform hchannel hi⟩
  · intro p horg hrank
    rw [htargets]
    exact counterBanks_perm horg hform hchannel hrange hrank

/-- Two ranks of two bank groups of two banks. -/
def wideConfig : Config where
  __ := smallConfig
  spec := { smallDDR with levelSizes := [1, 2, 2, 2, 16, 16], commands_complete := Command.mem_all }

/-- A bank of the second rank is open. -/
def wideDevice : DRAMDevice :=
  (DRAMDevice.init wideConfig.spec 0).issueCommand wideConfig.spec .ACT [0, 1, 0, 1, 5, 0] 0

/-- Bank 1 of every group of the second rank is precharged, the open one among them. -/
theorem dispatch_agree_smallDDR :
    wideDevice.targetBanks wideConfig.spec .PREsb [0, 1, -1, 1, 0, 0] = [5, 7] ∧
      ((smallPRAC 20).counterBanks wideConfig [0, 1, -1, 1, 0, 0]).Perm [5, 7] ∧
      wideDevice.bankVisit wideConfig.spec .PREsb [0, 1, -1, 1, 0, 0] 5 = some .target ∧
      (wideDevice.banks 5).state = .opened ∧
      ((wideDevice.issueCommand wideConfig.spec .PREsb [0, 1, -1, 1, 0, 0] 9).banks 5).state = .closed := by
  have hissued : DRAMDevice.Issued wideConfig.spec wideConfig.channelId wideDevice :=
    .step (.ACT, [0, 1, 0, 1, 5, 0], 0) .start rfl
  obtain ⟨-, -, -, hdispatch⟩ := dispatch_agree wideConfig (by decide) wideDevice hissued [0, 1, -1, 1, 0, 0]
    (.inr rfl) (by unfold InRangeOrWild; decide)
  obtain ⟨-, hform⟩ := hdispatch .PREsb 9
  have hsame : wideConfig.spec.Addresses Command.PREsb.bankTarget [0, 1, -1, 1, 0, 0] := by
    change (1 : Int) ≠ -1
    decide
  obtain ⟨-, hbanks, hcounters⟩ := hform hsame
  have htargets : wideDevice.targetBanks wideConfig.spec .PREsb [0, 1, -1, 1, 0, 0] = [5, 7] := by decide
  obtain ⟨hvisit, -, hstate⟩ := hbanks 5 (by decide)
  have htarget := hvisit.mp (by rw [htargets]; decide)
  have hperm := hcounters (smallPRAC 20) ⟨rfl, rfl, rfl⟩ (by decide)
  rw [htargets] at hperm
  rw [if_pos htarget] at hstate
  exact ⟨htargets, hperm, htarget, by decide, (congrArg BankState.state hstate).trans rfl⟩

end Ramulator.Controller
