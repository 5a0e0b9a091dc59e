/-
# Ramulator.Controller.SamsungTRR — a row sampler that acts on refresh-management commands.

`SamsungTRR` (`controller/plugin/impl/samsung_trr.cpp`) keeps a table of heavy hitters for each bank. On a
refresh-management command it requests a `VRR` for the rows with the highest counts of every bank that
the command targets, and lowers their counts to the bank's spillover counter. The order in which hash
maps are visited is an input; `std::partial_sort` is a sort of what it is given in that order, so rows
with equal counts may come in any order.
-/
import Ramulator.Controller.Exposure
import Ramulator.Dram.Dispatch
import Mathlib.Data.List.Sort
import Mathlib.Tactic.LinearCombination

namespace Ramulator.Controller

open Ramulator.Base (Request)
open Ramulator.Dram Ramulator.Lib

variable {K : Type}

/-- The parameters and what `setup` reads of the standard. A standard that it accepts has ranks, and
below them bank groups and banks, or banks alone. -/
structure SamsungTRRConfig where
  spec : Standard
  channelId : Int
  numTableEntries : Int
  numRowsPerRfm : Nat
  bankgroupLevel : Option Nat
  rows_pos : 1 ≤ numRowsPerRfm
  ranks_pos : 0 < spec.levelSize 1
  row_gt : spec.bankLevel < spec.rowLevel
  levels : bankgroupLevel = some 2 ∧ spec.bankLevel = 3 ∨ bankgroupLevel = none ∧ spec.bankLevel = 2

namespace SamsungTRRConfig

def rankLevel : Nat := 1

/-- `m_num_banks_per_rank`. -/
def numBanksPerRank (cfg : SamsungTRRConfig) : Int := cfg.spec.bankCount / cfg.spec.levelSize rankLevel

/-- `m_num_banks_per_bankgroup`. -/
def numBanksPerBankgroup (cfg : SamsungTRRConfig) : Int := cfg.spec.levelSize cfg.spec.bankLevel

end SamsungTRRConfig

structure SamsungTRR where
  counterTable : Int → List (Int × Int) := fun _ => []
  spilloverCounter : Int → Int := fun _ => 0

namespace SamsungTRR

/-- A notification: the tables afterwards, the requests in order, and the banks and rows that were
selected. Nothing reads `selected`. -/
structure Served (K : Type) where
  state : SamsungTRR
  sends : List (Request Command K) := []
  selected : List (Int × Int) := []

def setTable (bank : Int) (m : List (Int × Int)) (s : SamsungTRR) : SamsungTRR :=
  { s with counterTable := Function.update s.counterTable bank m }

/-- `process_act`. -/
def processAct (cfg : SamsungTRRConfig) (addr : AddrVec) (order : List Int) (s : SamsungTRR) : SamsungTRR :=
  let bank := cfg.spec.flatBankId addr
  let row := addr.coord cfg.spec.rowLevel
  let table := s.counterTable bank
  let spillover := s.spilloverCounter bank
  match table.lookup row with
  | some count => s.setTable bank (assign row (count + 1) table)
  | none =>
      if (table.length : Int) < cfg.numTableEntries then s.setTable bank (assign row (spillover + 1) table)
      else
        match (visit order table).find? (fun e => e.2 = spillover) with
        | some (evicted, spill) => s.setTable bank (assign row (spill + 1) (eraseKey evicted table))
        | none => { s with spilloverCounter := Function.update s.spilloverCounter bank (spillover + 1) }

/-- The first entries of the table, with the highest counts first. -/
def selected (cfg : SamsungTRRConfig) (order : List Int) (table : List (Int × Int)) : List (Int × Int) :=
  ((visit order.dedup table).insertionSort fun a b => a.2 ≥ b.2).take (min cfg.numRowsPerRfm table.length)

/-- The address of a `VRR`: the address of the command, with the bank put together from its flat id. -/
def vrrAddr (cfg : SamsungTRRConfig) (addr : AddrVec) (bank row : Int) : AddrVec :=
  let rank := bank / cfg.numBanksPerRank
  let localBank := bank - rank * cfg.numBanksPerRank
  let addr := addr.set SamsungTRRConfig.rankLevel rank
  let addr :=
    match cfg.bankgroupLevel with
    | some level =>
        (addr.set level (localBank / cfg.numBanksPerBankgroup)).set cfg.spec.bankLevel
          (localBank % cfg.numBanksPerBankgroup)
    | none => addr.set cfg.spec.bankLevel localBank
  addr.set cfg.spec.rowLevel row

/-- `process_rfm_for_bank`. -/
def processRfmForBank (cfg : SamsungTRRConfig) (addr : AddrVec) (order : Int → List Int) (bank : Int)
    (out : Served K) : Served K :=
  let table := out.state.counterTable bank
  let rows := (selected cfg (order bank) table).map Prod.fst
  { state := out.state.setTable bank (rows.foldl (fun m row => assign row (out.state.spilloverCounter bank) m) table)
    sends := out.sends ++ rows.map fun row => vrrRequest (vrrAddr cfg addr bank row)
    selected := out.selected ++ rows.map (bank, ·) }

def isRfm (c : Command) : Bool := c == .RFMab || c == .RFMsb || c == .RFMpb

/-- `on_issue`. -/
def onIssue (cfg : SamsungTRRConfig) (c : Command) (addr : AddrVec) (order : Int → List Int) (s : SamsungTRR) :
    Served K :=
  if isRfm c then
    (cfg.spec.targetBanks cfg.channelId c addr).foldl (fun out bank => processRfmForBank cfg addr order bank out)
      { state := s }
  else if c ≠ .ACT then { state := s }
  else { state := processAct cfg addr (order (cfg.spec.flatBankId addr)) s }

/-! ## The rows that are selected -/

variable {cfg : SamsungTRRConfig} {table : List (Int × Int)} {order : List Int}

/-- Rows with the highest counts of a table, as many as asked for and there are. -/
structure Selects (table : List (Int × Int)) (k : Nat) (rows : List Int) : Prop where
  length : rows.length = min k table.length
  distinct : rows.Nodup
  held : ∀ row ∈ rows, ∃ count, table.lookup row = some count
  highest : ∀ row ∈ rows, ∀ count, table.lookup row = some count → ∀ row' count',
    table.lookup row' = some count' → row' ∉ rows → count' ≤ count

theorem sorted_perm (hkeys : KeysNodup table) (order : List Int) :
    ((visit order.dedup table).insertionSort fun a b => a.2 ≥ b.2).Perm table :=
  (List.perm_insertionSort _ _).trans (hkeys.visit_perm order.nodup_dedup)

theorem selects_selected (cfg : SamsungTRRConfig) (hkeys : KeysNodup table) (order : List Int) :
    Selects table cfg.numRowsPerRfm ((selected cfg order table).map Prod.fst) := by
  have hperm := sorted_perm hkeys order
  let sorted := (visit order.dedup table).insertionSort fun a b => a.2 ≥ b.2
  let k := min cfg.numRowsPerRfm table.length
  have hsplit : sorted = sorted.take k ++ sorted.drop k := (List.take_append_drop k sorted).symm
  have hsorted : sorted.Pairwise fun a b => a.2 ≥ b.2 := by
    have : Std.Total fun a b : Int × Int => a.2 ≥ b.2 := ⟨fun a b => Int.le_total b.2 a.2⟩
    have : IsTrans (Int × Int) fun a b => a.2 ≥ b.2 := ⟨fun a b c hab hbc => Int.le_trans hbc hab⟩
    exact List.pairwise_insertionSort _ _
  have hselected : selected cfg order table = sorted.take k := rfl
  rw [hselected]
  refine ⟨?_, ?_, ?_, ?_⟩
  · rw [List.length_map, List.length_take, hperm.length_eq]
    omega
  · have hnodup : (sorted.map Prod.fst).Nodup := (hperm.map Prod.fst).nodup_iff.mpr hkeys
    exact hnodup.sublist ((List.take_sublist k sorted).map Prod.fst)
  · intro row hrow
    obtain ⟨e, he, rfl⟩ := List.mem_map.mp hrow
    exact ⟨e.2, hkeys.lookup_of_mem (hperm.mem_iff.mp (List.mem_of_mem_take he))⟩
  · intro row hrow count hcount row' count' hcount' hnot
    obtain ⟨e, he, rfl⟩ := List.mem_map.mp hrow
    have hvalue : e.2 = count := by
      have hmem := hkeys.lookup_of_mem (hperm.mem_iff.mp (List.mem_of_mem_take he))
      rw [hmem] at hcount
      exact Option.some.inj hcount
    have hmem' : (row', count') ∈ sorted := hperm.mem_iff.mpr (mem_of_lookup hcount')
    rw [hsplit, List.mem_append] at hmem'
    rcases hmem' with htake | hdrop
    · exact absurd (List.mem_map.mpr ⟨_, htake, rfl⟩) hnot
    · rw [hsplit] at hsorted
      rw [← hvalue]
      exact (List.pairwise_append.mp hsorted).2.2 e he _ hdrop

/-! ## The addresses of the refreshes -/

theorem coord_set_self {addr : AddrVec} {i : Nat} (h : i < addr.length) (v : Int) : AddrVec.coord (addr.set i v) i = v := by
  rw [AddrVec.coord, List.getD_eq_getElem?_getD, List.getElem?_set_self h]
  rfl

theorem coord_set_of_ne (addr : AddrVec) {i j : Nat} (h : i ≠ j) (v : Int) :
    AddrVec.coord (addr.set i v) j = AddrVec.coord addr j := by
  rw [AddrVec.coord, AddrVec.coord, List.getD_eq_getElem?_getD, List.getElem?_set_ne h, List.getD_eq_getElem?_getD]

theorem flatBankId_of_groups {spec : Standard} (h : spec.bankLevel = 3) (addr : AddrVec) :
    spec.flatBankId addr = (addr.coord 1 * spec.levelSize 2 + addr.coord 2) * spec.levelSize 3 + addr.coord 3 := by
  rw [Standard.flatBankId, h]
  simp [List.range_succ]

theorem flatBankId_of_banks {spec : Standard} (h : spec.bankLevel = 2) (addr : AddrVec) :
    spec.flatBankId addr = addr.coord 1 * spec.levelSize 2 + addr.coord 2 := by
  rw [Standard.flatBankId, h]
  simp [List.range_succ]

theorem bankCount_of_groups {spec : Standard} (h : spec.bankLevel = 3) :
    spec.bankCount = spec.levelSize 1 * (spec.levelSize 2 * spec.levelSize 3) := by
  rw [Standard.bankCount_eq, Standard.bankSizes, h]
  simp [List.range_succ, MixedRadix.volume]

theorem bankCount_of_banks {spec : Standard} (h : spec.bankLevel = 2) :
    spec.bankCount = spec.levelSize 1 * spec.levelSize 2 := by
  rw [Standard.bankCount_eq, Standard.bankSizes, h]
  simp [List.range_succ, MixedRadix.volume]

theorem numBanksPerRank_of_groups (h : cfg.spec.bankLevel = 3) :
    cfg.numBanksPerRank = cfg.spec.levelSize 2 * cfg.spec.levelSize 3 := by
  have hranks : (cfg.spec.levelSize 1 : Int) ≠ 0 := by
    have hpos := cfg.ranks_pos
    omega
  rw [SamsungTRRConfig.numBanksPerRank, SamsungTRRConfig.rankLevel, bankCount_of_groups h, Nat.cast_mul, Nat.cast_mul,
    Int.mul_ediv_cancel_left _ hranks]

theorem numBanksPerRank_of_banks (h : cfg.spec.bankLevel = 2) : cfg.numBanksPerRank = cfg.spec.levelSize 2 := by
  have hranks : (cfg.spec.levelSize 1 : Int) ≠ 0 := by
    have hpos := cfg.ranks_pos
    omega
  rw [SamsungTRRConfig.numBanksPerRank, SamsungTRRConfig.rankLevel, bankCount_of_banks h, Nat.cast_mul,
    Int.mul_ediv_cancel_left _ hranks]

theorem sub_ediv_mul (i n : Int) : i - i / n * n = i % n := by
  rw [Int.emod_def, Int.mul_comm]

/-- Putting a flat id together again. -/
theorem flat_of_groups (i g b : Int) : (i / (g * b) * g + i % (g * b) / b) * b + i % (g * b) % b = i := by
  have hhigh := Int.mul_ediv_add_emod i (g * b)
  have hlow := Int.mul_ediv_add_emod (i % (g * b)) b
  linear_combination hhigh + hlow

/-- The upper part of a flat id. -/
theorem ediv_range {i m n : Int} (hnonneg : 0 ≤ i) (hlt : i < m * n) (hpos : 0 < n) : 0 ≤ i / n ∧ i / n < m :=
  ⟨Int.ediv_nonneg hnonneg hpos.le, Int.ediv_lt_of_lt_mul hpos hlt⟩

/-- The lower part of a flat id. -/
theorem emod_range (i : Int) {n : Int} (hpos : 0 < n) : 0 ≤ i % n ∧ i % n < n :=
  ⟨Int.emod_nonneg i hpos.ne', Int.emod_lt_of_pos i hpos⟩

/-- The address of a `VRR` where there are bank groups. -/
theorem vrrAddr_of_groups (hgroup : cfg.bankgroupLevel = some 2) (hbank : cfg.spec.bankLevel = 3) {addr : AddrVec}
    (haddr : cfg.spec.rowLevel < addr.length) (bank row : Int) :
    let perRank : Int := cfg.spec.levelSize 2 * cfg.spec.levelSize 3
    (vrrAddr cfg addr bank row).coord 1 = bank / perRank ∧
      (vrrAddr cfg addr bank row).coord 2 = bank % perRank / cfg.spec.levelSize 3 ∧
      (vrrAddr cfg addr bank row).coord 3 = bank % perRank % cfg.spec.levelSize 3 := by
  have hrow := cfg.row_gt
  rw [hbank] at hrow
  have hrow₁ : cfg.spec.rowLevel ≠ 1 := by omega
  have hrow₂ : cfg.spec.rowLevel ≠ 2 := by omega
  have hrow₃ : cfg.spec.rowLevel ≠ 3 := by omega
  unfold vrrAddr SamsungTRRConfig.rankLevel SamsungTRRConfig.numBanksPerBankgroup
  rw [hgroup, hbank, numBanksPerRank_of_groups hbank]
  simp only [sub_ediv_mul]
  refine ⟨?_, ?_, ?_⟩
  · rw [coord_set_of_ne _ hrow₁, coord_set_of_ne _ (by decide : 3 ≠ 1), coord_set_of_ne _ (by decide : 2 ≠ 1),
      coord_set_self (by omega)]
  · rw [coord_set_of_ne _ hrow₂, coord_set_of_ne _ (by decide : 3 ≠ 2),
      coord_set_self (by rw [List.length_set]; omega)]
  · rw [coord_set_of_ne _ hrow₃, coord_set_self (by rw [List.length_set, List.length_set]; omega)]

/-- The address of a `VRR` where there are banks only. -/
theorem vrrAddr_of_banks (hgroup : cfg.bankgroupLevel = none) (hbank : cfg.spec.bankLevel = 2) {addr : AddrVec}
    (haddr : cfg.spec.rowLevel < addr.length) (bank row : Int) :
    (vrrAddr cfg addr bank row).coord 1 = bank / cfg.spec.levelSize 2 ∧
      (vrrAddr cfg addr bank row).coord 2 = bank % cfg.spec.levelSize 2 := by
  have hrow := cfg.row_gt
  rw [hbank] at hrow
  have hrow₁ : cfg.spec.rowLevel ≠ 1 := by omega
  have hrow₂ : cfg.spec.rowLevel ≠ 2 := by omega
  unfold vrrAddr SamsungTRRConfig.rankLevel
  rw [hgroup, hbank, numBanksPerRank_of_banks hbank]
  simp only [sub_ediv_mul]
  refine ⟨?_, ?_⟩
  · rw [coord_set_of_ne _ hrow₁, coord_set_of_ne _ (by decide : 2 ≠ 1), coord_set_self (by omega)]
  · rw [coord_set_of_ne _ hrow₂, coord_set_self (by rw [List.length_set]; omega)]

/-- The flat id that the address of a `VRR` stands for, and its row. -/
theorem vrrAddr_spec (cfg : SamsungTRRConfig) {addr : AddrVec} (haddr : cfg.spec.rowLevel < addr.length) (bank row : Int) :
    cfg.spec.flatBankId (vrrAddr cfg addr bank row) = bank ∧
      (vrrAddr cfg addr bank row).coord cfg.spec.rowLevel = row := by
  constructor
  · rcases cfg.levels with ⟨hgroup, hbank⟩ | ⟨hgroup, hbank⟩
    · obtain ⟨hrank, hgroup, hid⟩ := vrrAddr_of_groups hgroup hbank haddr bank row
      rw [flatBankId_of_groups hbank, hrank, hgroup, hid]
      exact flat_of_groups _ _ _
    · obtain ⟨hrank, hid⟩ := vrrAddr_of_banks hgroup hbank haddr bank row
      rw [flatBankId_of_banks hbank, hrank, hid, Int.mul_comm]
      exact Int.mul_ediv_add_emod _ _
  · unfold vrrAddr
    rcases cfg.levels with ⟨hgroup, -⟩ | ⟨hgroup, -⟩
    · rw [hgroup]
      exact coord_set_self (by simpa using haddr) row
    · rw [hgroup]
      exact coord_set_self (by simpa using haddr) row

/-- Every coordinate of the address of a `VRR` for a bank of the device lies in its range. -/
theorem vrrAddr_concrete (cfg : SamsungTRRConfig) {addr : AddrVec} (haddr : cfg.spec.rowLevel < addr.length)
    {bank : Int} (hnonneg : 0 ≤ bank) (hlt : bank < cfg.spec.bankCount) (row : Int) :
    cfg.spec.Concrete (vrrAddr cfg addr bank row) := by
  unfold Standard.Concrete
  rcases cfg.levels with ⟨hgroup, hbank⟩ | ⟨hgroup, hbank⟩
  · obtain ⟨hrank, hgroup, hid⟩ := vrrAddr_of_groups hgroup hbank haddr bank row
    rw [bankCount_of_groups hbank] at hlt
    push_cast at hlt
    -- no level is empty, for the bank exists
    have hperRank : (0 : Int) < cfg.spec.levelSize 2 * cfg.spec.levelSize 3 := by
      by_contra hzero
      have hle := Int.mul_nonpos_of_nonneg_of_nonpos (Int.natCast_nonneg (cfg.spec.levelSize 1)) (Int.not_lt.mp hzero)
      omega
    have hids : (0 : Int) < cfg.spec.levelSize 3 := pos_of_mul_pos_right hperRank (Int.natCast_nonneg _)
    obtain ⟨hlocal, hlocal_lt⟩ := emod_range bank hperRank
    intro l hl
    rw [hbank] at hl
    match l, hl with
    | 0, _ =>
        rw [hrank]
        exact ediv_range hnonneg hlt hperRank
    | 1, _ =>
        rw [hgroup]
        exact ediv_range hlocal hlocal_lt hids
    | 2, _ =>
        rw [hid]
        exact emod_range _ hids
  · obtain ⟨hrank, hid⟩ := vrrAddr_of_banks hgroup hbank haddr bank row
    rw [bankCount_of_banks hbank] at hlt
    push_cast at hlt
    have hids : (0 : Int) < cfg.spec.levelSize 2 := by
      by_contra hzero
      have hle := Int.mul_nonpos_of_nonneg_of_nonpos (Int.natCast_nonneg (cfg.spec.levelSize 1)) (Int.not_lt.mp hzero)
      omega
    intro l hl
    rw [hbank] at hl
    match l, hl with
    | 0, _ =>
        rw [hrank]
        exact ediv_range hnonneg hlt hids
    | 1, _ =>
        rw [hid]
        exact emod_range _ hids

/-- Above the rank and below the bank, the row apart, the address is that of the command. -/
theorem vrrAddr_rest (cfg : SamsungTRRConfig) (addr : AddrVec) (bank row : Int) {l : Nat}
    (hl : l = 0 ∨ cfg.spec.bankLevel < l) (hrow : l ≠ cfg.spec.rowLevel) :
    (vrrAddr cfg addr bank row).coord l = addr.coord l := by
  have hrank : SamsungTRRConfig.rankLevel ≠ l := by
    unfold SamsungTRRConfig.rankLevel
    rcases cfg.levels with ⟨-, hbank⟩ | ⟨-, hbank⟩ <;> omega
  have hbankLevel : cfg.spec.bankLevel ≠ l := by
    rcases cfg.levels with ⟨-, hbank⟩ | ⟨-, hbank⟩ <;> omega
  unfold vrrAddr
  rcases cfg.levels with ⟨hgroup, hbank⟩ | ⟨hgroup, -⟩
  · have hgroupLevel : 2 ≠ l := by omega
    rw [hgroup]
    dsimp only
    rw [coord_set_of_ne _ hrow.symm, coord_set_of_ne _ hbankLevel, coord_set_of_ne _ hgroupLevel,
      coord_set_of_ne _ hrank]
  · rw [hgroup]
    dsimp only
    rw [coord_set_of_ne _ hrow.symm, coord_set_of_ne _ hbankLevel, coord_set_of_ne _ hrank]

/-- The address of a request that answers the command at `addr` names the bank with flat id `bank`, and
no other, and the row. -/
structure Names (cfg : SamsungTRRConfig) (addr vrr : AddrVec) (bank row : Int) : Prop where
  concrete : cfg.spec.Concrete vrr
  flat : cfg.spec.flatBankId vrr = bank
  only : addr.coord 0 = -1 ∨ addr.coord 0 = cfg.channelId → ∀ i < cfg.spec.bankCount,
    (cfg.spec.bankMatches cfg.channelId i vrr = true ↔ (i : Int) = bank)
  row : vrr.coord cfg.spec.rowLevel = row
  rest : ∀ l, l = 0 ∨ cfg.spec.bankLevel < l → l ≠ cfg.spec.rowLevel → vrr.coord l = addr.coord l

theorem names_vrrAddr (cfg : SamsungTRRConfig) {addr : AddrVec} (haddr : cfg.spec.rowLevel < addr.length)
    {bank : Int} (hnonneg : 0 ≤ bank) (hlt : bank < cfg.spec.bankCount) (row : Int) :
    Names cfg addr (vrrAddr cfg addr bank row) bank row := by
  have hconcrete := vrrAddr_concrete cfg haddr hnonneg hlt row
  obtain ⟨hflat, hrow⟩ := vrrAddr_spec cfg haddr bank row
  refine ⟨hconcrete, hflat, fun hchannel i hi => ?_, hrow, fun l hl hne => vrrAddr_rest cfg addr bank row hl hne⟩
  have hzero : (vrrAddr cfg addr bank row).coord 0 = addr.coord 0 :=
    vrrAddr_rest cfg addr bank row (.inl rfl) (Nat.ne_of_lt (Nat.zero_lt_of_lt cfg.row_gt))
  rw [Standard.bankMatches_iff hi, hconcrete.selected_iff (by rwa [hzero]) hi, hflat]
  exact eq_comm

/-! ## One command -/

variable {s : SamsungTRR} {addr : AddrVec} {visits : Int → List Int} {out : Served K} {bank b : Int}

/-- The rows that a refresh-management command selects in a bank. -/
def chosen (cfg : SamsungTRRConfig) (visits : Int → List Int) (s : SamsungTRR) (bank : Int) : List Int :=
  (selected cfg (visits bank) (s.counterTable bank)).map Prod.fst

/-- The `VRR` for a selected row. -/
def request (cfg : SamsungTRRConfig) (addr : AddrVec) (p : Int × Int) : Request Command K :=
  vrrRequest (vrrAddr cfg addr p.1 p.2)

/-- What the loop over the target banks does. -/
structure Processed (cfg : SamsungTRRConfig) (addr : AddrVec) (visits : Int → List Int) (banks : List Int)
    (out out' : Served K) : Prop where
  spillover : out'.state.spilloverCounter = out.state.spilloverCounter
  targets : ∀ b ∈ banks, out'.state.counterTable b = (chosen cfg visits out.state b).foldl
    (fun m row => assign row (out.state.spilloverCounter b) m) (out.state.counterTable b)
  others : ∀ b, b ∉ banks → out'.state.counterTable b = out.state.counterTable b
  selected : out'.selected = out.selected ++ banks.flatMap fun b => (chosen cfg visits out.state b).map (b, ·)
  sends : out.sends = out.selected.map (request cfg addr) → out'.sends = out'.selected.map (request cfg addr)

theorem processed (banks : List Int) (hbanks : banks.Nodup) (out : Served K) :
    Processed cfg addr visits banks out
      (banks.foldl (fun out bank => processRfmForBank cfg addr visits bank out) out) := by
  induction banks generalizing out with
  | nil => exact ⟨rfl, nofun, fun _ _ => rfl, by simp, id⟩
  | cons bank banks ih =>
      obtain ⟨hbank, hbanks⟩ := List.nodup_cons.mp hbanks
      have hrest := ih hbanks (processRfmForBank cfg addr visits bank out)
      -- the first bank is done with, and the others are as they were
      have hother : ∀ b, b ≠ bank →
          (processRfmForBank cfg addr visits bank out).state.counterTable b = out.state.counterTable b :=
        fun b hb => Function.update_of_ne hb ..
      have hchosen : ∀ b ∈ banks,
          chosen cfg visits (processRfmForBank cfg addr visits bank out).state b = chosen cfg visits out.state b := by
        intro b hb
        unfold chosen
        rw [hother b fun heq => hbank (heq ▸ hb)]
      refine ⟨hrest.spillover, ?_, ?_, ?_, ?_⟩
      · intro b hb
        rw [List.foldl_cons]
        rcases List.mem_cons.mp hb with rfl | hb
        · rw [hrest.others b hbank]
          exact Function.update_self ..
        · rw [hrest.targets b hb, hchosen b hb, hother b fun heq => hbank (heq ▸ hb)]
          rfl
      · intro b hb
        rw [List.mem_cons, not_or] at hb
        rw [List.foldl_cons, hrest.others b hb.2, hother b hb.1]
      · rw [List.foldl_cons, hrest.selected, List.flatMap_cons, ← List.append_assoc]
        congr 1
        exact List.flatMap_congr fun b hb => by rw [hchosen b hb]
      · intro hsends
        apply hrest.sends
        unfold processRfmForBank
        dsimp only
        rw [hsends, List.map_append]
        simp only [List.map_map]
        rfl

/-- Nothing but refresh-management commands selects rows. -/
theorem onIssue_rfm {c : Command} (hc : isRfm c = true) (s : SamsungTRR) :
    Processed cfg addr visits (cfg.spec.targetBanks cfg.channelId c addr) { state := s }
      (onIssue (K := K) cfg c addr visits s) := by
  rw [onIssue, if_pos hc]
  exact processed _ (Standard.nodup_targetBanks cfg.spec cfg.channelId c addr) _

/-- The targets are banks of the device. -/
theorem isBank_of_target {c : Command} (hsingle : c.bankTarget = .single → cfg.spec.Concrete addr)
    (hb : b ∈ cfg.spec.targetBanks cfg.channelId c addr) : 0 ≤ b ∧ b < cfg.spec.bankCount := by
  have hfiltered : ∀ p : Nat → Bool, b ∈ ((List.range cfg.spec.bankCount).filter p).map Nat.cast →
      0 ≤ b ∧ b < cfg.spec.bankCount := by
    intro p hp
    obtain ⟨i, hi, rfl⟩ := List.mem_map.mp hp
    exact ⟨Int.natCast_nonneg i, Int.ofNat_lt.mpr (List.mem_range.mp (List.mem_filter.mp hi).1)⟩
  unfold Standard.targetBanks at hb
  cases htarget : c.bankTarget with
  | single =>
      rw [htarget] at hb
      have hconcrete := hsingle htarget
      obtain rfl := List.mem_singleton.mp hb
      rw [hconcrete.flatBankId_eq, Standard.bankCount_eq]
      exact ⟨Int.natCast_nonneg _, Int.ofNat_lt.mpr (MixedRadix.position_lt hconcrete.within)⟩
  | all =>
      rw [htarget] at hb
      exact hfiltered _ hb
  | sameBank =>
      rw [htarget] at hb
      exact hfiltered _ hb

/-- An activation is one sight of its row, in a table that stays within its bound. -/
theorem processAct_spec (order : List Int) (hkeys : KeysNodup (s.counterTable (cfg.spec.flatBankId addr)))
    (hroom : ((s.counterTable (cfg.spec.flatBankId addr)).length : Int) ≤ max 0 cfg.numTableEntries) :
    let bank := cfg.spec.flatBankId addr
    let s' := processAct cfg addr order s
    Counts (addr.coord cfg.spec.rowLevel) (s.counterTable bank) (s.spilloverCounter bank)
        (s'.counterTable bank) (s'.spilloverCounter bank) ∧
      ((s'.counterTable bank).length : Int) ≤ max 0 cfg.numTableEntries ∧
      s.spilloverCounter bank ≤ s'.spilloverCounter bank ∧
      ∀ b, b ≠ bank → s'.counterTable b = s.counterTable b ∧ s'.spilloverCounter b = s.spilloverCounter b := by
  intro bank s'
  have hset : ∀ m, (s.setTable bank m).counterTable bank = m := fun m => Function.update_self ..
  have hother : ∀ m b, b ≠ bank → (s.setTable bank m).counterTable b = s.counterTable b :=
    fun m b hb => Function.update_of_ne hb ..
  have hs' : s' = processAct cfg addr order s := rfl
  unfold processAct at hs'
  dsimp only at hs'
  cases hrow : (s.counterTable bank).lookup (addr.coord cfg.spec.rowLevel) with
  | some count =>
      rw [hrow] at hs'
      dsimp only at hs'
      rw [hs']
      refine ⟨?_, ?_, Int.le_refl _, fun b hb => ⟨hother _ b hb, rfl⟩⟩
      · rw [hset]
        exact .hit hrow
      · rw [hset, hkeys.length_assign_of_some hrow]
        exact hroom
  | none =>
      rw [hrow] at hs'
      dsimp only at hs'
      split at hs'
      · rename_i hlt
        rw [hs']
        refine ⟨?_, ?_, Int.le_refl _, fun b hb => ⟨hother _ b hb, rfl⟩⟩
        · rw [hset]
          exact .enter hrow
        · -- there is room for the row
          have hlength : ((s.counterTable bank).length : Int) < cfg.numTableEntries := hlt
          rw [hset, length_assign_of_none hrow]
          omega
      · split at hs'
        · rename_i evicted spill hfind
          -- it takes the place of a row that counts no more than the spillover counter
          have hspill : spill = s.spilloverCounter bank := by simpa using List.find?_some hfind
          have hevicted := lookup_of_mem_visit hkeys (List.mem_of_find?_eq_some hfind)
          rw [hspill] at hevicted hs'
          rw [hs']
          refine ⟨?_, ?_, Int.le_refl _, fun b hb => ⟨hother _ b hb, rfl⟩⟩
          · rw [hset]
            exact .replace hrow hevicted
          · rw [hset, length_replace hkeys hrow hevicted]
            exact hroom
        · rename_i hfind
          -- no row can be replaced
          have hfull : ∀ r v, (s.counterTable bank).lookup r = some v → v ≠ s.spilloverCounter bank := by
            intro r v hr
            simpa using List.find?_eq_none.mp hfind (r, v) (mem_visit order hr)
          rw [hs']
          dsimp only
          refine ⟨?_, hroom, ?_, fun b hb => ⟨rfl, Function.update_of_ne hb ..⟩⟩
          · rw [Function.update_self]
            exact .spillOver hrow hfull
          · rw [Function.update_self]
            exact Int.le.intro 1 rfl

/-! ## Runs -/

/-- A command, and what it does to the rows: how often each was activated since it was last selected. -/
def observe (cfg : SamsungTRRConfig) (p : SamsungTRR × (Int → Int → Nat))
    (issued : Command × AddrVec × (Int → List Int)) : SamsungTRR × (Int → Int → Nat) :=
  let (c, addr, visits) := issued
  let out := onIssue (K := Unit) cfg c addr visits p.1
  let bank := cfg.spec.flatBankId addr
  (out.state,
    if isRfm c then fun bank row => if (bank, row) ∈ out.selected then 0 else p.2 bank row
    else if c = .ACT then Function.update p.2 bank (see (addr.coord cfg.spec.rowLevel) (p.2 bank))
    else p.2)

/-- The state after a sequence of commands, and the activations. -/
def run (cfg : SamsungTRRConfig) (issued : List (Command × AddrVec × (Int → List Int))) :
    SamsungTRR × (Int → Int → Nat) :=
  issued.foldl (observe cfg) ({}, fun _ _ => 0)

/-- The table of a bank is bounded and counts the activations. -/
structure Inv (cfg : SamsungTRRConfig) (s : SamsungTRR) (since : Int → Int → Nat) (bank : Int) : Prop where
  room : ((s.counterTable bank).length : Int) ≤ max 0 cfg.numTableEntries
  covers : Covers (s.counterTable bank) (s.spilloverCounter bank) (since bank)
  nonneg : 0 ≤ s.spilloverCounter bank

/-- The bank of selected rows. -/
theorem mem_selected {banks : List Int} {out' : Served K} (h : Processed cfg addr visits banks { state := s } out')
    (bank row : Int) : (bank, row) ∈ out'.selected ↔ bank ∈ banks ∧ row ∈ chosen cfg visits s bank := by
  rw [h.selected, List.nil_append, List.mem_flatMap]
  constructor
  · rintro ⟨b, hb, hrow⟩
    obtain ⟨r, hr, heq⟩ := List.mem_map.mp hrow
    obtain ⟨rfl, rfl⟩ := Prod.mk.inj heq
    exact ⟨hb, hr⟩
  · rintro ⟨hb, hr⟩
    exact ⟨bank, hb, List.mem_map.mpr ⟨row, hr, rfl⟩⟩

theorem inv_observe {p : SamsungTRR × (Int → Int → Nat)} (h : ∀ bank, Inv cfg p.1 p.2 bank)
    (issued : Command × AddrVec × (Int → List Int)) (bank : Int) :
    Inv cfg (observe cfg p issued).1 (observe cfg p issued).2 bank := by
  obtain ⟨c, addr, visits⟩ := issued
  have hbank := h bank
  unfold observe
  dsimp only
  by_cases hrfm : isRfm c = true
  · have hprocessed : Processed cfg addr visits (cfg.spec.targetBanks cfg.channelId c addr) { state := p.1 }
        (onIssue (K := Unit) cfg c addr visits p.1) := onIssue_rfm hrfm p.1
    rw [if_pos hrfm]
    simp only [mem_selected hprocessed]
    by_cases hb : bank ∈ cfg.spec.targetBanks cfg.channelId c addr
    · -- the rows that are selected are in the table, so lowering them keeps its size
      have hheld := (selects_selected cfg hbank.covers.keys (visits bank)).held
      refine ⟨?_, ?_, ?_⟩
      · rw [hprocessed.targets bank hb, length_lowerAll hbank.covers.keys]
        · exact hbank.room
        · exact fun row hrow => Option.isSome_iff_exists.mpr (hheld row hrow)
      · rw [hprocessed.targets bank hb, hprocessed.spillover]
        dsimp only
        simp only [hb, true_and]
        exact hbank.covers.lowerAll hbank.nonneg _
      · rw [hprocessed.spillover]
        exact hbank.nonneg
    · refine ⟨?_, ?_, ?_⟩
      · rw [hprocessed.others bank hb]
        exact hbank.room
      · rw [hprocessed.others bank hb, hprocessed.spillover]
        dsimp only
        simp only [hb, false_and, if_false]
        exact hbank.covers
      · rw [hprocessed.spillover]
        exact hbank.nonneg
  · rw [if_neg hrfm, onIssue, if_neg hrfm]
    by_cases hact : c = .ACT
    · rw [if_pos hact, if_neg (not_not.mpr hact)]
      have htarget := h (cfg.spec.flatBankId addr)
      obtain ⟨hcounts, hroom, hgrows, hothers⟩ :=
        processAct_spec (visits (cfg.spec.flatBankId addr)) htarget.covers.keys htarget.room
      by_cases hb : bank = cfg.spec.flatBankId addr
      · rw [hb]
        refine ⟨hroom, ?_, htarget.nonneg.trans hgrows⟩
        rw [Function.update_self]
        exact htarget.covers.counts hcounts
      · obtain ⟨htable, hspill⟩ := hothers bank hb
        refine ⟨?_, ?_, ?_⟩
        · rw [htable]
          exact hbank.room
        · rw [htable, hspill, Function.update_of_ne hb]
          exact hbank.covers
        · rw [hspill]
          exact hbank.nonneg
    · rw [if_neg hact, if_pos hact]
      exact hbank

theorem inv_run (cfg : SamsungTRRConfig) (issued : List (Command × AddrVec × (Int → List Int))) (bank : Int) :
    Inv cfg (run cfg issued).1 (run cfg issued).2 bank := by
  induction issued using List.reverseRecOn generalizing bank with
  | nil =>
      refine ⟨?_, ⟨List.nodup_nil, nofun, fun _ => Int.le_refl 0⟩, Int.le_refl 0⟩
      exact Int.le_max_left 0 _
  | append_singleton issued i ih =>
      rw [run, List.foldl_concat]
      exact inv_observe ih i bank

/-- The rows of a bank among those that a notification selected. -/
def Served.rows (out : Served K) (bank : Int) : List Int :=
  (out.selected.filter fun p => p.1 = bank).map Prod.snd

theorem rows_of_processed {banks : List Int} {out' : Served K} (hbanks : banks.Nodup)
    (h : Processed cfg addr visits banks { state := s } out') (bank : Int) :
    out'.rows bank = if bank ∈ banks then chosen cfg visits s bank else [] := by
  have hown : ∀ b, (((chosen cfg visits s b).map (b, ·)).filter fun p => p.1 = bank).map Prod.snd =
      if b = bank then chosen cfg visits s b else [] := by
    intro b
    by_cases hb : b = bank
    · rw [if_pos hb, List.filter_eq_self.mpr]
      · rw [List.map_map]
        exact List.map_id _
      · intro p hp
        obtain ⟨row, -, rfl⟩ := List.mem_map.mp hp
        exact decide_eq_true hb
    · rw [if_neg hb, List.map_eq_nil_iff, List.filter_eq_nil_iff]
      intro p hp
      obtain ⟨row, -, rfl⟩ := List.mem_map.mp hp
      simpa using hb
  rw [Served.rows, h.selected, List.nil_append]
  clear h
  induction banks with
  | nil => rfl
  | cons b banks ih =>
      obtain ⟨hb, hbanks⟩ := List.nodup_cons.mp hbanks
      rw [List.flatMap_cons, List.filter_append, List.map_append, hown b, ih hbanks]
      by_cases heq : b = bank
      · rw [← heq, if_pos rfl, if_neg hb, List.append_nil, if_pos List.mem_cons_self]
      · have hiff : bank ∈ b :: banks ↔ bank ∈ banks := by
          rw [List.mem_cons]
          exact or_iff_right fun h => heq h.symm
        rw [if_neg heq, List.nil_append]
        simp only [hiff]

/-- After any sequence of activations and refresh-management commands, whatever order the hash maps are
visited in: every table is bounded, holds no row twice and counts its rows, and the spillover counter the
others, at least as often as they were activated since they were last selected. On a refresh-management
command the rows with the highest counts of every target bank are selected, and the address of each
request names that bank and that row. A command for a single bank has to name one: the source has no
table for any other. -/
theorem covers_activations (cfg : SamsungTRRConfig) (issued : List (Command × AddrVec × (Int → List Int))) :
    let s := (run cfg issued).1
    let since := (run cfg issued).2
    (∀ bank, ((s.counterTable bank).length : Int) ≤ max 0 cfg.numTableEntries ∧ KeysNodup (s.counterTable bank) ∧
      (∀ row count, (s.counterTable bank).lookup row = some count → s.spilloverCounter bank ≤ count) ∧
      ∀ row, (since bank row : Int) ≤ ((s.counterTable bank).lookup row).getD (s.spilloverCounter bank)) ∧
    ∀ c addr visits, isRfm c = true → cfg.spec.rowLevel < addr.length →
      let out := onIssue (K := K) cfg c addr visits s
      (∀ bank ∈ cfg.spec.targetBanks cfg.channelId c addr,
        Selects (s.counterTable bank) cfg.numRowsPerRfm (out.rows bank)) ∧
      (∀ bank ∉ cfg.spec.targetBanks cfg.channelId c addr, out.rows bank = []) ∧
      ((c.bankTarget = .single → cfg.spec.Concrete addr) →
        List.Forall₂ (fun r p => ∃ vrr, r = vrrRequest vrr ∧ Names cfg addr vrr p.1 p.2)
          out.sends out.selected) := by
  intro s since
  have hinv := inv_run cfg issued
  refine ⟨?_, ?_⟩
  · intro bank
    exact ⟨(hinv bank).room, (hinv bank).covers.keys, (hinv bank).covers.floor, (hinv bank).covers.covered⟩
  · intro c addr visits hc haddr out
    have hprocessed : Processed cfg addr visits (cfg.spec.targetBanks cfg.channelId c addr) { state := s } out :=
      onIssue_rfm hc s
    have hrows := rows_of_processed (Standard.nodup_targetBanks cfg.spec cfg.channelId c addr) hprocessed
    refine ⟨?_, ?_, ?_⟩
    · intro bank hbank
      rw [hrows bank, if_pos hbank]
      exact selects_selected cfg (hinv bank).covers.keys _
    · intro bank hbank
      rw [hrows bank, if_neg hbank]
    · intro hsingle
      rw [hprocessed.sends rfl, List.forall₂_map_left_iff, List.forall₂_same]
      intro p hp
      obtain ⟨hnonneg, hlt⟩ := isBank_of_target hsingle ((mem_selected hprocessed p.1 p.2).mp hp).1
      exact ⟨_, rfl, names_vrrAddr cfg haddr hnonneg hlt p.2⟩

theorem oneRow_pos : 1 ≤ 1 := Nat.le_refl 1

theorem smallRanks_pos : 0 < (RowTracker.smallVRR 16).levelSize 1 := Nat.one_pos

theorem smallRow_gt : (RowTracker.smallVRR 16).bankLevel < (RowTracker.smallVRR 16).rowLevel := Nat.lt_succ_self 3

theorem smallLevels : some 2 = some 2 ∧ (RowTracker.smallVRR 16).bankLevel = 3 ∨
    some 2 = none ∧ (RowTracker.smallVRR 16).bankLevel = 2 := .inl ⟨rfl, rfl⟩

/-- A table of two entries for each of two banks. -/
def smallSamsungTRR : SamsungTRRConfig where
  spec := RowTracker.smallVRR 16
  channelId := 0
  numTableEntries := 2
  numRowsPerRfm := 1
  bankgroupLevel := some 2
  rows_pos := oneRow_pos
  ranks_pos := smallRanks_pos
  row_gt := smallRow_gt
  levels := smallLevels

/-- Three activations of two rows, what is selected then, and the addresses of the requests. -/
theorem covers_activations_small :
    let issued := [(Command.ACT, RowTracker.smallAddr 1 5, fun _ => []), (.ACT, RowTracker.smallAddr 1 7, fun _ => []),
      (.ACT, RowTracker.smallAddr 1 7, fun _ => [])]
    let out := onIssue (K := Unit) smallSamsungTRR .RFMab [0, 0, -1, -1, -1, -1] (fun _ => [])
      (run smallSamsungTRR issued).1
    out.selected = [(1, 7)] ∧ Selects ((run smallSamsungTRR issued).1.counterTable 1) 1 (out.rows 1) ∧
      List.Forall₂ (fun r p => ∃ vrr, r = vrrRequest vrr ∧
        Names smallSamsungTRR [0, 0, -1, -1, -1, -1] vrr p.1 p.2) out.sends out.selected := by
  intro issued out
  obtain ⟨-, hrfm⟩ := covers_activations (K := Unit) smallSamsungTRR issued
  obtain ⟨hselects, -, haddresses⟩ :=
    hrfm .RFMab [0, 0, -1, -1, -1, -1] (fun _ => []) (by decide) (by decide)
  exact ⟨by decide, hselects 1 (by decide), haddresses nofun⟩

end SamsungTRR

end Ramulator.Controller
