/-
# Ramulator.Frontend.LatTpStreaming — the stream visits every cell once.

`LatTp::streaming` (`frontend/lat_tp_addresses.h`) cuts an index into a bank and a place in the bank, and moves the
place on by an offset of the bank when the rows of the banks are to be staggered. The offset is the same each time
the bank comes round. So a whole round of indices, from wherever it starts, names every bank, row and slot once, and
as many indices as there are banks name each bank once.
-/
import Ramulator.Frontend.LatencyThroughputTrace
import Ramulator.Frontend.PatternAddresses

namespace Ramulator.Frontend.LatTp

open Ramulator.Controller (AddrVec.ext_coord)
open Ramulator.Dram Ramulator.Lib
open Ramulator.Frontend.Pattern (Slots cutBanks)

/-! ## Layouts -/

/-- The counts of the bank levels. -/
def Config.counts (cfg : Config) : List Int := cfg.bankCounts.map fun n : Nat => (n : Int)

/-- A layout that `init` makes: each bank level, the row and the column have a place of their own. -/
structure Config.Layout (cfg : Config) : Prop where
  slots : Slots cfg.addrVecSize cfg.rowPos cfg.colPos cfg.bankPositions cfg.counts
  units : cfg.totalBankUnits = cfg.bankCounts.prod
  rows_pos : 1 ≤ cfg.numRows
  cls_pos : 1 ≤ cfg.streamCls
  prefetch_pos : 1 ≤ cfg.internalPrefetchSize

/-- The bank coordinates of a vector. -/
def bankCoords (cfg : Config) (av : AddrVec) : List Int := cfg.bankPositions.map fun p => av.coord p

/-- A vector whose bank and row are in range and whose column is that of a slot, and which is zero elsewhere. -/
structure Cell (cfg : Config) (av : AddrVec) : Prop where
  length : av.length = cfg.addrVecSize
  bank : List.Forall₂ (fun (n : Nat) (x : Int) => 0 ≤ x ∧ x < n) cfg.bankCounts (bankCoords cfg av)
  row : 0 ≤ av.coord cfg.rowPos ∧ av.coord cfg.rowPos < cfg.numRows
  column : ∃ slot : Nat, slot < cfg.streamCls ∧ av.coord cfg.colPos = (slot * cfg.internalPrefetchSize : Nat)
  rest : ∀ j < cfg.addrVecSize, j ∉ cfg.bankPositions → j ≠ cfg.rowPos → j ≠ cfg.colPos → av.coord j = 0

variable {cfg : Config} {av av' : AddrVec}

theorem Config.Layout.counts_pos (h : cfg.Layout) : ∀ n ∈ cfg.bankCounts, 0 < n := fun n hn =>
  Int.natCast_pos.mp (h.slots.counts_pos n (List.mem_map_of_mem hn))

theorem Config.counts_toNat (cfg : Config) : cfg.counts.map Int.toNat = cfg.bankCounts := by
  unfold Config.counts
  rw [List.map_map]
  exact List.map_id _

theorem volume_eq_prod (rs : List Nat) : MixedRadix.volume rs = rs.prod := by
  induction rs with
  | nil => rfl
  | cons r rs ih => rw [List.prod_cons, ← ih]; rfl

theorem Config.Layout.units_eq (h : cfg.Layout) : cfg.totalBankUnits = MixedRadix.volume cfg.bankCounts.reverse := by
  rw [MixedRadix.volume_perm (List.reverse_perm cfg.bankCounts), volume_eq_prod, h.units]

theorem Config.Layout.units_pos (h : cfg.Layout) : 0 < cfg.totalBankUnits := by
  rw [h.units_eq]
  exact MixedRadix.volume_pos fun n hn => h.counts_pos n (List.mem_reverse.mp hn)

/-- A vector of the layout is known by its banks, its row and its column. -/
theorem Cell.ext (hv : Cell cfg av) (hv' : Cell cfg av') (hbank : bankCoords cfg av = bankCoords cfg av')
    (hrow : av.coord cfg.rowPos = av'.coord cfg.rowPos) (hcolumn : av.coord cfg.colPos = av'.coord cfg.colPos) :
    av = av' := by
  refine AddrVec.ext_coord (hv.length.trans hv'.length.symm) fun j hj => ?_
  have hj : j < cfg.addrVecSize := hv.length ▸ hj
  by_cases hmem : j ∈ cfg.bankPositions
  · exact List.map_inj_left.mp hbank j hmem
  · rcases eq_or_ne j cfg.rowPos with rfl | hjrow
    · exact hrow
    · rcases eq_or_ne j cfg.colPos with rfl | hjcolumn
      · exact hcolumn
      · rw [hv.rest j hj hmem hjrow hjcolumn, hv'.rest j hj hmem hjrow hjcolumn]

/-! ## An index in two steps -/

/-- How far the rows of a bank are moved on, in slots. -/
def stagger (cfg : Config) (flat : Nat) : Nat :=
  if cfg.staggerStreamRows ∧ cfg.streamCls > 0 then
    let banksPerPhase := (cfg.totalBankUnits + cfg.streamCls - 1) / cfg.streamCls
    if cfg.totalBankUnits ≤ cfg.streamCls then flat * cfg.streamCls / cfg.totalBankUnits
    else flat / banksPerPhase % cfg.streamCls
  else 0

/-- The bank of an index, and the place there, counted in slots over all rows. -/
def place (cfg : Config) : Nat → Nat × Nat :=
  MixedRadix.skew cfg.totalBankUnits (cfg.streamCls * cfg.numRows) (stagger cfg)

/-- The vector of a place. -/
def cellAt (cfg : Config) (p : Nat × Nat) : AddrVec :=
  ((cutBanks (cfg.bankPositions.zip cfg.counts).reverse (List.replicate cfg.addrVecSize 0, (p.1 : Int))).1.set
    cfg.rowPos (p.2 / cfg.streamCls : Nat)).set cfg.colPos (p.2 % cfg.streamCls * cfg.internalPrefetchSize : Nat)

/-- The loop over the banks, in the integers of the machine. -/
theorem foldl_banks (ps : List (Nat × Nat)) (av : AddrVec) (flat : Nat) :
    (ps.foldl (fun (acc : AddrVec × Nat) p => (acc.1.set p.1 (acc.2 % p.2 : Nat), acc.2 / p.2)) (av, flat)).1 =
      (cutBanks (ps.map fun p => (p.1, (p.2 : Int))) (av, (flat : Int))).1 := by
  induction ps generalizing av flat with
  | nil => rfl
  | cons p ps ih =>
      rw [List.foldl_cons, ih, Int.natCast_mod, Int.natCast_div]
      rfl

theorem streamingAddrVec_eq (cfg : Config) (idx : Nat) : streamingAddrVec cfg idx = cellAt cfg (place cfg idx) := by
  have hzip : (cfg.bankPositions.zip cfg.counts).reverse =
      (cfg.bankPositions.zip cfg.bankCounts).reverse.map fun p => (p.1, (p.2 : Int)) := by
    unfold Config.counts
    rw [List.zip_map_right, List.map_reverse]
    rfl
  unfold cellAt
  rw [hzip, ← foldl_banks]
  show (List.set _ _ _).set _ _ = (List.set _ _ _).set _ _
  -- the place keeps of the slot what the row and the column need
  have hrow : ∀ slot : Nat, slot / cfg.streamCls % cfg.numRows =
      slot % (cfg.streamCls * cfg.numRows) / cfg.streamCls := fun slot => (Nat.mod_mul_right_div_self _ _ _).symm
  have hcolumn : ∀ slot : Nat, slot % cfg.streamCls = slot % (cfg.streamCls * cfg.numRows) % cfg.streamCls :=
    fun slot => (Nat.mod_mul_right_mod _ _ _).symm
  rw [hrow, hcolumn]
  rfl

/-! ## Every cell once -/

/-- The coordinates of the vector of a place. -/
theorem cellAt_spec (h : cfg.Layout) (p : Nat × Nat) :
    (cellAt cfg p).length = cfg.addrVecSize ∧
      bankCoords cfg (cellAt cfg p) =
        (MixedRadix.digits cfg.bankCounts.reverse p.1).reverse.map (fun d : Nat => (d : Int)) ∧
      (cellAt cfg p).coord cfg.rowPos = (p.2 / cfg.streamCls : Nat) ∧
      (cellAt cfg p).coord cfg.colPos = (p.2 % cfg.streamCls * cfg.internalPrefetchSize : Nat) ∧
      ∀ j < cfg.addrVecSize, j ∉ cfg.bankPositions → j ≠ cfg.rowPos → j ≠ cfg.colPos → (cellAt cfg p).coord j = 0 := by
  have hplaced := h.slots.placed_spec p.1 (p.2 / cfg.streamCls : Nat)
    (p.2 % cfg.streamCls * cfg.internalPrefetchSize : Nat) (v := cellAt cfg p) rfl
  rw [cfg.counts_toNat] at hplaced
  exact hplaced

/-- Banks in range, with the digits that stand for them. -/
theorem forall₂_range_iff {ns : List Nat} {xs : List Int} :
    List.Forall₂ (fun (n : Nat) (x : Int) => 0 ≤ x ∧ x < n) ns xs ↔
      ∃ ds : List Nat, MixedRadix.Within ns ds ∧ xs = ds.map fun d : Nat => (d : Int) := by
  constructor
  · intro h
    induction h with
    | nil => exact ⟨[], .nil, rfl⟩
    | @cons n x ns xs hx _ ih =>
        obtain ⟨ds, hds, rfl⟩ := ih
        obtain ⟨d, rfl⟩ := Int.eq_ofNat_of_zero_le hx.1
        exact ⟨d :: ds, .cons (Int.ofNat_lt.mp hx.2) hds, rfl⟩
  · rintro ⟨ds, hds, rfl⟩
    induction hds with
    | nil => exact .nil
    | cons hd _ ih => exact .cons ⟨Int.natCast_nonneg _, Int.ofNat_lt.mpr hd⟩ ih

/-- Distinct banks have distinct coordinates. -/
theorem bankCoords_injOn (h : cfg.Layout) (slot slot' : Nat) {flat flat' : Nat} (hflat : flat < cfg.totalBankUnits)
    (hflat' : flat' < cfg.totalBankUnits)
    (heq : bankCoords cfg (cellAt cfg (flat, slot)) = bankCoords cfg (cellAt cfg (flat', slot'))) : flat = flat' := by
  obtain ⟨-, hbank, -⟩ := cellAt_spec h (flat, slot)
  obtain ⟨-, hbank', -⟩ := cellAt_spec h (flat', slot')
  rw [hbank, hbank'] at heq
  have hdigits := List.reverse_injective (List.map_injective_iff.mpr (fun a b hab => Int.ofNat.inj hab) heq)
  rw [h.units_eq] at hflat hflat'
  calc flat = MixedRadix.value cfg.bankCounts.reverse (MixedRadix.digits cfg.bankCounts.reverse flat) :=
        (MixedRadix.value_digits hflat).symm
    _ = MixedRadix.value cfg.bankCounts.reverse (MixedRadix.digits cfg.bankCounts.reverse flat') := by rw [hdigits]
    _ = flat' := MixedRadix.value_digits hflat'

theorem cellAt_cell (h : cfg.Layout) {p : Nat × Nat} (hslot : p.2 < cfg.streamCls * cfg.numRows) :
    Cell cfg (cellAt cfg p) := by
  obtain ⟨hlength, hbank, hrow, hcolumn, hrest⟩ := cellAt_spec h p
  have hdigits := MixedRadix.within_digits (fun n hn => h.counts_pos n (List.mem_reverse.mp hn)) p.1
  refine ⟨hlength, ?_, ?_, ⟨_, Nat.mod_lt _ h.cls_pos, hcolumn⟩, hrest⟩
  · refine forall₂_range_iff.mpr ⟨_, MixedRadix.within_reverse.mp ?_, hbank⟩
    rw [List.reverse_reverse]
    exact hdigits
  · rw [hrow]
    exact ⟨Int.natCast_nonneg _, Int.ofNat_lt.mpr (Nat.div_lt_of_lt_mul hslot)⟩

/-- The places stand for the cells, each for one. -/
theorem cellAt_bijOn (h : cfg.Layout) :
    Set.BijOn (cellAt cfg) {p | p.1 < cfg.totalBankUnits ∧ p.2 < cfg.streamCls * cfg.numRows} {av | Cell cfg av} := by
  refine ⟨fun p hp => cellAt_cell h hp.2, fun p hp p' hp' heq => ?_, fun av hav => ?_⟩
  · have hbank : p.1 = p'.1 :=
      bankCoords_injOn h p.2 p'.2 hp.1 hp'.1 (congrArg (bankCoords cfg) heq)
    obtain ⟨-, -, hrow, hcolumn, -⟩ := cellAt_spec h p
    obtain ⟨-, -, hrow', hcolumn', -⟩ := cellAt_spec h p'
    rw [heq] at hrow hcolumn
    have hdiv : p.2 / cfg.streamCls = p'.2 / cfg.streamCls := Int.ofNat.inj (hrow.symm.trans hrow')
    have hmod : p.2 % cfg.streamCls = p'.2 % cfg.streamCls :=
      Nat.eq_of_mul_eq_mul_right h.prefetch_pos (Int.ofNat.inj (hcolumn.symm.trans hcolumn'))
    refine Prod.ext hbank ?_
    rw [← Nat.div_add_mod p.2 cfg.streamCls, hdiv, hmod, Nat.div_add_mod]
  · obtain ⟨ds, hds, hbank⟩ := forall₂_range_iff.mp hav.bank
    obtain ⟨slot, hslot, hcolumn⟩ := hav.column
    obtain ⟨row, hrow⟩ := Int.eq_ofNat_of_zero_le hav.row.1
    have hrowlt : row < cfg.numRows := by
      have hlt := hav.row.2
      rw [hrow] at hlt
      exact Int.ofNat_lt.mp hlt
    have hreverse := MixedRadix.within_reverse.mpr hds
    have hflat : MixedRadix.value cfg.bankCounts.reverse ds.reverse < cfg.totalBankUnits := by
      rw [h.units_eq]
      exact MixedRadix.value_lt hreverse
    have hplace : slot + cfg.streamCls * row < cfg.streamCls * cfg.numRows := by
      calc slot + cfg.streamCls * row < cfg.streamCls + cfg.streamCls * row := Nat.add_lt_add_right hslot _
        _ = cfg.streamCls * (row + 1) := (Nat.add_comm _ _).trans (Nat.mul_succ _ _).symm
        _ ≤ cfg.streamCls * cfg.numRows := Nat.mul_le_mul_left _ hrowlt
    refine ⟨(MixedRadix.value cfg.bankCounts.reverse ds.reverse, slot + cfg.streamCls * row), ⟨hflat, hplace⟩, ?_⟩
    obtain ⟨-, hbankAt, hrowAt, hcolumnAt, -⟩ :=
      cellAt_spec h (MixedRadix.value cfg.bankCounts.reverse ds.reverse, slot + cfg.streamCls * row)
    refine (cellAt_cell h hplace).ext hav ?_ ?_ ?_
    · rw [hbankAt, MixedRadix.digits_value hreverse, List.reverse_reverse, hbank]
    · rw [hrowAt, hrow]
      show ((_ : Nat) : Int) = _
      rw [Nat.add_mul_div_left _ _ h.cls_pos, Nat.div_eq_of_lt hslot, Nat.zero_add]
    · rw [hcolumnAt, hcolumn]
      show ((_ : Nat) : Int) = _
      rw [Nat.add_mul_mod_self_left, Nat.mod_eq_of_lt hslot]

/-- From any start, as many indices as there are cells visit each cell once, staggered or not; and as many indices
as there are banks visit each bank once. -/
theorem streaming_visits (cfg : Config) (h : cfg.Layout) (s : Nat) :
    Set.BijOn (streamingAddrVec cfg)
        {idx | s ≤ idx ∧ idx < s + cfg.totalBankUnits * cfg.numRows * cfg.streamCls} {av | Cell cfg av} ∧
      Set.InjOn (fun idx => bankCoords cfg (streamingAddrVec cfg idx))
        {idx | s ≤ idx ∧ idx < s + cfg.totalBankUnits} := by
  have hstream : streamingAddrVec cfg = cellAt cfg ∘ place cfg := funext (streamingAddrVec_eq cfg)
  constructor
  · rw [hstream, Nat.mul_assoc, Nat.mul_comm cfg.numRows]
    exact (cellAt_bijOn h).comp
      (MixedRadix.skew_bijOn_window h.units_pos (Nat.mul_pos h.cls_pos h.rows_pos) (stagger cfg) s)
  · intro idx hidx idx' hidx' heq
    rw [hstream] at heq
    have hmod := bankCoords_injOn h _ _ (Nat.mod_lt idx h.units_pos) (Nat.mod_lt idx' h.units_pos) heq
    exact (MixedRadix.mod_bijOn_window h.units_pos s).injOn hidx hidx' hmod

/-- Six banks of two levels over four slots in each of two rows, with the rows staggered. -/
def sixBanks : Config where
  addrVecSize := 5
  bankPositions := [1, 2]
  bankCounts := [2, 3]
  totalBankUnits := 6
  rowPos := 3
  colPos := 4
  numRows := 2
  internalPrefetchSize := 8
  numCls := 4
  streamCls := 4
  staggerStreamRows := true
  nopCounter := 0
  txBytes := 64

theorem sixBanks_layout : sixBanks.Layout where
  slots :=
    { length_counts := by decide, positions_nodup := by decide, positions_lt := by decide, row_lt := by decide,
      column_lt := by decide, row_not_mem := by decide, column_not_mem := by decide, row_ne_column := by decide,
      counts_pos := by decide }
  units := by decide
  rows_pos := by decide
  cls_pos := by decide
  prefetch_pos := by decide

theorem streaming_visits_sixBanks :
    Set.BijOn (streamingAddrVec sixBanks) {idx | 100 ≤ idx ∧ idx < 100 + 6 * 2 * 4} {av | Cell sixBanks av} ∧
      Set.InjOn (fun idx => bankCoords sixBanks (streamingAddrVec sixBanks idx)) {idx | 100 ≤ idx ∧ idx < 100 + 6} :=
  streaming_visits sixBanks sixBanks_layout 100

end Ramulator.Frontend.LatTp
