/-
# Ramulator.Frontend.PatternAddresses — the addresses of a generated pattern, in the integers of the machine.

Each function of the generator that computes with `int` has a form here that has no result where one of its
steps overflows (`readAddrVec?` and so on). For a recipe whose numbers fit and a stream that keeps to its part of
the memory it has a result, which is the one that `SyntheticPattern` has.

A vector that `compose` makes of a bank, a row and a cache line in range holds the digits of the bank, so that its
flat address stands for it alone. Reads and writes of a stream have different rows, and streams with parts of
their own have different banks.
-/
import Ramulator.Frontend.SyntheticPattern
import Ramulator.Controller.AddrDecode
import Ramulator.Lib.CInt
import Mathlib.Algebra.Order.Ring.Int
import Mathlib.Tactic.Ring

namespace Ramulator.Frontend.Pattern

open Ramulator.Base (Request)
open Ramulator.Controller (AddrVec.coord_set)
open Ramulator.Dram Ramulator.Lib

/-! ## With overflows -/

namespace StreamConfig

variable (sc : StreamConfig)

/-- `static_cast<int>(hash_of(st, i, salt) % n)`, for a positive `n`. -/
def draw? (i : Nat) (salt : UInt64) (n : Int) : Option Int :=
  if 0 < n then CInt.narrow 32 (sc.draw i salt n) else none

/-- `jitter_of`. -/
def jitterOf? (ax : Axes) (i : Nat) : Option Int :=
  if ax.jitter > 0 then do
    let n ← CInt.add 32 ax.jitter 1
    sc.draw? i 2 n
  else some 0

end StreamConfig

namespace Recipe

variable (rc : Recipe) (sc : StreamConfig)

/-- `compose`. -/
def compose? (flatBank row cl : Int) : Option AddrVec := do
  let flatBank ← CInt.mod 32 flatBank rc.totalBankUnits
  let row ← CInt.mod 32 row rc.numRows
  let banks ← (rc.bankPositions.zip rc.bankCounts).reverse.foldlM (fun (acc : AddrVec × Int) p => do
    let digit ← CInt.mod 32 acc.2 p.2
    let rest ← CInt.div 32 acc.2 p.2
    pure (acc.1.set p.1 digit, rest)) (List.replicate rc.addrVecSize 0, flatBank)
  let column ← CInt.mul 32 cl rc.internalPrefetchSize
  pure ((banks.1.set rc.rowPos row).set rc.colPos column)

def bankOf? (ax : Axes) (i : Nat) : Option Int :=
  if ax.bankRandom then sc.draw? i 4 ax.bankSpread else CInt.mod 32 i ax.bankSpread

def region? : Option Int := do
  let half ← CInt.div 32 rc.rowsPerStream 2
  pure (max half 1)

/-- The row of a read in its half-region: the turn through banks and lines decides it, or a draw for that turn and
the bank. -/
def readRow? (ax : Axes) (turn bank region : Int) : Option Int :=
  if ax.rowRandom then do
    let first ← CInt.mul 32 turn ax.bankSpread
    let index ← CInt.add 32 first bank
    sc.draw? index.toNat 5 region
  else CInt.mod 32 turn region

/-- `read_addr_vec`. -/
def readAddrVec? (ax : Axes) (i : Nat) : Option AddrVec := do
  let bank ← bankOf? sc ax i
  let p ← CInt.div 32 i ax.bankSpread
  let cl ← CInt.mod 32 p ax.rowRun
  let region ← rc.region?
  let turn ← CInt.div 32 p ax.rowRun
  let row ← readRow? sc ax turn bank region
  let flatBank ← CInt.add 32 sc.bankBase bank
  let flatRow ← CInt.add 32 sc.rowBase row
  rc.compose? flatBank flatRow cl

def writeBank? (ax : Axes) (bank : Int) : Option Int :=
  if ax.wbMode = 3 then CInt.add 32 bank ax.bankSpread else some bank

/-- `write_addr_vec`. -/
def writeAddrVec? (ax : Axes) (i : Nat) : Option AddrVec := do
  let bank ← bankOf? sc ax i
  let bank ← writeBank? ax bank
  let p ← CInt.div 32 i ax.bankSpread
  let cl ← CInt.mod 32 p ax.rowRun
  let region ← rc.region?
  let turn ← CInt.div 32 p ax.rowRun
  let row ← CInt.mod 32 turn region
  let row ← CInt.add 32 row region
  let flatBank ← CInt.add 32 sc.bankBase bank
  let flatRow ← CInt.add 32 sc.rowBase row
  rc.compose? flatBank flatRow cl

/-- The address of `make_request`: the number of the bank is an `int`, the rest has 64 bits. -/
def flatAddr? (av : AddrVec) : Option Int := do
  let bankFlat ← (rc.bankPositions.zip rc.bankCounts).foldlM (fun acc p => do
    let high ← CInt.mul 32 acc p.2
    CInt.add 32 high (av.coord p.1)) 0
  let cls ← CInt.div 32 (av.coord rc.colPos) rc.internalPrefetchSize
  let rows ← CInt.mul 64 bankFlat rc.numRows
  let banks ← CInt.mul 64 rows rc.numCls
  let row ← CInt.mul 64 (av.coord rc.rowPos) rc.numCls
  let lines ← CInt.add 64 banks row
  CInt.add 64 lines cls

/-! ## Recipes -/

/-- The radices of the banks, the slowest one first. -/
def counts : List Nat := rc.bankCounts.map Int.toNat

/-- The numbers of a recipe fit, and its places are different coordinates of a vector. -/
structure Formed : Prop where
  length_counts : rc.bankCounts.length = rc.bankPositions.length
  positions_nodup : rc.bankPositions.Nodup
  positions_lt : ∀ p ∈ rc.bankPositions, p < rc.addrVecSize
  row_lt : rc.rowPos < rc.addrVecSize
  column_lt : rc.colPos < rc.addrVecSize
  row_not_mem : rc.rowPos ∉ rc.bankPositions
  column_not_mem : rc.colPos ∉ rc.bankPositions
  row_ne_column : rc.rowPos ≠ rc.colPos
  counts_pos : ∀ n ∈ rc.bankCounts, 0 < n
  total_eq : rc.totalBankUnits = MixedRadix.volume rc.counts
  total_fits : CInt.Fits 32 rc.totalBankUnits
  rows_pos : 0 < rc.numRows
  rows_fits : CInt.Fits 32 rc.numRows
  cls_pos : 0 < rc.numCls
  prefetch_pos : 0 < rc.internalPrefetchSize
  column_fits : ∀ cl : Int, 0 ≤ cl → cl < rc.numCls → CInt.Fits 32 (cl * rc.internalPrefetchSize)
  cells_fit : rc.totalBankUnits * rc.numRows * rc.numCls < 2 ^ 63
  rowsPerStream_nonneg : 0 ≤ rc.rowsPerStream
  rowsPerStream_fits : CInt.Fits 32 rc.rowsPerStream

/-- The coordinates of a vector are in range, and those that the recipe does not name are zero. -/
structure InRange (av : AddrVec) : Prop where
  length : av.length = rc.addrVecSize
  banks : List.Forall₂ (fun p n => 0 ≤ av.coord p ∧ av.coord p < n) rc.bankPositions rc.bankCounts
  row : 0 ≤ av.coord rc.rowPos ∧ av.coord rc.rowPos < rc.numRows
  column : ∃ cl, 0 ≤ cl ∧ cl < rc.numCls ∧ av.coord rc.colPos = cl * rc.internalPrefetchSize
  others : ∀ j < rc.addrVecSize, j ∉ rc.bankPositions → j ≠ rc.rowPos → j ≠ rc.colPos → av.coord j = 0

/-- The cell of a vector: bank, row and column. -/
def cell (av : AddrVec) : List Int × Int × Int :=
  (rc.bankPositions.map fun p => av.coord p, av.coord rc.rowPos, av.coord rc.colPos)

end Recipe

/-! ## Digits of a bank -/

section Digits

variable {ps : List (Nat × Int)} {av : AddrVec}

def radices (ps : List (Nat × Int)) : List Nat := ps.map fun p => p.2.toNat

/-- The loop of `compose`: the digits go to the places. -/
def cutBanks (ps : List (Nat × Int)) (acc : AddrVec × Int) : AddrVec × Int :=
  ps.foldl (fun (acc : AddrVec × Int) p => (acc.1.set p.1 (acc.2 % p.2), acc.2 / p.2)) acc

/-- Cutting a bank leaves its digits at the places, and nothing else changes. -/
theorem cut_spec (hpos : ∀ p ∈ ps, 0 < p.2) (hnodup : (ps.map Prod.fst).Nodup) (hlt : ∀ p ∈ ps, p.1 < av.length)
    (x : Nat) :
    (cutBanks ps (av, (x : Int))).1.length = av.length ∧
      (∀ j, j ∉ ps.map Prod.fst → (cutBanks ps (av, (x : Int))).1.coord j = av.coord j) ∧
      (ps.map fun p => (cutBanks ps (av, (x : Int))).1.coord p.1) =
        (MixedRadix.digits (radices ps) x).map fun d : Nat => (d : Int) := by
  induction ps generalizing av x with
  | nil => exact ⟨rfl, fun _ _ => rfl, rfl⟩
  | cons p ps ih =>
      obtain ⟨hp, hnodup⟩ := List.nodup_cons.mp hnodup
      have hroom : p.1 < av.length := hlt p List.mem_cons_self
      have hradix : ((p.2.toNat : Nat) : Int) = p.2 := Int.toNat_of_nonneg (hpos p List.mem_cons_self).le
      have hmod : (x : Int) % p.2 = ((x % p.2.toNat : Nat) : Int) := by
        rw [Int.natCast_mod, hradix]
      have hdiv : (x : Int) / p.2 = ((x / p.2.toNat : Nat) : Int) := by
        rw [Int.natCast_div, hradix]
      have hstep : cutBanks (p :: ps) (av, (x : Int)) =
          cutBanks ps (av.set p.1 ((x % p.2.toNat : Nat) : Int), ((x / p.2.toNat : Nat) : Int)) := by
        rw [← hmod, ← hdiv]
        rfl
      rw [hstep]
      have hkept : ∀ q ∈ ps, q.1 < (av.set p.1 ((x % p.2.toNat : Nat) : Int)).length := fun q hq => by
        rw [List.length_set]
        exact hlt q (List.mem_cons_of_mem _ hq)
      obtain ⟨hlength, hothers, hdigits⟩ :=
        ih (fun q hq => hpos q (List.mem_cons_of_mem _ hq)) hnodup hkept (x / p.2.toNat)
      refine ⟨by rw [hlength, List.length_set], fun j hj => ?_, ?_⟩
      · rw [List.map_cons, List.mem_cons, not_or] at hj
        rw [hothers j hj.2, AddrVec.coord_set hroom, if_neg (Ne.symm hj.1)]
      · -- the digit of `p` is not written again
        rw [List.map_cons, hothers p.1 hp, AddrVec.coord_set hroom, if_pos rfl, hdigits]
        rfl

/-- Cutting a bank that fits does not overflow. -/
theorem cut_checked (hpos : ∀ p ∈ ps, 0 < p.2) {x : Int} (hx : 0 ≤ x) (hfits : CInt.Fits 32 x) :
    ps.foldlM (fun (acc : AddrVec × Int) p => do
      let digit ← CInt.mod 32 acc.2 p.2
      let rest ← CInt.div 32 acc.2 p.2
      pure (acc.1.set p.1 digit, rest)) (av, x) = some (cutBanks ps (av, x)) := by
  induction ps generalizing av x with
  | nil => rfl
  | cons p ps ih =>
      have hp := hpos p List.mem_cons_self
      rw [List.foldlM_cons, CInt.mod_eq hx hfits hp, CInt.div_eq hx hfits hp]
      exact ih (fun q hq => hpos q (List.mem_cons_of_mem _ hq)) (Int.ediv_nonneg hx hp.le)
        (hfits.of_le (Int.ediv_nonneg hx hp.le) (Int.ediv_le_self _ hx))

/-- The number of a bank, from its digits. -/
theorem join_spec {ds : List Nat} (h : List.Forall₂ (fun p d => av.coord p.1 = (d : Nat) ∧ (d : Int) < p.2) ps ds)
    (a : Nat) :
    ps.foldl (fun acc p => acc * p.2 + av.coord p.1) (a : Int) =
      ((a * MixedRadix.volume (radices ps) + MixedRadix.position (radices ps) ds : Nat) : Int) := by
  induction h generalizing a with
  | nil =>
      show (a : Int) = ((a * 1 + 0 : Nat) : Int)
      rw [Nat.mul_one, Nat.add_zero]
  | @cons p d ps ds hd hrest ih =>
      have hradix : ((p.2.toNat : Nat) : Int) = p.2 :=
        Int.toNat_of_nonneg ((Int.natCast_nonneg d).trans hd.2.le)
      have hacc : (a : Int) * p.2 + av.coord p.1 = ((a * p.2.toNat + d : Nat) : Int) := by
        rw [Nat.cast_add, Nat.cast_mul, hradix, hd.1]
      have hlen : ds.length = (radices ps).length := by
        rw [← hrest.length_eq]
        exact (List.length_map ..).symm
      rw [List.foldl_cons, hacc, ih]
      show _ = ((a * (p.2.toNat * MixedRadix.volume (radices ps)) +
        MixedRadix.position (p.2.toNat :: radices ps) (d :: ds) : Nat) : Int)
      rw [MixedRadix.position_cons hlen]
      congr 1
      ring

theorem volume_radices_pos (hpos : ∀ p ∈ ps, 0 < p.2) : 0 < MixedRadix.volume (radices ps) := by
  refine MixedRadix.volume_pos fun r hr => ?_
  obtain ⟨p, hp, rfl⟩ := List.mem_map.mp hr
  exact Int.pos_iff_toNat_pos.mp (hpos p hp)

/-- Putting a bank together does not overflow if all banks fit. -/
theorem join_checked (hpos : ∀ p ∈ ps, 0 < p.2) {ds : List Nat}
    (h : List.Forall₂ (fun p d => av.coord p.1 = (d : Nat) ∧ (d : Int) < p.2) ps ds) {a : Nat}
    (hfits : (a + 1) * MixedRadix.volume (radices ps) ≤ 2 ^ 31) :
    ps.foldlM (fun acc p => do
      let high ← CInt.mul 32 acc p.2
      CInt.add 32 high (av.coord p.1)) (a : Int) =
      some (ps.foldl (fun acc p => acc * p.2 + av.coord p.1) (a : Int)) := by
  induction h generalizing a with
  | nil => rfl
  | @cons p d ps ds hd hrest ih =>
      have hradix : ((p.2.toNat : Nat) : Int) = p.2 :=
        Int.toNat_of_nonneg ((Int.natCast_nonneg d).trans hd.2.le)
      have hsmaller : (a * p.2.toNat + d + 1) * MixedRadix.volume (radices ps) ≤ 2 ^ 31 := by
        have hdigit : d + 1 ≤ p.2.toNat := by omega
        calc (a * p.2.toNat + d + 1) * MixedRadix.volume (radices ps)
            ≤ (a * p.2.toNat + p.2.toNat) * MixedRadix.volume (radices ps) :=
              Nat.mul_le_mul_right _ (by omega)
          _ = (a + 1) * (p.2.toNat * MixedRadix.volume (radices ps)) := by ring
          _ ≤ 2 ^ 31 := hfits
      have htotal : a * p.2.toNat + d + 1 ≤ 2 ^ 31 :=
        (Nat.le_mul_of_pos_right _ (volume_radices_pos fun q hq => hpos q (List.mem_cons_of_mem _ hq))).trans hsmaller
      have hsum : CInt.Fits 32 ((a * p.2.toNat + d : Nat) : Int) := CInt.fits_32.mpr (by omega)
      have hhigh : CInt.Fits 32 ((a * p.2.toNat : Nat) : Int) :=
        hsum.of_le (Int.natCast_nonneg _) (by exact_mod_cast Nat.le_add_right _ _)
      have hmul : (a : Int) * p.2 = ((a * p.2.toNat : Nat) : Int) := by
        rw [Nat.cast_mul, hradix]
      have hadd : ((a * p.2.toNat : Nat) : Int) + av.coord p.1 = ((a * p.2.toNat + d : Nat) : Int) := by
        rw [hd.1, ← Nat.cast_add]
      rw [List.foldlM_cons, List.foldl_cons, CInt.mul_eq (hmul ▸ hhigh), hmul]
      show (CInt.add 32 _ _ >>= fun acc => _) = _
      rw [CInt.add_eq (hadd ▸ hsum), hadd]
      exact ih (fun q hq => hpos q (List.mem_cons_of_mem _ hq)) hsmaller

/-- The places of a vector: those of the bank levels, each with its count, that of the row and that of the column. -/
structure Slots (size rowPos colPos : Nat) (positions : List Nat) (counts : List Int) : Prop where
  length_counts : positions.length = counts.length
  positions_nodup : positions.Nodup
  positions_lt : ∀ p ∈ positions, p < size
  row_lt : rowPos < size
  column_lt : colPos < size
  row_not_mem : rowPos ∉ positions
  column_not_mem : colPos ∉ positions
  row_ne_column : rowPos ≠ colPos
  counts_pos : ∀ n ∈ counts, 0 < n

/-- What a vector holds into which a bank, a row and a column were written. -/
theorem Slots.placed_spec {size rowPos colPos : Nat} {positions : List Nat} {counts : List Int}
    (h : Slots size rowPos colPos positions counts) (flat : Nat) (row column : Int) {v : AddrVec}
    (hv : v = ((cutBanks (positions.zip counts).reverse (List.replicate size 0, (flat : Int))).1.set rowPos row).set
      colPos column) :
    v.length = size ∧
      (positions.map fun p => v.coord p) =
        (MixedRadix.digits (counts.map Int.toNat).reverse flat).reverse.map (fun d : Nat => (d : Int)) ∧
      v.coord rowPos = row ∧ v.coord colPos = column ∧
      ∀ j < size, j ∉ positions → j ≠ rowPos → j ≠ colPos → v.coord j = 0 := by
  subst hv
  have hfst : (positions.zip counts).map Prod.fst = positions := List.map_fst_zip h.length_counts.le
  have hsnd : (positions.zip counts).map Prod.snd = counts := List.map_snd_zip h.length_counts.ge
  have hroom : ∀ p ∈ (positions.zip counts).reverse, p.1 < (List.replicate size (0 : Int)).length := fun p hp => by
    rw [List.length_replicate]
    exact h.positions_lt p.1 (List.of_mem_zip (List.mem_reverse.mp hp)).1
  obtain ⟨hlength, hothers, hdigits⟩ :=
    cut_spec (fun p hp => h.counts_pos p.2 (List.of_mem_zip (List.mem_reverse.mp hp)).2)
      (by rw [List.map_reverse, hfst]; exact List.nodup_reverse.mpr h.positions_nodup) hroom flat
  rw [List.map_reverse, hfst] at hothers
  rw [List.length_replicate] at hlength
  generalize cutBanks (positions.zip counts).reverse (List.replicate size 0, (flat : Int)) = banks
    at hlength hothers hdigits ⊢
  have hrow : rowPos < banks.1.length := hlength ▸ h.row_lt
  have hcolumn : colPos < (banks.1.set rowPos row).length := by
    rw [List.length_set, hlength]
    exact h.column_lt
  refine ⟨by rw [List.length_set, List.length_set, hlength], ?_, ?_, ?_, fun j hlt hj hjrow hjcolumn => ?_⟩
  · -- the row and the column are written to other places
    have hkept : (positions.map fun p => AddrVec.coord ((banks.1.set rowPos row).set colPos column) p) =
        positions.map fun p => banks.1.coord p := by
      refine List.map_congr_left fun p hp => ?_
      have hnotcolumn : colPos ≠ p := fun heq => h.column_not_mem (heq ▸ hp)
      have hnotrow : rowPos ≠ p := fun heq => h.row_not_mem (heq ▸ hp)
      rw [AddrVec.coord_set hcolumn, if_neg hnotcolumn, AddrVec.coord_set hrow, if_neg hnotrow]
    have hreverse : ((positions.zip counts).reverse.map fun p => banks.1.coord p.1) =
        (positions.map fun p => banks.1.coord p).reverse := by
      rw [List.map_reverse]
      congr 1
      conv_rhs => rw [← hfst, List.map_map]
      rfl
    have hradices : radices (positions.zip counts).reverse = (counts.map Int.toNat).reverse := by
      unfold radices
      rw [List.map_reverse]
      conv_rhs => rw [← hsnd, List.map_map]
      rfl
    rw [hreverse, hradices, List.reverse_eq_iff, ← List.map_reverse] at hdigits
    rw [hkept, hdigits]
  · rw [AddrVec.coord_set hcolumn, if_neg h.row_ne_column.symm, AddrVec.coord_set hrow, if_pos rfl]
  · rw [AddrVec.coord_set hcolumn, if_pos rfl]
  · rw [AddrVec.coord_set hcolumn, if_neg (Ne.symm hjcolumn), AddrVec.coord_set hrow, if_neg (Ne.symm hjrow),
      hothers j (by rwa [List.mem_reverse])]
    unfold AddrVec.coord
    rw [List.getD_eq_getElem _ _ (by rw [List.length_replicate]; exact hlt), List.getElem_replicate]

end Digits

/-! ## Places -/

namespace Recipe

variable {rc : Recipe} {flatBank row cl : Int}

theorem Formed.map_fst_zip (h : rc.Formed) : (rc.bankPositions.zip rc.bankCounts).map Prod.fst = rc.bankPositions :=
  List.map_fst_zip h.length_counts.ge

theorem Formed.radices_zip (h : rc.Formed) : radices (rc.bankPositions.zip rc.bankCounts) = rc.counts := by
  show (rc.bankPositions.zip rc.bankCounts).map (Int.toNat ∘ Prod.snd) = _
  rw [← List.map_map, List.map_snd_zip h.length_counts.le]
  rfl

theorem Formed.zip_pos (h : rc.Formed) : ∀ p ∈ rc.bankPositions.zip rc.bankCounts, 0 < p.2 := fun p hp =>
  h.counts_pos p.2 (List.of_mem_zip hp).2

theorem Formed.total_pos (h : rc.Formed) : 0 < rc.totalBankUnits := by
  rw [h.total_eq, ← h.radices_zip]
  exact_mod_cast volume_radices_pos h.zip_pos

/-- A bank, a row and a cache line in range. -/
structure Place (rc : Recipe) (flatBank row cl : Int) : Prop where
  bank_nonneg : 0 ≤ flatBank
  bank_lt : flatBank < rc.totalBankUnits
  row_nonneg : 0 ≤ row
  row_lt : row < rc.numRows
  cl_nonneg : 0 ≤ cl
  cl_lt : cl < rc.numCls

/-- The digits of a bank, the slowest one first. -/
def bankDigits (rc : Recipe) (flatBank : Int) : List Nat :=
  (MixedRadix.digits rc.counts.reverse flatBank.toNat).reverse

theorem Formed.position_bankDigits (h : rc.Formed) (hpos : 0 ≤ flatBank) (hlt : flatBank < rc.totalBankUnits) :
    ((MixedRadix.position rc.counts (rc.bankDigits flatBank) : Nat) : Int) = flatBank := by
  unfold MixedRadix.position bankDigits
  rw [List.reverse_reverse, MixedRadix.value_digits]
  · exact Int.toNat_of_nonneg hpos
  · rw [MixedRadix.volume_perm (List.reverse_perm rc.counts)]
    have htotal := h.total_eq
    omega

theorem Formed.within_bankDigits (h : rc.Formed) (flatBank : Int) :
    MixedRadix.Within rc.counts (rc.bankDigits flatBank) := by
  refine MixedRadix.within_reverse.mp ?_
  unfold bankDigits
  rw [List.reverse_reverse]
  refine MixedRadix.within_digits (fun r hr => ?_) _
  obtain ⟨n, hn, rfl⟩ := List.mem_map.mp (List.mem_reverse.mp hr)
  exact Int.pos_iff_toNat_pos.mp (h.counts_pos n hn)

theorem Formed.slots (h : rc.Formed) : Slots rc.addrVecSize rc.rowPos rc.colPos rc.bankPositions rc.bankCounts where
  length_counts := h.length_counts.symm
  positions_nodup := h.positions_nodup
  positions_lt := h.positions_lt
  row_lt := h.row_lt
  column_lt := h.column_lt
  row_not_mem := h.row_not_mem
  column_not_mem := h.column_not_mem
  row_ne_column := h.row_ne_column
  counts_pos := h.counts_pos

theorem Formed.compose_eq (hplace : rc.Place flatBank row cl) :
    rc.compose flatBank row cl =
      ((cutBanks (rc.bankPositions.zip rc.bankCounts).reverse (List.replicate rc.addrVecSize 0, flatBank)).1.set
        rc.rowPos row).set rc.colPos (cl * rc.internalPrefetchSize) := by
  unfold compose
  rw [Int.emod_eq_of_lt hplace.bank_nonneg hplace.bank_lt, Int.emod_eq_of_lt hplace.row_nonneg hplace.row_lt]
  rfl

/-- What a vector holds that is made for a place. -/
theorem Formed.compose_spec (h : rc.Formed) (hplace : rc.Place flatBank row cl) :
    (rc.compose flatBank row cl).length = rc.addrVecSize ∧
      (rc.bankPositions.map fun p => (rc.compose flatBank row cl).coord p) =
        (rc.bankDigits flatBank).map (fun d : Nat => (d : Int)) ∧
      (rc.compose flatBank row cl).coord rc.rowPos = row ∧
      (rc.compose flatBank row cl).coord rc.colPos = cl * rc.internalPrefetchSize ∧
      ∀ j < rc.addrVecSize, j ∉ rc.bankPositions → j ≠ rc.rowPos → j ≠ rc.colPos →
        (rc.compose flatBank row cl).coord j = 0 := by
  obtain ⟨flat, rfl⟩ := Int.eq_ofNat_of_zero_le hplace.bank_nonneg
  exact h.slots.placed_spec flat row (cl * rc.internalPrefetchSize) (Formed.compose_eq hplace)

theorem Formed.compose_checked (h : rc.Formed) (hplace : rc.Place flatBank row cl) :
    rc.compose? flatBank row cl = some (rc.compose flatBank row cl) := by
  have hbank : CInt.Fits 32 flatBank := h.total_fits.of_le hplace.bank_nonneg hplace.bank_lt.le
  have hrow : CInt.Fits 32 row := h.rows_fits.of_le hplace.row_nonneg hplace.row_lt.le
  unfold compose?
  rw [CInt.mod_eq hplace.bank_nonneg hbank h.total_pos, CInt.mod_eq hplace.row_nonneg hrow h.rows_pos,
    Int.emod_eq_of_lt hplace.bank_nonneg hplace.bank_lt, Int.emod_eq_of_lt hplace.row_nonneg hplace.row_lt,
    Option.bind_eq_bind, Option.bind_some, Option.bind_eq_bind, Option.bind_some,
    cut_checked (fun p hp => h.zip_pos p (List.mem_reverse.mp hp)) hplace.bank_nonneg hbank,
    CInt.mul_eq (h.column_fits cl hplace.cl_nonneg hplace.cl_lt), Formed.compose_eq hplace]
  rfl

/-- The digits of a vector that is made for a place, against the counts. -/
theorem Formed.digits_compose (h : rc.Formed) (hplace : rc.Place flatBank row cl) :
    List.Forall₂ (fun p d => (rc.compose flatBank row cl).coord p.1 = (d : Nat) ∧ (d : Int) < p.2)
      (rc.bankPositions.zip rc.bankCounts) (rc.bankDigits flatBank) := by
  obtain ⟨-, hdigits, -⟩ := h.compose_spec hplace
  have hwithin := h.within_bankDigits flatBank
  generalize rc.compose flatBank row cl = av at hdigits
  generalize rc.bankDigits flatBank = ds at hdigits hwithin
  unfold counts at hwithin
  generalize rc.bankPositions = ps at hdigits
  generalize rc.bankCounts = ns at hwithin
  induction ns generalizing ps ds with
  | nil =>
      cases hwithin
      rw [List.zip_nil_right]
      exact .nil
  | cons n ns ih =>
      cases hwithin with
      | cons hd hrest =>
          cases ps with
          | nil => cases hdigits
          | cons p ps =>
              obtain ⟨hhead, htail⟩ := List.cons_eq_cons.mp hdigits
              exact .cons ⟨hhead, Int.lt_toNat.mp hd⟩ (ih _ ps htail hrest)

theorem Formed.inRange_compose (h : rc.Formed) (hplace : rc.Place flatBank row cl) :
    rc.InRange (rc.compose flatBank row cl) := by
  obtain ⟨hlength, -, hrow, hcolumn, hothers⟩ := h.compose_spec hplace
  refine ⟨hlength, ?_, ?_, ⟨cl, hplace.cl_nonneg, hplace.cl_lt, hcolumn⟩, hothers⟩
  · have hdigits := h.digits_compose hplace
    have hlen := h.length_counts
    generalize rc.compose flatBank row cl = av at hdigits
    generalize rc.bankDigits flatBank = ds at hdigits
    generalize rc.bankPositions = ps at hdigits hlen
    generalize rc.bankCounts = ns at hdigits hlen
    induction ps generalizing ns ds with
    | nil =>
        rw [List.length_nil, List.length_eq_zero_iff] at hlen
        rw [hlen]
        exact .nil
    | cons p ps ih =>
        cases ns with
        | nil => cases hlen
        | cons n ns =>
            cases hdigits with
            | cons hd hrest =>
                exact .cons ⟨hd.1 ▸ Int.natCast_nonneg _, hd.1 ▸ hd.2⟩ (ih _ _ hrest (Nat.succ.inj hlen))
  · rw [hrow]
    exact ⟨hplace.row_nonneg, hplace.row_lt⟩

/-- The address of a place, as a number without bounds. -/
def lineOf (rc : Recipe) (flatBank row cl : Int) : Int := flatBank * rc.numRows * rc.numCls + row * rc.numCls + cl

/-- The parts of the address of a place lie between zero and it, and it is below the number of cells. -/
theorem Formed.lineOf_bounds (h : rc.Formed) (hplace : rc.Place flatBank row cl) :
    (0 ≤ flatBank * rc.numRows ∧ flatBank * rc.numRows ≤ flatBank * rc.numRows * rc.numCls) ∧
      0 ≤ row * rc.numCls ∧ rc.lineOf flatBank row cl < rc.totalBankUnits * rc.numRows * rc.numCls := by
  have hbank := hplace.bank_lt
  have hrow := hplace.row_lt
  have hcl := hplace.cl_lt
  have hrows : 0 ≤ flatBank * rc.numRows := Int.mul_nonneg hplace.bank_nonneg h.rows_pos.le
  refine ⟨⟨hrows, le_mul_of_one_le_right hrows h.cls_pos⟩, Int.mul_nonneg hplace.row_nonneg h.cls_pos.le, ?_⟩
  have hline : flatBank * rc.numRows + row + 1 ≤ rc.totalBankUnits * rc.numRows :=
    calc flatBank * rc.numRows + row + 1 ≤ flatBank * rc.numRows + rc.numRows := by omega
      _ = (flatBank + 1) * rc.numRows := by ring
      _ ≤ rc.totalBankUnits * rc.numRows := Int.mul_le_mul_of_nonneg_right hbank h.rows_pos.le
  calc rc.lineOf flatBank row cl = (flatBank * rc.numRows + row) * rc.numCls + cl := by
        unfold lineOf
        ring
    _ < (flatBank * rc.numRows + row) * rc.numCls + rc.numCls := by omega
    _ = (flatBank * rc.numRows + row + 1) * rc.numCls := by ring
    _ ≤ rc.totalBankUnits * rc.numRows * rc.numCls := Int.mul_le_mul_of_nonneg_right hline h.cls_pos.le

/-- The flat address of a place, and that nothing overflows on the way to it. -/
theorem Formed.flatAddr_compose (h : rc.Formed) (hplace : rc.Place flatBank row cl) (type : Int) (sourceId : Nat)
    (callback : Callback) :
    (rc.makeRequest (rc.compose flatBank row cl) type sourceId callback).addr =
        rc.lineOf flatBank row cl ∧
      rc.flatAddr? (rc.compose flatBank row cl) =
        some (rc.makeRequest (rc.compose flatBank row cl) type sourceId callback).addr := by
  obtain ⟨-, -, hrow, hcolumn, -⟩ := h.compose_spec hplace
  have hdigits := h.digits_compose hplace
  have hcls : (rc.compose flatBank row cl).coord rc.colPos / rc.internalPrefetchSize = cl := by
    rw [hcolumn]
    exact Int.mul_ediv_cancel _ h.prefetch_pos.ne'
  have hjoin : (rc.bankPositions.zip rc.bankCounts).foldl
      (fun acc p => acc * p.2 + (rc.compose flatBank row cl).coord p.1) 0 = flatBank := by
    have hspec := join_spec hdigits 0
    rw [h.radices_zip, Nat.zero_mul, Nat.zero_add, h.position_bankDigits hplace.bank_nonneg hplace.bank_lt] at hspec
    exact hspec
  have haddr : (rc.makeRequest (rc.compose flatBank row cl) type sourceId callback).addr =
      rc.lineOf flatBank row cl := by
    unfold makeRequest lineOf
    dsimp only
    rw [hjoin, hrow, hcls]
  refine ⟨haddr, ?_⟩
  have hfold : (rc.bankPositions.zip rc.bankCounts).foldlM (fun acc p => do
      let high ← CInt.mul 32 acc p.2
      CInt.add 32 high ((rc.compose flatBank row cl).coord p.1)) 0 = some flatBank := by
    have hfits : (0 + 1) * MixedRadix.volume (radices (rc.bankPositions.zip rc.bankCounts)) ≤ 2 ^ 31 := by
      have htotal := h.total_eq
      have hlast := (CInt.fits_32.mp h.total_fits).2
      rw [h.radices_zip]
      omega
    have hchecked := join_checked h.zip_pos hdigits hfits
    rw [Nat.cast_zero, hjoin] at hchecked
    exact hchecked
  have hcolumnFits := h.column_fits cl hplace.cl_nonneg hplace.cl_lt
  have hcolumnNonneg : 0 ≤ cl * rc.internalPrefetchSize := Int.mul_nonneg hplace.cl_nonneg h.prefetch_pos.le
  obtain ⟨⟨hrows, hrowsle⟩, hrowLine, hlt⟩ := h.lineOf_bounds hplace
  have hcells := h.cells_fit
  have hcl := hplace.cl_nonneg
  have hfits : CInt.Fits 64 (rc.lineOf flatBank row cl) := by
    refine CInt.fits_64.mpr ?_
    unfold lineOf at hlt ⊢
    omega
  rw [haddr]
  unfold flatAddr?
  rw [hfold, Option.bind_eq_bind, Option.bind_some, hrow, hcolumn,
    CInt.div_eq hcolumnNonneg hcolumnFits h.prefetch_pos, Int.mul_ediv_cancel _ h.prefetch_pos.ne',
    CInt.mul_eq (hfits.of_le hrows (by unfold lineOf; omega)), CInt.mul_eq (hfits.of_le hrowLine (by unfold lineOf; omega))]
  simp only [Option.bind_some]
  rw [CInt.mul_eq (hfits.of_le (hrows.trans hrowsle) (by unfold lineOf; omega))]
  simp only [Option.bind_some]
  rw [CInt.add_eq (hfits.of_le (by omega) (by unfold lineOf; omega))]
  exact CInt.add_eq hfits

/-- Different places have different addresses. -/
theorem Formed.lineOf_inj (h : rc.Formed) {flatBank' row' cl' : Int} (hplace : rc.Place flatBank row cl)
    (hplace' : rc.Place flatBank' row' cl') (heq : rc.lineOf flatBank row cl = rc.lineOf flatBank' row' cl') :
    flatBank = flatBank' ∧ row = row' ∧ cl = cl' := by
  have hform (b r c : Int) : rc.lineOf b r c = c + (r + b * rc.numRows) * rc.numCls := by
    unfold lineOf
    ring
  rw [hform, hform] at heq
  have hcl : cl = cl' := by
    have hmod := congrArg (· % rc.numCls) heq
    simp only [Int.add_mul_emod_self_right] at hmod
    rwa [Int.emod_eq_of_lt hplace.cl_nonneg hplace.cl_lt, Int.emod_eq_of_lt hplace'.cl_nonneg hplace'.cl_lt] at hmod
  have hlines : row + flatBank * rc.numRows = row' + flatBank' * rc.numRows :=
    mul_right_cancel₀ h.cls_pos.ne' (by rw [hcl] at heq; exact add_left_cancel heq)
  have hrow : row = row' := by
    have hmod := congrArg (· % rc.numRows) hlines
    simp only [Int.add_mul_emod_self_right] at hmod
    rwa [Int.emod_eq_of_lt hplace.row_nonneg hplace.row_lt, Int.emod_eq_of_lt hplace'.row_nonneg hplace'.row_lt]
      at hmod
  refine ⟨mul_right_cancel₀ h.rows_pos.ne' ?_, hrow, hcl⟩
  rw [hrow] at hlines
  exact add_left_cancel hlines

/-- Different banks have different digits. -/
theorem Formed.bank_inj (h : rc.Formed) {flatBank' row' cl' : Int} (hplace : rc.Place flatBank row cl)
    (hplace' : rc.Place flatBank' row' cl')
    (heq : (rc.bankPositions.map fun p => (rc.compose flatBank row cl).coord p) =
      rc.bankPositions.map fun p => (rc.compose flatBank' row' cl').coord p) : flatBank = flatBank' := by
  rw [(h.compose_spec hplace).2.1, (h.compose_spec hplace').2.1] at heq
  have hdigits : rc.bankDigits flatBank = rc.bankDigits flatBank' :=
    List.map_injective_iff.mpr (fun _ _ hcast => Int.ofNat.inj hcast) heq
  rw [← h.position_bankDigits hplace.bank_nonneg hplace.bank_lt, hdigits,
    h.position_bankDigits hplace'.bank_nonneg hplace'.bank_lt]

end Recipe

/-! ## Streams -/

/-- The axes of a regime keep to a stream's part of the memory. -/
structure Axes.Formed (ax : Axes) (banks numCls numRequests : Int) : Prop where
  spread_pos : 0 < ax.bankSpread
  spread_le : ax.bankSpread ≤ banks
  split : ax.wbMode = 3 → 2 * ax.bankSpread ≤ banks
  run_pos : 0 < ax.rowRun
  run_le : ax.rowRun ≤ numCls
  jitter_fits : CInt.Fits 32 (ax.jitter + 1)
  index_fits : CInt.Fits 32 (numRequests + ax.bankSpread - 2)

/-- A stream has its part of the memory, and keeps to it in both regimes. -/
structure StreamConfig.Formed (sc : StreamConfig) (rc : Recipe) (banks : Int) : Prop where
  a : sc.a.Formed banks rc.numCls sc.numRequests
  b : sc.b.Formed banks rc.numCls sc.numRequests
  bankBase_nonneg : 0 ≤ sc.bankBase
  banks_le : sc.bankBase + banks ≤ rc.totalBankUnits
  rowBase_nonneg : 0 ≤ sc.rowBase
  rows_le : sc.rowBase + 2 * rc.region ≤ rc.numRows
  requests_fit : CInt.Fits 32 sc.numRequests

namespace StreamConfig

variable {sc : StreamConfig} {n : Int}

theorem draw_bounds (sc : StreamConfig) (i : Nat) (salt : UInt64) (hn : 0 < n) :
    0 ≤ sc.draw i salt n ∧ sc.draw i salt n < n := by
  unfold draw
  have hlt := Nat.mod_lt (sc.hashOf i salt).toNat (Int.pos_iff_toNat_pos.mp hn)
  omega

theorem draw_checked (sc : StreamConfig) (i : Nat) (salt : UInt64) (hn : 0 < n) (hfits : CInt.Fits 32 n) :
    sc.draw? i salt n = some (sc.draw i salt n) := by
  obtain ⟨hpos, hlt⟩ := sc.draw_bounds i salt hn
  unfold draw?
  rw [if_pos hn]
  exact CInt.narrow_eq (hfits.of_le hpos hlt.le)

theorem jitterOf_checked (sc : StreamConfig) {ax : Axes} (h : CInt.Fits 32 (ax.jitter + 1)) (i : Nat) :
    sc.jitterOf? ax i = some (sc.jitterOf ax i) := by
  unfold jitterOf? jitterOf
  split_ifs with hpos
  · rw [CInt.add_eq h]
    exact sc.draw_checked i 2 (by omega) h
  · rfl

end StreamConfig

namespace Recipe

variable {rc : Recipe} {sc : StreamConfig} {ax ax' : Axes} {banks : Int} {i : Nat}

theorem region_pos (rc : Recipe) : 0 < rc.region := lt_of_lt_of_le one_pos (le_max_right _ _)

theorem Formed.region_checked (h : rc.Formed) : rc.region? = some rc.region := by
  unfold region?
  rw [CInt.div_eq h.rowsPerStream_nonneg h.rowsPerStream_fits (by decide)]
  rfl

theorem Formed.region_fits (h : rc.Formed) : CInt.Fits 32 rc.region := by
  have hrows := CInt.fits_32.mp h.rowsPerStream_fits
  have hnonneg := h.rowsPerStream_nonneg
  refine CInt.fits_32.mpr ?_
  unfold region
  omega

theorem bankOf_bounds (sc : StreamConfig) {ax : Axes} (hspread : 0 < ax.bankSpread) (i : Nat) :
    0 ≤ bankOf sc ax i ∧ bankOf sc ax i < ax.bankSpread := by
  unfold bankOf
  split_ifs with hrandom
  · exact sc.draw_bounds i 4 hspread
  · exact ⟨Int.emod_nonneg _ hspread.ne', Int.emod_lt_of_pos _ hspread⟩

/-- The quotients of an index by which bank, line and row are chosen. -/
theorem quotients (hax : ax.Formed banks rc.numCls sc.numRequests) (hi : i < sc.numRequests)
    (hfits : CInt.Fits 32 sc.numRequests) :
    CInt.Fits 32 (i : Int) ∧ 0 ≤ (i : Int) / ax.bankSpread ∧ CInt.Fits 32 ((i : Int) / ax.bankSpread) ∧
      0 ≤ (i : Int) / ax.bankSpread / ax.rowRun ∧ CInt.Fits 32 ((i : Int) / ax.bankSpread / ax.rowRun) ∧
      (i : Int) / ax.bankSpread / ax.rowRun * ax.bankSpread ≤ i := by
  have hindex : CInt.Fits 32 (i : Int) := hfits.of_le (Int.natCast_nonneg i) hi.le
  have hp : 0 ≤ (i : Int) / ax.bankSpread := Int.ediv_nonneg (Int.natCast_nonneg i) hax.spread_pos.le
  have hturn : 0 ≤ (i : Int) / ax.bankSpread / ax.rowRun := Int.ediv_nonneg hp hax.run_pos.le
  have hple : (i : Int) / ax.bankSpread ≤ i := Int.ediv_le_self _ (Int.natCast_nonneg i)
  have hturnle : (i : Int) / ax.bankSpread / ax.rowRun ≤ (i : Int) / ax.bankSpread := Int.ediv_le_self _ hp
  refine ⟨hindex, hp, hindex.of_le hp hple, hturn, hindex.of_le hturn (hturnle.trans hple), ?_⟩
  calc (i : Int) / ax.bankSpread / ax.rowRun * ax.bankSpread ≤ (i : Int) / ax.bankSpread * ax.bankSpread :=
        Int.mul_le_mul_of_nonneg_right hturnle hax.spread_pos.le
    _ ≤ i := Int.ediv_mul_le _ hax.spread_pos.ne'

theorem bankOf_checked (hax : ax.Formed banks rc.numCls sc.numRequests) (hi : i < sc.numRequests)
    (hfits : CInt.Fits 32 sc.numRequests) (hspread : CInt.Fits 32 ax.bankSpread) :
    bankOf? sc ax i = some (bankOf sc ax i) := by
  unfold bankOf? bankOf
  split_ifs with hrandom
  · exact sc.draw_checked i 4 hax.spread_pos hspread
  · exact CInt.mod_eq (Int.natCast_nonneg i) (quotients hax hi hfits).1 hax.spread_pos

/-- A vector for a bank and a line of a stream, and a row of the given half of its region. -/
def At (rc : Recipe) (sc : StreamConfig) (banks low high : Int) (av : AddrVec) : Prop :=
  ∃ bank row cl, av = rc.compose (sc.bankBase + bank) (sc.rowBase + row) cl ∧ (0 ≤ bank ∧ bank < banks) ∧
    (low ≤ row ∧ row < high) ∧ 0 ≤ cl ∧ cl < rc.numCls

/-- The place of a vector of a stream. -/
theorem place_of_bounds (hsc : sc.Formed rc banks) {bank row cl : Int} (hbank : 0 ≤ bank ∧ bank < banks)
    (hrow : 0 ≤ row ∧ row < 2 * rc.region) (hcl : 0 ≤ cl ∧ cl < rc.numCls) :
    rc.Place (sc.bankBase + bank) (sc.rowBase + row) cl := by
  have hbanks := hsc.banks_le
  have hbase := hsc.bankBase_nonneg
  have hrows := hsc.rows_le
  have hrowBase := hsc.rowBase_nonneg
  exact ⟨by omega, by omega, by omega, by omega, hcl.1, hcl.2⟩

/-- `compose` for a bank and a row of a stream, with the sums before it. -/
theorem Formed.compose_sums (h : rc.Formed) {flatBank row cl : Int} (hplace : rc.Place flatBank row cl)
    {base bank rowBase place : Int} (hbank : base + bank = flatBank) (hrow : rowBase + place = row) :
    (do
      let flatBank ← CInt.add 32 base bank
      let flatRow ← CInt.add 32 rowBase place
      rc.compose? flatBank flatRow cl) = some (rc.compose flatBank row cl) := by
  subst hbank hrow
  rw [CInt.add_eq (h.total_fits.of_le hplace.bank_nonneg hplace.bank_lt.le)]
  simp only [Option.bind_eq_bind, Option.bind_some]
  rw [CInt.add_eq (h.rows_fits.of_le hplace.row_nonneg hplace.row_lt.le)]
  exact h.compose_checked hplace

/-- A read has its place in the first half of the stream's region, and nothing overflows on the way to it. -/
theorem Formed.readAddrVec_spec (h : rc.Formed) (hsc : sc.Formed rc banks)
    (hax : ax.Formed banks rc.numCls sc.numRequests) (hi : i < sc.numRequests) :
    rc.readAddrVec? sc ax i = some (rc.readAddrVec sc ax i) ∧
      rc.At sc banks 0 rc.region (rc.readAddrVec sc ax i) := by
  obtain ⟨hindex, hp, hpfits, hturn, hturnfits, hfirst⟩ := quotients hax hi hsc.requests_fit
  have hbank := bankOf_bounds sc hax.spread_pos i
  have hbanks := hsc.banks_le
  have hbase := hsc.bankBase_nonneg
  have hspread := hax.spread_le
  have hspreadFits : CInt.Fits 32 ax.bankSpread := h.total_fits.of_le hax.spread_pos.le (by omega)
  have hregion := rc.region_pos
  have hcl : 0 ≤ (i : Int) / ax.bankSpread % ax.rowRun ∧ (i : Int) / ax.bankSpread % ax.rowRun < rc.numCls :=
    ⟨Int.emod_nonneg _ hax.run_pos.ne', (Int.emod_lt_of_pos _ hax.run_pos).trans_le hax.run_le⟩
  have hrow : ∃ row,
      readRow? sc ax ((i : Int) / ax.bankSpread / ax.rowRun) (bankOf sc ax i) rc.region = some row ∧
      row = (if ax.rowRandom = true then
        sc.draw ((i : Int) / ax.bankSpread / ax.rowRun * ax.bankSpread + bankOf sc ax i).toNat 5 rc.region
        else (i : Int) / ax.bankSpread / ax.rowRun % rc.region) ∧ 0 ≤ row ∧ row < rc.region := by
    unfold readRow?
    split_ifs with hrandom
    · have hproduct : 0 ≤ (i : Int) / ax.bankSpread / ax.rowRun * ax.bankSpread :=
        Int.mul_nonneg hturn hax.spread_pos.le
      rw [CInt.mul_eq (hindex.of_le hproduct hfirst)]
      simp only [Option.bind_eq_bind, Option.bind_some]
      rw [CInt.add_eq (hax.index_fits.of_le (by omega) (by omega))]
      exact ⟨_, sc.draw_checked _ 5 hregion h.region_fits, rfl, sc.draw_bounds _ 5 hregion⟩
    · exact ⟨_, CInt.mod_eq hturn hturnfits hregion, rfl, Int.emod_nonneg _ hregion.ne',
        Int.emod_lt_of_pos _ hregion⟩
  obtain ⟨row, hchecked, hvalue, hlow, hhigh⟩ := hrow
  have hplace : rc.Place (sc.bankBase + bankOf sc ax i) (sc.rowBase + row) ((i : Int) / ax.bankSpread % ax.rowRun) :=
    place_of_bounds hsc ⟨hbank.1, hbank.2.trans_le hspread⟩ ⟨hlow, by omega⟩ hcl
  have hread : rc.readAddrVec sc ax i =
      rc.compose (sc.bankBase + bankOf sc ax i) (sc.rowBase + row) ((i : Int) / ax.bankSpread % ax.rowRun) := by
    rw [hvalue]
    rfl
  refine ⟨?_, _, row, _, hread, ⟨hbank.1, hbank.2.trans_le hspread⟩, ⟨hlow, hhigh⟩, hcl⟩
  unfold readAddrVec?
  rw [bankOf_checked hax hi hsc.requests_fit hspreadFits, CInt.div_eq (Int.natCast_nonneg i) hindex hax.spread_pos,
    h.region_checked]
  simp only [Option.bind_eq_bind, Option.bind_some]
  rw [CInt.mod_eq hp hpfits hax.run_pos, CInt.div_eq hp hpfits hax.run_pos]
  simp only [Option.bind_some]
  rw [hchecked, hread]
  exact h.compose_sums hplace rfl rfl

/-- A write has its place in the other half. -/
theorem Formed.writeAddrVec_spec (h : rc.Formed) (hsc : sc.Formed rc banks)
    (hax : ax.Formed banks rc.numCls sc.numRequests) (hi : i < sc.numRequests) :
    rc.writeAddrVec? sc ax i = some (rc.writeAddrVec sc ax i) ∧
      rc.At sc banks rc.region (2 * rc.region) (rc.writeAddrVec sc ax i) := by
  obtain ⟨hindex, hp, hpfits, hturn, hturnfits, -⟩ := quotients hax hi hsc.requests_fit
  have hbank := bankOf_bounds sc hax.spread_pos i
  have hbanks := hsc.banks_le
  have hbase := hsc.bankBase_nonneg
  have hspread := hax.spread_le
  have hspreadFits : CInt.Fits 32 ax.bankSpread := h.total_fits.of_le hax.spread_pos.le (by omega)
  have hregion := rc.region_pos
  have hcl : 0 ≤ (i : Int) / ax.bankSpread % ax.rowRun ∧ (i : Int) / ax.bankSpread % ax.rowRun < rc.numCls :=
    ⟨Int.emod_nonneg _ hax.run_pos.ne', (Int.emod_lt_of_pos _ hax.run_pos).trans_le hax.run_le⟩
  have hrow : 0 ≤ (i : Int) / ax.bankSpread / ax.rowRun % rc.region ∧
      (i : Int) / ax.bankSpread / ax.rowRun % rc.region < rc.region :=
    ⟨Int.emod_nonneg _ hregion.ne', Int.emod_lt_of_pos _ hregion⟩
  have hshift : ∃ bank, writeBank? ax (bankOf sc ax i) = some bank ∧
      bank = (if ax.wbMode = 3 then bankOf sc ax i + ax.bankSpread else bankOf sc ax i) ∧ 0 ≤ bank ∧ bank < banks := by
    unfold writeBank?
    split_ifs with hmode
    · have hsplit := hax.split hmode
      exact ⟨_, CInt.add_eq (h.total_fits.of_le (by omega) (by omega)), rfl, by omega, by omega⟩
    · exact ⟨_, rfl, rfl, hbank.1, hbank.2.trans_le hspread⟩
  obtain ⟨bank, hchecked, hvalue, hlow, hhigh⟩ := hshift
  have hplace : rc.Place (sc.bankBase + bank)
      (sc.rowBase + ((i : Int) / ax.bankSpread / ax.rowRun % rc.region + rc.region))
      ((i : Int) / ax.bankSpread % ax.rowRun) :=
    place_of_bounds hsc ⟨hlow, hhigh⟩ ⟨by omega, by omega⟩ hcl
  have hwrite : rc.writeAddrVec sc ax i = rc.compose (sc.bankBase + bank)
      (sc.rowBase + ((i : Int) / ax.bankSpread / ax.rowRun % rc.region + rc.region))
      ((i : Int) / ax.bankSpread % ax.rowRun) := by
    rw [hvalue]
    rfl
  have hrowFits : CInt.Fits 32 ((i : Int) / ax.bankSpread / ax.rowRun % rc.region + rc.region) := by
    have hrows := hsc.rows_le
    have hrowBase := hsc.rowBase_nonneg
    exact h.rows_fits.of_le (by omega) (by omega)
  refine ⟨?_, bank, _, _, hwrite, ⟨hlow, hhigh⟩, ⟨by omega, by omega⟩, hcl⟩
  unfold writeAddrVec?
  rw [bankOf_checked hax hi hsc.requests_fit hspreadFits, CInt.div_eq (Int.natCast_nonneg i) hindex hax.spread_pos,
    h.region_checked]
  simp only [Option.bind_eq_bind, Option.bind_some]
  rw [hchecked, CInt.mod_eq hp hpfits hax.run_pos, CInt.div_eq hp hpfits hax.run_pos]
  simp only [Option.bind_some]
  rw [CInt.mod_eq hturn hturnfits hregion]
  simp only [Option.bind_some]
  rw [CInt.add_eq hrowFits, hwrite]
  exact h.compose_sums hplace rfl rfl

/-- A vector of a stream has a place. -/
theorem At.place {low high : Int} {av : AddrVec} (hsc : sc.Formed rc banks) (hlow : 0 ≤ low)
    (hhigh : high ≤ 2 * rc.region) (hav : rc.At sc banks low high av) :
    ∃ bank row cl, av = rc.compose (sc.bankBase + bank) (sc.rowBase + row) cl ∧
      rc.Place (sc.bankBase + bank) (sc.rowBase + row) cl ∧ (0 ≤ bank ∧ bank < banks) ∧ low ≤ row ∧ row < high := by
  obtain ⟨bank, row, cl, rfl, hbank, hrow, hcl⟩ := hav
  exact ⟨bank, row, cl, rfl, place_of_bounds hsc hbank ⟨by omega, by omega⟩ hcl, hbank, hrow⟩

/-- Vectors of different halves have different rows. -/
theorem Formed.cell_ne_of_rows (h : rc.Formed) (hsc : sc.Formed rc banks) {av aw : AddrVec}
    (hread : rc.At sc banks 0 rc.region av) (hwrite : rc.At sc banks rc.region (2 * rc.region) aw) :
    rc.cell aw ≠ rc.cell av := by
  have hregion := rc.region_pos
  obtain ⟨bank, row, cl, rfl, hplace, -, -, hhigh⟩ := hread.place hsc le_rfl (by omega)
  obtain ⟨bank', row', cl', rfl, hplace', -, hlow, -⟩ := hwrite.place hsc hregion.le le_rfl
  intro heq
  have hrows : (rc.compose (sc.bankBase + bank') (sc.rowBase + row') cl').coord rc.rowPos =
      (rc.compose (sc.bankBase + bank) (sc.rowBase + row) cl).coord rc.rowPos :=
    congrArg (fun c => c.2.1) heq
  rw [(h.compose_spec hplace').2.2.1, (h.compose_spec hplace).2.2.1] at hrows
  omega

/-- Vectors of streams with different parts of the banks have different banks. -/
theorem Formed.cell_ne_of_banks (h : rc.Formed) {sc' : StreamConfig} (hsc : sc.Formed rc banks)
    (hsc' : sc'.Formed rc banks) (hapart : sc.bankBase + banks ≤ sc'.bankBase ∨ sc'.bankBase + banks ≤ sc.bankBase)
    {av aw : AddrVec} (hav : rc.At sc banks 0 (2 * rc.region) av) (haw : rc.At sc' banks 0 (2 * rc.region) aw) :
    rc.cell av ≠ rc.cell aw := by
  obtain ⟨bank, row, cl, rfl, hplace, hbank, -⟩ := hav.place hsc le_rfl le_rfl
  obtain ⟨bank', row', cl', rfl, hplace', hbank', -⟩ := haw.place hsc' le_rfl le_rfl
  intro heq
  have hbanks := h.bank_inj hplace hplace' (congrArg Prod.fst heq)
  omega

theorem At.mono {low high low' high' : Int} {av : AddrVec} (hav : rc.At sc banks low high av) (hlow : low' ≤ low)
    (hhigh : high ≤ high') : rc.At sc banks low' high' av := by
  obtain ⟨bank, row, cl, rfl, hbank, hrow, hcl⟩ := hav
  exact ⟨bank, row, cl, rfl, hbank, ⟨hlow.trans hrow.1, hrow.2.trans_le hhigh⟩, hcl⟩

end Recipe

/-! ## Patterns -/

/-- The axes of one of the two regimes. -/
def StreamConfig.Regime (sc : StreamConfig) (ax : Axes) : Prop := ax = sc.a ∨ ax = sc.b

/-- The vectors that a stream makes, in either regime. -/
def Recipe.Generated (rc : Recipe) (sc : StreamConfig) (av : AddrVec) : Prop :=
  ∃ ax, sc.Regime ax ∧ ∃ i : Nat, i < sc.numRequests ∧ (av = rc.readAddrVec sc ax i ∨ av = rc.writeAddrVec sc ax i)

/-- The addresses of a pattern are well formed: nothing overflows, coordinates are in range, streams with parts of
their own keep to them, writes keep off the reads of their stream, and flat addresses stand for vectors. -/
structure PatternConfig.AddressesFormed (cfg : PatternConfig) (shareRegion : Bool) : Prop where
  computed : ∀ sc ∈ cfg.streams, ∀ ax, sc.Regime ax → ∀ i : Nat, i < sc.numRequests →
    sc.jitterOf? ax i = some (sc.jitterOf ax i) ∧
      cfg.recipe.readAddrVec? sc ax i = some (cfg.recipe.readAddrVec sc ax i) ∧
      cfg.recipe.writeAddrVec? sc ax i = some (cfg.recipe.writeAddrVec sc ax i)
  addressed : ∀ sc ∈ cfg.streams, ∀ av, cfg.recipe.Generated sc av → ∀ type sourceId callback,
    cfg.recipe.flatAddr? av = some (cfg.recipe.makeRequest av type sourceId callback).addr
  inRange : ∀ sc ∈ cfg.streams, ∀ av, cfg.recipe.Generated sc av → cfg.recipe.InRange av
  apart : shareRegion = false → ∀ (j k : Nat) (sc sc' : StreamConfig), j ≠ k → cfg.streams[j]? = some sc →
    cfg.streams[k]? = some sc' → ∀ av aw, cfg.recipe.Generated sc av → cfg.recipe.Generated sc' aw →
      cfg.recipe.cell av ≠ cfg.recipe.cell aw
  written : ∀ sc ∈ cfg.streams, ∀ ax ax', sc.Regime ax → sc.Regime ax' → ∀ i i' : Nat, i < sc.numRequests →
    i' < sc.numRequests →
      cfg.recipe.cell (cfg.recipe.writeAddrVec sc ax i) ≠ cfg.recipe.cell (cfg.recipe.readAddrVec sc ax' i')
  flat : ∀ sc ∈ cfg.streams, ∀ sc' ∈ cfg.streams, ∀ av aw, cfg.recipe.Generated sc av →
    cfg.recipe.Generated sc' aw → ∀ type type' sourceId sourceId' callback callback',
      ((cfg.recipe.makeRequest av type sourceId callback).addr =
          (cfg.recipe.makeRequest aw type' sourceId' callback').addr ↔
        (cfg.recipe.makeRequest av type sourceId callback).addrVec =
          (cfg.recipe.makeRequest aw type' sourceId' callback').addrVec)

section Patterns

variable {rc : Recipe} {sc : StreamConfig} {banks : Int}

theorem StreamConfig.Formed.regime (hsc : sc.Formed rc banks) {ax : Axes} (hax : sc.Regime ax) :
    ax.Formed banks rc.numCls sc.numRequests := by
  rcases hax with rfl | rfl
  · exact hsc.a
  · exact hsc.b

/-- A generated vector is somewhere in the stream's part. -/
theorem Recipe.Formed.at_of_generated (h : rc.Formed) (hsc : sc.Formed rc banks) {av : AddrVec}
    (hav : rc.Generated sc av) : rc.At sc banks 0 (2 * rc.region) av := by
  have hregion := rc.region_pos
  obtain ⟨ax, hax, i, hi, rfl | rfl⟩ := hav
  · exact (h.readAddrVec_spec hsc (hsc.regime hax) hi).2.mono le_rfl (by omega)
  · exact (h.writeAddrVec_spec hsc (hsc.regime hax) hi).2.mono hregion.le le_rfl

/-- Streams that keep to their parts make well formed addresses. -/
theorem addressesFormed {cfg : PatternConfig} {shareRegion : Bool} (banks : Int) (h : cfg.recipe.Formed)
    (hsc : ∀ sc ∈ cfg.streams, sc.Formed cfg.recipe banks)
    (hapart : shareRegion = false → ∀ (j k : Nat) (sc sc' : StreamConfig), j ≠ k → cfg.streams[j]? = some sc →
      cfg.streams[k]? = some sc' → sc.bankBase + banks ≤ sc'.bankBase ∨ sc'.bankBase + banks ≤ sc.bankBase) :
    cfg.AddressesFormed shareRegion where
  computed sc hmem ax hax i hi :=
    ⟨sc.jitterOf_checked ((hsc sc hmem).regime hax).jitter_fits i,
      (h.readAddrVec_spec (hsc sc hmem) ((hsc sc hmem).regime hax) hi).1,
      (h.writeAddrVec_spec (hsc sc hmem) ((hsc sc hmem).regime hax) hi).1⟩
  addressed sc hmem av hav type sourceId callback := by
    obtain ⟨bank, row, cl, rfl, hplace, -⟩ := (h.at_of_generated (hsc sc hmem) hav).place (hsc sc hmem) le_rfl le_rfl
    exact (h.flatAddr_compose hplace type sourceId callback).2
  inRange sc hmem av hav := by
    obtain ⟨bank, row, cl, rfl, hplace, -⟩ := (h.at_of_generated (hsc sc hmem) hav).place (hsc sc hmem) le_rfl le_rfl
    exact h.inRange_compose hplace
  apart hshare j k sc sc' hjk hj hk av aw hav haw := by
    have hmem := List.mem_of_getElem? hj
    have hmem' := List.mem_of_getElem? hk
    exact h.cell_ne_of_banks (hsc sc hmem) (hsc sc' hmem') (hapart hshare j k sc sc' hjk hj hk)
      (h.at_of_generated (hsc sc hmem) hav) (h.at_of_generated (hsc sc' hmem') haw)
  written sc hmem ax ax' hax hax' i i' hi hi' :=
    h.cell_ne_of_rows (hsc sc hmem) (h.readAddrVec_spec (hsc sc hmem) ((hsc sc hmem).regime hax') hi').2
      (h.writeAddrVec_spec (hsc sc hmem) ((hsc sc hmem).regime hax) hi).2
  flat sc hmem sc' hmem' av aw hav haw type type' sourceId sourceId' callback callback' := by
    obtain ⟨bank, row, cl, rfl, hplace, -⟩ := (h.at_of_generated (hsc sc hmem) hav).place (hsc sc hmem) le_rfl le_rfl
    obtain ⟨bank', row', cl', rfl, hplace', -⟩ :=
      (h.at_of_generated (hsc sc' hmem') haw).place (hsc sc' hmem') le_rfl le_rfl
    rw [(h.flatAddr_compose hplace type sourceId callback).1,
      (h.flatAddr_compose hplace' type' sourceId' callback').1]
    constructor
    · intro heq
      obtain ⟨hbank, hrow, hcl⟩ := h.lineOf_inj hplace hplace' heq
      show cfg.recipe.compose _ _ _ = cfg.recipe.compose _ _ _
      rw [hbank, hrow, hcl]
    · intro heq
      have haddr := (h.flatAddr_compose hplace type sourceId callback).2
      have haddr' := (h.flatAddr_compose hplace' type' sourceId' callback').2
      have hvec : cfg.recipe.compose (sc.bankBase + bank) (sc.rowBase + row) cl =
          cfg.recipe.compose (sc'.bankBase + bank') (sc'.rowBase + row') cl' := heq
      rw [hvec, haddr', (h.flatAddr_compose hplace' type' sourceId' callback').1] at haddr
      rw [← (h.flatAddr_compose hplace type sourceId callback).1, hvec]
      exact (Option.some.inj haddr).symm

end Patterns

end Ramulator.Frontend.Pattern
