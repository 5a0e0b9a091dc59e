/-
# Ramulator.Controller.AddrDecode — the flat mappers cut an address into digits.

`RoBaRaCoCh` and `ChRaBaRoCo` give each level one field of the transaction's number: the coordinates, in the
order in which they are cut, are the digits of that number under the sizes of the levels. `MOP4CLXOR` cuts the
column in two and then mixes the column's bits into the levels above it, which mixing again undoes.
-/
import Ramulator.Controller.AddrMapper
import Ramulator.Lib.MixedRadix
import Mathlib.Data.Set.Function
import Mathlib.Data.Nat.Bitwise

namespace Ramulator.Controller

open Ramulator.Base (Request)
open Ramulator.Dram Ramulator.Lib

variable {K : Type}

/-! ## Vectors -/

theorem AddrVec.coord_set {v : AddrVec} {i : Nat} (h : i < v.length) (x : Int) (j : Nat) :
    AddrVec.coord (v.set i x) j = if i = j then x else v.coord j := by
  unfold AddrVec.coord
  rw [List.getD_eq_getElem?_getD, List.getD_eq_getElem?_getD, List.getElem?_set]
  split_ifs
  · rfl
  · rfl

theorem AddrVec.ext_coord {v w : AddrVec} (hlen : v.length = w.length) (h : ∀ i < v.length, v.coord i = w.coord i) :
    v = w := by
  refine List.ext_getElem hlen fun i hi hi' => ?_
  have hi := h i hi
  unfold AddrVec.coord at hi
  rw [List.getD_eq_getElem _ _ (by assumption), List.getD_eq_getElem _ _ hi'] at hi
  exact hi

namespace AddrMapperBase

variable {b : AddrMapperBase}

/-- How many coordinates level `i` has, the column in bursts. -/
def radix (b : AddrMapperBase) (i : Nat) : Nat := 2 ^ b.bits i

theorem radix_pos (b : AddrMapperBase) (i : Nat) : 0 < b.radix i := Nat.two_pow_pos _

theorem sliceLowerBits_natCast (x k : Nat) :
    sliceLowerBits (x : Int) k = (((x % 2 ^ k : Nat) : Int), ((x / 2 ^ k : Nat) : Int)) := by
  unfold sliceLowerBits
  rw [← Int.natCast_shiftRight, Nat.shiftRight_eq_div_pow]
  refine Prod.ext ?_ rfl
  show (x : Int) % 2 ^ k = _
  rw [Int.natCast_mod]
  norm_cast

/-- The coordinates of some levels, in their order. -/
def coords (v : AddrVec) (levels : List Nat) : List Int := levels.map fun i => v.coord (i + 1)

/-- Cutting levels off a number leaves their digits in the vector, and the rest of the number. -/
theorem foldl_cut_spec {levels : List Nat} (hnodup : levels.Nodup) {v : AddrVec}
    (hlen : ∀ i ∈ levels, i + 1 < v.length) (x : Nat) :
    coords (levels.foldl b.cut (v, x)).1 levels =
        (MixedRadix.digits (levels.map b.radix) x).map (fun d : Nat => (d : Int)) ∧
      (∀ j, (∀ i ∈ levels, i + 1 ≠ j) → (levels.foldl b.cut (v, x)).1.coord j = v.coord j) ∧
      (levels.foldl b.cut (v, x)).1.length = v.length ∧
      (levels.foldl b.cut (v, x)).2 = ((x / MixedRadix.volume (levels.map b.radix) : Nat) : Int) := by
  induction levels generalizing v x with
  | nil =>
      refine ⟨rfl, fun _ _ => rfl, rfl, ?_⟩
      show (x : Int) = ((x / 1 : Nat) : Int)
      rw [Nat.div_one]
  | cons l levels ih =>
      obtain ⟨hl, hnodup⟩ := List.nodup_cons.mp hnodup
      have hroom : l + 1 < v.length := hlen l List.mem_cons_self
      have hcut : b.cut (v, x) l = (v.set (l + 1) ((x % b.radix l : Nat) : Int), ((x / b.radix l : Nat) : Int)) := by
        unfold cut
        rw [sliceLowerBits_natCast]
        rfl
      rw [List.foldl_cons, hcut]
      obtain ⟨hcoords, hothers, hlength, hrest⟩ := ih hnodup (v := v.set (l + 1) ((x % b.radix l : Nat) : Int))
        (fun i hi => by rw [List.length_set]; exact hlen i (List.mem_cons_of_mem _ hi)) (x / b.radix l)
      refine ⟨?_, fun j hj => ?_, ?_, ?_⟩
      · -- the field of `l` is not written again
        show AddrVec.coord _ (l + 1) :: coords _ levels = _
        rw [hcoords, hothers (l + 1) fun i hi heq => hl (Nat.succ.inj heq ▸ hi), AddrVec.coord_set hroom, if_pos rfl]
        rfl
      · rw [hothers j fun i hi => hj i (List.mem_cons_of_mem _ hi), AddrVec.coord_set hroom,
          if_neg (hj l List.mem_cons_self)]
      · rw [hlength, List.length_set]
      · rw [hrest, Nat.div_div_eq_div_mul]
        rfl

/-! ## Vectors in range -/

/-- A vector of `channels` channels whose coordinates are below the sizes of their levels. -/
structure InRange (b : AddrMapperBase) (channels : Nat) (v : AddrVec) : Prop where
  length : v.length = b.rowIdx + 3
  channel : 0 ≤ v.coord 0 ∧ v.coord 0 < channels
  coord : ∀ i < b.rowIdx + 2, 0 ≤ v.coord (i + 1) ∧ v.coord (i + 1) < b.radix i

/-- The levels in some order, each once. -/
def Levels (b : AddrMapperBase) (levels : List Nat) : Prop := levels.Perm (List.range (b.rowIdx + 2))

/-- How many transactions a channel has. -/
def lines (b : AddrMapperBase) : Nat := MixedRadix.volume ((List.range (b.rowIdx + 2)).map b.radix)

theorem Levels.mem_iff {levels : List Nat} (h : b.Levels levels) {i : Nat} : i ∈ levels ↔ i < b.rowIdx + 2 :=
  (List.Perm.mem_iff h).trans List.mem_range

theorem Levels.nodup {levels : List Nat} (h : b.Levels levels) : levels.Nodup :=
  (List.Perm.nodup_iff h).mpr List.nodup_range

theorem Levels.volume {levels : List Nat} (h : b.Levels levels) : MixedRadix.volume (levels.map b.radix) = b.lines :=
  MixedRadix.volume_perm (List.Perm.map b.radix h)

/-- The coordinates of a vector in range are digits. -/
theorem InRange.within {channels : Nat} {v : AddrVec} (h : b.InRange channels v) {levels : List Nat}
    (hlevels : ∀ i ∈ levels, i < b.rowIdx + 2) :
    MixedRadix.Within (levels.map b.radix) ((coords v levels).map Int.toNat) ∧
      ((coords v levels).map Int.toNat).map (fun d : Nat => (d : Int)) = coords v levels := by
  induction levels with
  | nil => exact ⟨.nil, rfl⟩
  | cons l levels ih =>
      obtain ⟨hwithin, hcast⟩ := ih fun i hi => hlevels i (List.mem_cons_of_mem _ hi)
      obtain ⟨hpos, hlt⟩ := h.coord l (hlevels l List.mem_cons_self)
      refine ⟨.cons ?_ hwithin, ?_⟩
      · show (v.coord (l + 1)).toNat < b.radix l
        omega
      · exact congrArg₂ List.cons (Int.toNat_of_nonneg hpos) hcast

/-- A vector in range is known from its channel and its coordinates. -/
theorem InRange.ext {channels : Nat} {v w : AddrVec} (hv : b.InRange channels v) (hw : b.InRange channels w)
    (hchannel : v.coord 0 = w.coord 0) {levels : List Nat} (hlevels : b.Levels levels)
    (hcoords : coords v levels = coords w levels) : v = w := by
  refine AddrVec.ext_coord (hv.length.trans hw.length.symm) fun i hi => ?_
  rw [hv.length] at hi
  cases i with
  | zero => exact hchannel
  | succ i => exact List.map_inj_left.mp hcoords i (hlevels.mem_iff.mpr (by omega))

theorem radixes_pos (levels : List Nat) : ∀ r ∈ levels.map b.radix, 0 < r := by
  intro r hr
  obtain ⟨l, -, rfl⟩ := List.mem_map.mp hr
  exact b.radix_pos l

/-! ## What a mapper does with a number -/

variable {req : Request Command K}

/-- The transaction of an address. -/
def line (b : AddrMapperBase) (req : Request Command K) : Int := req.intraChannelAddr >>> b.txOffset

/-- Digits of the transaction in the order of `levels`, over the channel that the vector had. -/
structure Decodes (b : AddrMapperBase) (levels : List Nat) (channel : Int) (x : Nat) (v : AddrVec) : Prop where
  length : v.length = b.rowIdx + 3
  channel : v.coord 0 = channel
  digits : coords v levels = (MixedRadix.digits (levels.map b.radix) x).map (fun d : Nat => (d : Int))

/-- The channel of a vector that is about to be filled. -/
theorem coord_zero_start (req : Request Command K) : (b.start req).1.coord 0 = req.addrVec.coord 0 := by
  unfold start resize AddrVec.coord
  rw [List.getD_eq_getElem?_getD, List.getD_eq_getElem?_getD]
  cases req.addrVec with
  | nil => rfl
  | cons channel rest => rfl

theorem foldl_cut_decodes {levels : List Nat} (hlevels : b.Levels levels) {x : Nat} (hx : b.line req = x) :
    b.Decodes levels (req.addrVec.coord 0) x (levels.foldl b.cut (b.start req)).1 := by
  have hroom : ∀ i ∈ levels, i + 1 < (b.start req).1.length := by
    intro i hi
    rw [length_start]
    have := hlevels.mem_iff.mp hi
    omega
  obtain ⟨hcoords, hothers, hlength, -⟩ := foldl_cut_spec (b := b) hlevels.nodup hroom x
  have hstart : b.start req = ((b.start req).1, (x : Int)) := Prod.ext rfl hx
  rw [hstart]
  refine ⟨?_, ?_, hcoords⟩
  · rw [hlength, length_start]
  · rw [hothers 0 fun i _ => Nat.succ_ne_zero i, coord_zero_start]

/-- The order of `RoBaRaCoCh`. -/
def columnFirst (b : AddrMapperBase) : List Nat := b.colIdx :: List.range (b.rowIdx + 1)

theorem levels_columnFirst (b : AddrMapperBase) : b.Levels b.columnFirst := by
  unfold Levels columnFirst
  rw [colIdx_eq]
  have hperm := List.perm_append_singleton (b.rowIdx + 1) (List.range (b.rowIdx + 1))
  rw [← List.range_succ] at hperm
  exact hperm.symm

theorem levels_reverse (b : AddrMapperBase) : b.Levels (List.range b.numMappedLevels).reverse := by
  unfold Levels
  rw [numMappedLevels, b.addrBits_length]
  exact List.reverse_perm _

theorem roBaRaCoCh_decodes {x : Nat} (hx : b.line req = x) :
    b.Decodes b.columnFirst (req.addrVec.coord 0) x (b.roBaRaCoCh req) :=
  foldl_cut_decodes b.levels_columnFirst hx

theorem chRaBaRoCo_decodes {x : Nat} (hx : b.line req = x) :
    b.Decodes (List.range b.numMappedLevels).reverse (req.addrVec.coord 0) x (b.chRaBaRoCo req) :=
  foldl_cut_decodes b.levels_reverse hx

/-- Digits are in range. -/
theorem Decodes.inRange {levels : List Nat} {channel : Int} {x channels : Nat} {v : AddrVec}
    (h : b.Decodes levels channel x v) (hlevels : b.Levels levels) (hchannel : 0 ≤ channel ∧ channel < channels) :
    b.InRange channels v := by
  refine ⟨h.length, by rw [h.channel]; exact hchannel, fun i hi => ?_⟩
  have hwithin : MixedRadix.Within (levels.map b.radix) (MixedRadix.digits (levels.map b.radix) x) :=
    MixedRadix.within_digits (radixes_pos levels) x
  obtain ⟨k, hk, rfl⟩ := List.mem_iff_getElem.mp (hlevels.mem_iff.mpr hi)
  have hlen := MixedRadix.length_digits (levels.map b.radix) x
  rw [List.length_map] at hlen
  have hcoord : (coords v levels)[k]? = some (v.coord (levels[k] + 1)) := by
    unfold coords
    rw [List.getElem?_map, List.getElem?_eq_getElem hk]
    rfl
  rw [h.digits, List.getElem?_map, List.getElem?_eq_getElem (by omega)] at hcoord
  rw [← Option.some.inj hcoord]
  have hlt := (List.forall₂_iff_get.mp hwithin).2 k (by rw [List.length_map]; exact hk) (by omega)
  rw [List.get_eq_getElem, List.get_eq_getElem, List.getElem_map] at hlt
  exact ⟨Int.natCast_nonneg _, Int.ofNat_lt.mpr hlt⟩

/-- Numbers below the lines of a channel, with a channel, are the vectors in range. -/
theorem bijOn_of_decodes {levels : List Nat} (hlevels : b.Levels levels) {channels : Nat} {A : Set Int}
    {split : Int → Nat × Nat} (hsplit : Set.BijOn split A {p | p.1 < channels ∧ p.2 < b.lines}) {f : Int → AddrVec}
    (hf : ∀ a ∈ A, b.Decodes levels (split a).1 (split a).2 (f a)) : Set.BijOn f A {v | b.InRange channels v} := by
  have hrange : ∀ a ∈ A, b.InRange channels (f a) := by
    intro a ha
    exact (hf a ha).inRange hlevels ⟨Int.natCast_nonneg _, Int.ofNat_lt.mpr (hsplit.mapsTo ha).1⟩
  refine ⟨hrange, fun a ha a' ha' heq => ?_, fun v hv => ?_⟩
  · -- equal vectors have equal digits, which stand for one number
    refine hsplit.injOn ha ha' (Prod.ext ?_ ?_)
    · have hchannel := (hf a ha).channel.symm.trans ((congrArg (AddrVec.coord · 0) heq).trans (hf a' ha').channel)
      exact Int.ofNat_inj.mp hchannel
    · have hdigits := (hf a ha).digits.symm.trans ((congrArg (coords · levels) heq).trans (hf a' ha').digits)
      have hsame := List.map_injective_iff.mpr (fun _ _ h => Int.ofNat_inj.mp h) hdigits
      have hlt := (hsplit.mapsTo ha).2
      have hlt' := (hsplit.mapsTo ha').2
      rw [← hlevels.volume] at hlt hlt'
      rw [← MixedRadix.value_digits hlt, hsame, MixedRadix.value_digits hlt']
  · -- the coordinates of a vector are the digits of a number
    have hv : b.InRange channels v := hv
    obtain ⟨hwithin, hcast⟩ := hv.within fun i hi => hlevels.mem_iff.mp hi
    have hlt := MixedRadix.value_lt hwithin
    rw [hlevels.volume] at hlt
    obtain ⟨hpos, hchannel⟩ := hv.channel
    have htarget : ((v.coord 0).toNat, MixedRadix.value (levels.map b.radix) ((coords v levels).map Int.toNat)) ∈
        {p : Nat × Nat | p.1 < channels ∧ p.2 < b.lines} := ⟨by show (v.coord 0).toNat < channels; omega, hlt⟩
    obtain ⟨a, ha, hsplit⟩ := hsplit.surjOn htarget
    refine ⟨a, ha, (hrange a ha).ext hv ?_ hlevels ?_⟩
    · rw [(hf a ha).channel, hsplit]
      exact Int.toNat_of_nonneg hpos
    · rw [(hf a ha).digits, hsplit]
      show (MixedRadix.digits _ (MixedRadix.value _ _)).map _ = _
      rw [MixedRadix.digits_value hwithin, hcast]

/-! ## The two parts of the column -/

/-- `MOP4CLXOR` before it mixes. -/
def premix (b : AddrMapperBase) (req : Request Command K) : AddrVec :=
  let low := sliceLowerBits (b.start req).2 2
  let fields := (List.range b.rowIdx).foldl b.cut ((b.start req).1.set (b.colIdx + 1) low.1, low.2)
  let high := sliceLowerBits fields.2 (b.bits b.colIdx - 2)
  let v := fields.1.set (b.colIdx + 1) (fields.1.coord (b.colIdx + 1) + high.1 * 2 ^ 2)
  v.set (b.rowIdx + 1) (toInt32 high.2)

def mixAll (b : AddrMapperBase) (v : AddrVec) : AddrVec := ((List.range b.colIdx).foldl b.mix (v, 0)).1

/-- How many coordinates the levels above the row have. -/
def aboveRow (b : AddrMapperBase) : Nat := MixedRadix.volume ((List.range b.rowIdx).map b.radix)

/-- The number whose digits, column first, are the coordinates before mixing: the two parts of the column are
put together. -/
def joinColumn (b : AddrMapperBase) (x : Nat) : Nat :=
  x % 4 + 4 * MixedRadix.swapPlaces b.aboveRow (2 ^ (b.bits b.colIdx - 2)) (x / 4)

theorem columnFirst_eq (b : AddrMapperBase) :
    b.columnFirst = b.colIdx :: (List.range b.rowIdx ++ [b.rowIdx]) := congrArg (b.colIdx :: ·) List.range_succ

theorem lines_eq (b : AddrMapperBase) : b.lines = b.radix b.colIdx * (b.aboveRow * b.radix b.rowIdx) := by
  rw [← b.levels_columnFirst.volume, columnFirst_eq, List.map_cons, List.map_append]
  show b.radix b.colIdx * MixedRadix.volume _ = _
  rw [MixedRadix.volume_append]
  show _ * (_ * (b.radix b.rowIdx * 1)) = _
  rw [Nat.mul_one]
  rfl

theorem aboveRow_pos (b : AddrMapperBase) : 0 < b.aboveRow := MixedRadix.volume_pos (radixes_pos _)

theorem radix_colIdx (hcol : 2 ≤ b.bits b.colIdx) : b.radix b.colIdx = 4 * 2 ^ (b.bits b.colIdx - 2) := by
  obtain ⟨n, hn⟩ := Nat.exists_eq_add_of_le hcol
  unfold radix
  rw [hn, Nat.add_sub_cancel_left, Nat.pow_add]

theorem lines_eq_four (hcol : 2 ≤ b.bits b.colIdx) :
    b.lines = 4 * (b.aboveRow * (2 ^ (b.bits b.colIdx - 2) * b.radix b.rowIdx)) := by
  rw [lines_eq, radix_colIdx hcol, Nat.mul_assoc, Nat.mul_left_comm _ b.aboveRow]

/-- Putting the column together is a permutation of the transactions. -/
theorem joinColumn_bijOn (hcol : 2 ≤ b.bits b.colIdx) :
    Set.BijOn b.joinColumn {x | x < b.lines} {x | x < b.lines} := by
  have hswap := MixedRadix.swapPlaces_bijOn b.aboveRow_pos (Nat.two_pow_pos (b.bits b.colIdx - 2)) (b.radix b.rowIdx)
  have hbound : 4 * (2 ^ (b.bits b.colIdx - 2) * (b.aboveRow * b.radix b.rowIdx)) = b.lines := by
    rw [lines_eq_four hcol, Nat.mul_left_comm b.aboveRow]
  have hdiv : ∀ x < b.lines, x / 4 ∈ {x | x < b.aboveRow * (2 ^ (b.bits b.colIdx - 2) * b.radix b.rowIdx)} := by
    intro x hx
    rw [lines_eq_four hcol] at hx
    exact Nat.div_lt_of_lt_mul hx
  refine ⟨fun x hx => ?_, fun x hx y hy heq => ?_, fun y hy => ?_⟩
  · have hlt : MixedRadix.swapPlaces b.aboveRow (2 ^ (b.bits b.colIdx - 2)) (x / 4) < _ := hswap.mapsTo (hdiv x hx)
    show x % 4 + 4 * _ < b.lines
    omega
  · have heq : x % 4 + 4 * _ = y % 4 + 4 * _ := heq
    have hsame := hswap.injOn (hdiv x hx) (hdiv y hy) (by omega)
    omega
  · have hy : y < b.lines := hy
    obtain ⟨z, hz, hswapz⟩ := hswap.surjOn (show y / 4 < _ by omega)
    have hz : z < _ := hz
    have hlines := lines_eq_four hcol
    refine ⟨y % 4 + 4 * z, show y % 4 + 4 * z < b.lines by omega, ?_⟩
    unfold joinColumn
    rw [show (y % 4 + 4 * z) % 4 = y % 4 by omega, show (y % 4 + 4 * z) / 4 = z by omega, hswapz]
    omega

theorem toInt32_of_lt {x : Nat} (h : x < 2 ^ 31) : toInt32 x = x := by
  unfold toInt32
  rw [Int.bmod_eq_of_le]
  · omega
  · omega

/-- Joining the column moves its high part below the levels above the row. -/
theorem digits_joinColumn (hcol : 2 ≤ b.bits b.colIdx) {x : Nat} (hlt : x < b.lines) :
    MixedRadix.digits (b.columnFirst.map b.radix) (b.joinColumn x) =
      (x % 4 + 4 * (x / 4 / b.aboveRow % 2 ^ (b.bits b.colIdx - 2))) ::
        (MixedRadix.digits ((List.range b.rowIdx).map b.radix) (x / 4) ++
          [x / 4 / b.aboveRow / 2 ^ (b.bits b.colIdx - 2)]) := by
  have hpos := b.aboveRow_pos
  have hhigh : 0 < 2 ^ (b.bits b.colIdx - 2) := Nat.two_pow_pos _
  have hrow : x / 4 / b.aboveRow / 2 ^ (b.bits b.colIdx - 2) < b.radix b.rowIdx := by
    rw [lines_eq_four hcol] at hlt
    exact Nat.div_lt_of_lt_mul (Nat.div_lt_of_lt_mul (Nat.div_lt_of_lt_mul hlt))
  set row := x / 4 / b.aboveRow / 2 ^ (b.bits b.colIdx - 2) with hrowdef
  have hjoin : b.joinColumn x = x % 4 + 4 * (x / 4 / b.aboveRow % 2 ^ (b.bits b.colIdx - 2)) +
      b.radix b.colIdx * (x / 4 % b.aboveRow + b.aboveRow * row) := by
    unfold joinColumn MixedRadix.swapPlaces
    rw [radix_colIdx hcol, ← hrowdef, Nat.mul_add 4, Nat.mul_assoc 4, Nat.add_assoc]
  have hsmall : x % 4 + 4 * (x / 4 / b.aboveRow % 2 ^ (b.bits b.colIdx - 2)) < b.radix b.colIdx := by
    have hmod := Nat.mod_lt (x / 4 / b.aboveRow) hhigh
    rw [radix_colIdx hcol]
    omega
  have hmids : MixedRadix.digits ((List.range b.rowIdx).map b.radix) (x / 4 % b.aboveRow + b.aboveRow * row) =
      MixedRadix.digits ((List.range b.rowIdx).map b.radix) (x / 4) := by
    rw [← MixedRadix.digits_mod_volume]
    show MixedRadix.digits _ ((x / 4 % b.aboveRow + b.aboveRow * row) % b.aboveRow) = _
    rw [Nat.add_mul_mod_self_left, Nat.mod_mod]
    exact MixedRadix.digits_mod_volume _ _
  rw [columnFirst_eq, List.map_cons, List.map_append, hjoin]
  show (_ % b.radix b.colIdx) :: MixedRadix.digits (_ ++ _) (_ / b.radix b.colIdx) = _
  rw [Nat.add_mul_mod_self_left, Nat.mod_eq_of_lt hsmall, Nat.add_mul_div_left _ _ (b.radix_pos _),
    Nat.div_eq_of_lt hsmall, Nat.zero_add, MixedRadix.digits_append, hmids]
  show _ :: (_ ++ [(x / 4 % b.aboveRow + b.aboveRow * row) / b.aboveRow % b.radix b.rowIdx]) = _
  rw [Nat.add_mul_div_left _ _ hpos, Nat.div_eq_of_lt (Nat.mod_lt _ hpos), Nat.zero_add, Nat.mod_eq_of_lt hrow]

/-- Before mixing, the vector holds the digits of the joined number. -/
theorem premix_decodes (hcol : 2 ≤ b.bits b.colIdx) (hrow : b.radix b.rowIdx ≤ 2 ^ 31) {x : Nat} (hx : b.line req = x)
    (hlt : x < b.lines) : b.Decodes b.columnFirst (req.addrVec.coord 0) (b.joinColumn x) (b.premix req) := by
  have hcolIdx := b.colIdx_eq
  have hstart := length_start b req
  have hlow : sliceLowerBits (b.start req).2 2 = (((x % 4 : Nat) : Int), ((x / 4 : Nat) : Int)) := by
    have hline : (b.start req).2 = x := hx
    rw [hline]
    exact sliceLowerBits_natCast x 2
  have hroom : ∀ i ∈ List.range b.rowIdx,
      i + 1 < ((b.start req).1.set (b.colIdx + 1) ((x % 4 : Nat) : Int)).length := by
    intro i hi
    rw [List.length_set, hstart]
    have := List.mem_range.mp hi
    omega
  obtain ⟨hcoords, hothers, hlength, hrest⟩ := foldl_cut_spec (b := b) List.nodup_range hroom (x / 4)
  have hrowlt : x / 4 / b.aboveRow / 2 ^ (b.bits b.colIdx - 2) < 2 ^ 31 := by
    rw [lines_eq_four hcol] at hlt
    exact (Nat.div_lt_of_lt_mul (Nat.div_lt_of_lt_mul (Nat.div_lt_of_lt_mul hlt))).trans_le hrow
  -- the vector: the fields above the row, then the column, then the row
  set w := ((List.range b.rowIdx).foldl b.cut ((b.start req).1.set (b.colIdx + 1) ((x % 4 : Nat) : Int),
    ((x / 4 : Nat) : Int))).1 with hw
  rw [List.length_set, hstart] at hlength
  have hcolumn : w.coord (b.colIdx + 1) = ((x % 4 : Nat) : Int) := by
    rw [hothers (b.colIdx + 1) fun i hi => by have := List.mem_range.mp hi; omega, AddrVec.coord_set (by omega),
      if_pos rfl]
  have hpremix : b.premix req =
      (w.set (b.colIdx + 1) ((x % 4 + 4 * (x / 4 / b.aboveRow % 2 ^ (b.bits b.colIdx - 2)) : Nat) : Int)).set
        (b.rowIdx + 1) ((x / 4 / b.aboveRow / 2 ^ (b.bits b.colIdx - 2) : Nat) : Int) := by
    unfold premix
    rw [hlow]
    simp only
    rw [show _ = ((x / 4 / b.aboveRow : Nat) : Int) from hrest, sliceLowerBits_natCast, ← hw, hcolumn]
    simp only
    rw [toInt32_of_lt hrowlt]
    congr 2
    omega
  have hcoord : ∀ j, (b.premix req).coord j =
      if b.rowIdx + 1 = j then ((x / 4 / b.aboveRow / 2 ^ (b.bits b.colIdx - 2) : Nat) : Int)
      else if b.colIdx + 1 = j then ((x % 4 + 4 * (x / 4 / b.aboveRow % 2 ^ (b.bits b.colIdx - 2)) : Nat) : Int)
      else w.coord j := by
    intro j
    rw [hpremix, AddrVec.coord_set (by rw [List.length_set]; omega), AddrVec.coord_set (by omega)]
  refine ⟨?_, ?_, ?_⟩
  · rw [hpremix, List.length_set, List.length_set, hlength]
  · rw [hcoord, if_neg (by omega), if_neg (by omega), hothers 0 fun i _ => Nat.succ_ne_zero i,
      AddrVec.coord_set (by omega), if_neg (by omega), coord_zero_start]
  · rw [digits_joinColumn hcol hlt, List.map_cons, List.map_append, ← hcoords, columnFirst_eq]
    unfold coords
    rw [List.map_cons, List.map_append]
    refine congrArg₂ List.cons ?_ (congrArg₂ List.append (List.map_congr_left fun i hi => ?_) (congrArg₂ List.cons ?_ rfl))
    · rw [hcoord, if_neg (by omega), if_pos rfl]
    · have := List.mem_range.mp hi
      rw [hcoord, if_neg (by omega), if_neg (by omega)]
    · exact (hcoord _).trans (if_pos rfl)

/-! ## Mixing -/

theorem int_xor_zero (x : Int) : Int.xor x 0 = x := by
  cases x with
  | ofNat n => exact congrArg Int.ofNat (Nat.xor_zero n)
  | negSucc n => exact congrArg Int.negSucc (Nat.xor_zero n)

/-- `row_xor_index` at level `i`. -/
def xorIndex (b : AddrMapperBase) : Nat → Nat
  | 0 => 0
  | i + 1 => b.xorIndex i + b.bits i

/-- The bits of the column that are mixed into level `i`. -/
def mask (b : AddrMapperBase) (column : Nat) (i : Nat) : Nat := (column >>> b.xorIndex i) % 2 ^ b.bits i

/-- Mixing the first levels: each coordinate with its mask, and the column as it was. -/
theorem foldl_mix_spec {v : AddrVec} {column : Nat} (hcolumn : v.coord (b.colIdx + 1) = column)
    (hlength : v.length = b.rowIdx + 3) {n : Nat} (hn : n ≤ b.colIdx) :
    ((List.range n).foldl b.mix (v, 0)).2 = b.xorIndex n ∧
      ((List.range n).foldl b.mix (v, 0)).1.length = b.rowIdx + 3 ∧
      ∀ j, ((List.range n).foldl b.mix (v, 0)).1.coord j =
        if 0 < j ∧ j ≤ n then Int.xor (v.coord j) (b.mask column (j - 1)) else v.coord j := by
  have hcolIdx := b.colIdx_eq
  induction n with
  | zero =>
      refine ⟨rfl, hlength, fun j => ?_⟩
      rw [if_neg (by omega)]
      rfl
  | succ n ih =>
      obtain ⟨hindex, hlen, hcoord⟩ := ih (by omega)
      rw [List.range_succ, List.foldl_append, List.foldl_cons, List.foldl_nil]
      set acc := (List.range n).foldl b.mix (v, 0) with hacc
      -- the levels mixed so far are all before the column, so it is unchanged
      have hcolumn' : acc.1.coord (b.colIdx + 1) = column := by
        rw [hcoord, if_neg (by omega)]
        exact hcolumn
      have hmask : (acc.1.coord (b.colIdx + 1) >>> acc.2) % 2 ^ b.bits n = ((b.mask column n : Nat) : Int) := by
        rw [hcolumn', hindex, ← Int.natCast_shiftRight]
        unfold mask
        norm_cast
      have hself : acc.1.coord (n + 1) = v.coord (n + 1) := by
        rw [hcoord, if_neg (by omega)]
      unfold mix
      simp only [hmask, hself]
      split_ifs with hbits
      · refine ⟨by rw [hindex]; rfl, by rw [List.length_set, hlen], fun j => ?_⟩
        rw [AddrVec.coord_set (by omega), hcoord]
        by_cases hj : n + 1 = j
        · subst hj
          rw [if_pos rfl, if_pos (by omega), Nat.add_sub_cancel]
        · rw [if_neg hj]
          by_cases hle : 0 < j ∧ j ≤ n
          · rw [if_pos hle, if_pos (by omega)]
          · rw [if_neg hle, if_neg (by omega)]
      · -- a level of one coordinate has an empty mask
        have hzero : b.bits n = 0 := by omega
        refine ⟨?_, hlen, fun j => ?_⟩
        · rw [hindex]
          show _ = b.xorIndex n + b.bits n
          rw [hzero, Nat.add_zero]
        · rw [hcoord]
          by_cases hj : j = n + 1
          · subst hj
            have hnone : b.mask column n = 0 := by
              unfold mask
              rw [hzero]
              exact Nat.mod_one _
            rw [if_neg (by omega), if_pos (by omega), Nat.add_sub_cancel, hnone]
            exact (int_xor_zero _).symm
          · by_cases hle : 0 < j ∧ j ≤ n
            · rw [if_pos hle, if_pos (by omega)]
            · rw [if_neg hle, if_neg (by omega)]

/-- What mixing makes of a vector in range. -/
theorem mixAll_spec {channels : Nat} {v : AddrVec} (h : b.InRange channels v) :
    ∃ column : Nat, v.coord (b.colIdx + 1) = column ∧ (b.mixAll v).length = b.rowIdx + 3 ∧
      (b.mixAll v).coord 0 = v.coord 0 ∧ (b.mixAll v).coord (b.colIdx + 1) = column ∧
      ∀ i < b.colIdx, ∃ x : Nat, x < b.radix i ∧ v.coord (i + 1) = x ∧
        (b.mixAll v).coord (i + 1) = ((x ^^^ b.mask column i : Nat) : Int) := by
  have hcolIdx := b.colIdx_eq
  obtain ⟨column, hcolumn⟩ := Int.eq_ofNat_of_zero_le (h.coord b.colIdx (by omega)).1
  obtain ⟨-, hlength, hcoord⟩ := foldl_mix_spec hcolumn h.length (le_refl b.colIdx)
  refine ⟨column, hcolumn, hlength, ?_, ?_, fun i hi => ?_⟩
  · exact (hcoord 0).trans (if_neg (by omega))
  · exact ((hcoord _).trans (if_neg (by omega))).trans hcolumn
  · obtain ⟨hpos, hlt⟩ := h.coord i (by omega)
    obtain ⟨x, hx⟩ := Int.eq_ofNat_of_zero_le hpos
    refine ⟨x, by omega, hx, ?_⟩
    refine ((hcoord (i + 1)).trans (if_pos (by omega))).trans ?_
    rw [hx, Nat.add_sub_cancel]
    rfl

theorem mixAll_inRange {channels : Nat} {v : AddrVec} (h : b.InRange channels v) : b.InRange channels (b.mixAll v) := by
  have hcolIdx := b.colIdx_eq
  obtain ⟨column, hcolumn, hlength, hchannel, hcolumn', hmixed⟩ := mixAll_spec h
  refine ⟨hlength, by rw [hchannel]; exact h.channel, fun i hi => ?_⟩
  by_cases hi' : i < b.colIdx
  · obtain ⟨x, hlt, -, hx⟩ := hmixed i hi'
    rw [hx]
    have hmask : b.mask column i < 2 ^ b.bits i := Nat.mod_lt _ (Nat.two_pow_pos _)
    exact ⟨Int.natCast_nonneg _, Int.ofNat_lt.mpr (Nat.xor_lt_two_pow hlt hmask)⟩
  · obtain rfl : i = b.colIdx := by omega
    rw [hcolumn', ← hcolumn]
    exact h.coord _ hi

/-- Mixing twice: the column is the same both times, so that each mask is taken off again. -/
theorem mixAll_mixAll {channels : Nat} {v : AddrVec} (h : b.InRange channels v) : b.mixAll (b.mixAll v) = v := by
  have hcolIdx := b.colIdx_eq
  obtain ⟨column, hcolumn, hlength, hchannel, hcolumn', hmixed⟩ := mixAll_spec h
  obtain ⟨column₂, hsame, hlength₂, hchannel₂, hcolumn₂, hmixed₂⟩ := mixAll_spec (mixAll_inRange h)
  obtain rfl : column = column₂ := Int.ofNat_inj.mp (hcolumn'.symm.trans hsame)
  refine AddrVec.ext_coord (hlength₂.trans h.length.symm) fun j hj => ?_
  rw [hlength₂] at hj
  cases j with
  | zero => exact hchannel₂.trans hchannel
  | succ i =>
      by_cases hi : i < b.colIdx
      · obtain ⟨x, -, hx, hmix⟩ := hmixed i hi
        obtain ⟨y, -, hy, hmix₂⟩ := hmixed₂ i hi
        obtain rfl : x ^^^ b.mask column i = y := Int.ofNat_inj.mp (hmix.symm.trans hy)
        rw [hmix₂, Nat.xor_assoc, Nat.xor_self, Nat.xor_zero, hx]
      · obtain rfl : i = b.colIdx := by omega
        exact hcolumn₂.trans hcolumn.symm

theorem mixAll_bijOn (b : AddrMapperBase) (channels : Nat) :
    Set.BijOn b.mixAll {v | b.InRange channels v} {v | b.InRange channels v} := by
  have hinv : Set.InvOn b.mixAll b.mixAll {v | b.InRange channels v} {v | b.InRange channels v} :=
    ⟨fun _ hv => mixAll_mixAll hv, fun _ hv => mixAll_mixAll hv⟩
  exact hinv.bijOn (fun _ hv => mixAll_inRange hv) fun _ hv => mixAll_inRange hv

end AddrMapperBase

end Ramulator.Controller
