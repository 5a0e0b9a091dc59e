/-
# Ramulator.Frontend.LatTpAddresses — byte addresses that a mapper takes back.

`LatTp::physical_byte_address` (`frontend/lat_tp_addresses.h`) puts a request's coordinates into a byte address,
the row highest and the column lowest above the bytes of a transaction, and refuses what does not fit an `Addr_t`.
`RoBaRaCoCh` cuts the same fields off in the same order. So the one undoes the other, up to the largest address.
-/
import Ramulator.Frontend.LatencyThroughputTrace
import Ramulator.MemorySystem.AddressMap
import Mathlib.Tactic.Ring

namespace Ramulator.Frontend.LatTp

open Ramulator.Base (Request)
open Ramulator.Controller Ramulator.Dram Ramulator.Lib Ramulator.MemorySystem

variable {K : Type}

/-! ## The fields of an address -/

/-- `std::numeric_limits<Addr_t>::max()`. -/
def maxAddr : Nat := 0x7fffffffffffffff

/-- The counts and values of the fields between the bytes of a transaction and the row, lowest first. -/
def lowFields (cfg : LatTp.Config) (levels : List Nat) (av : AddrVec) : List (Nat × Int) :=
  (cfg.numCls, av.coord cfg.colPos / cfg.internalPrefetchSize) ::
    ((List.range cfg.rowPos).drop 1).map fun position => (levels.getD position 0, av.coord position)

/-- All fields, with the row. -/
def fields (cfg : LatTp.Config) (levels : List Nat) (av : AddrVec) : List (Nat × Int) :=
  lowFields cfg levels av ++ [(cfg.numRows, av.coord cfg.rowPos)]

def counts (fs : List (Nat × Int)) : List Nat := fs.map Prod.fst

def values (fs : List (Nat × Int)) : List Nat := fs.map fun f => f.2.toNat

/-- A field's value is below its count. -/
def Fits (f : Nat × Int) : Prop := 0 ≤ f.2 ∧ f.2 < f.1

/-- The address as a number without bounds. -/
def exactAddress (cfg : LatTp.Config) (levels : List Nat) (av : AddrVec) : Nat :=
  cfg.txBytes * MixedRadix.value (counts (fields cfg levels av)) (values (fields cfg levels av))

/-- A vector that has a byte address. -/
structure Encodable (cfg : LatTp.Config) (levels : List Nat) (av : AddrVec) : Prop where
  channel : av.coord 0 = 0
  aligned : av.coord cfg.colPos % cfg.internalPrefetchSize = 0
  fits : ∀ f ∈ fields cfg levels av, Fits f
  txBytes : ∃ k, cfg.txBytes = 2 ^ k
  bounded : exactAddress cfg levels av ≤ maxAddr

/-! ## The encoder -/

theorem appendField_eq_ok {line count line' : Nat} {value : Int} (hcount : count ≤ maxAddr) :
    appendField line count value = .ok line' ↔
      Fits (count, value) ∧ line' = line * count + value.toNat ∧ line' ≤ maxAddr := by
  unfold appendField Fits
  have hbound : 0 ≤ value → value < count →
      (line > (maxAddr - value.toNat) / count ↔ ¬ line * count + value.toNat ≤ maxAddr) := by
    intro hpos hlt
    have hcountPos : 0 < count := by omega
    rw [gt_iff_lt, Nat.div_lt_iff_lt_mul hcountPos]
    omega
  constructor
  · intro h
    split_ifs at h with hrefused
    obtain ⟨-, hneg, hbig, hover⟩ : _ ∧ _ ∧ _ ∧ _ := by simpa only [not_or] using hrefused
    have hpos : 0 ≤ value := not_lt.mp hneg
    have hlt : value < count := not_le.mp hbig
    obtain rfl := Except.ok.inj h
    exact ⟨⟨hpos, hlt⟩, rfl, not_not.mp ((not_congr (hbound hpos hlt)).mp hover)⟩
  · rintro ⟨⟨hpos, hlt⟩, rfl, hle⟩
    have hlt : value < count := hlt
    rw [if_neg]
    rintro (hzero | hneg | hbig | hover)
    · omega
    · exact absurd hpos (not_le.mpr hneg)
    · exact absurd hlt (not_lt.mpr hbig)
    · exact (hbound hpos hlt).mp hover hle

/-- One step of the scheme, from above and from below. -/
theorem horner (value volume line count digit : Nat) :
    (value + volume * line) * count + digit = digit + count * value + count * volume * line := by
  ring

/-- Appending fields from the highest down is the value of their digits below what is there. -/
theorem foldlM_appendField_eq_ok {fs : List (Nat × Int)} (hcounts : ∀ f ∈ fs, f.1 ≤ maxAddr) {line line' : Nat} :
    fs.reverse.foldlM (fun line f => appendField line f.1 f.2) line = .ok line' ↔
      (∀ f ∈ fs, Fits f) ∧
        line' = MixedRadix.value (counts fs) (values fs) + MixedRadix.volume (counts fs) * line ∧
        (fs = [] ∨ line' ≤ maxAddr) := by
  induction fs generalizing line' with
  | nil =>
      show Except.ok line = Except.ok line' ↔ _
      rw [Except.ok.injEq]
      constructor
      · rintro rfl
        exact ⟨nofun, by show line = 0 + 1 * line; omega, .inl rfl⟩
      · rintro ⟨-, hline, -⟩
        have hline : line' = 0 + 1 * line := hline
        omega
  | cons f fs ih =>
      have ih := @ih fun g hg => hcounts g (List.mem_cons_of_mem _ hg)
      have hf := hcounts f List.mem_cons_self
      rw [List.reverse_cons, List.foldlM_append, except_bind_eq_ok]
      have hstep : ∀ upper, List.foldlM (fun line f => appendField line f.1 f.2) upper [f] = .ok line' ↔
          appendField upper f.1 f.2 = .ok line' := by
        intro upper
        rw [List.foldlM_cons, except_bind_eq_ok]
        constructor
        · rintro ⟨_, hok, hpure⟩
          obtain rfl := Except.ok.inj hpure
          exact hok
        · exact fun hok => ⟨line', hok, rfl⟩
      constructor
      · rintro ⟨upper, hupper, hlast⟩
        obtain ⟨hfits, rfl, -⟩ := ih.mp hupper
        obtain ⟨hfit, hline, hle⟩ := (appendField_eq_ok hf).mp ((hstep _).mp hlast)
        refine ⟨List.forall_mem_cons.mpr ⟨hfit, hfits⟩, ?_, .inr hle⟩
        exact hline.trans (horner _ _ _ _ _)
      · rintro ⟨hfits, hline, hle⟩
        obtain ⟨hfit, hfits⟩ := List.forall_mem_cons.mp hfits
        have hle : line' ≤ maxAddr := hle.resolve_left (List.cons_ne_nil _ _)
        have hline : line' = f.2.toNat + f.1 * MixedRadix.value (counts fs) (values fs) +
            f.1 * MixedRadix.volume (counts fs) * line := hline
        -- what is above a field is below the whole
        set upper := MixedRadix.value (counts fs) (values fs) + MixedRadix.volume (counts fs) * line with hupper
        have hsum : line' = upper * f.1 + f.2.toNat := hline.trans (horner _ _ _ _ _).symm
        have hpos : 0 < f.1 := by
          have := hfit.1
          have := hfit.2
          omega
        have hupperle : upper ≤ maxAddr := by
          have := Nat.le_mul_of_pos_right upper hpos
          omega
        exact ⟨upper, ih.mpr ⟨hfits, rfl, .inr hupperle⟩, (hstep _).mpr ((appendField_eq_ok hf).mpr ⟨hfit, hsum, hle⟩)⟩

theorem foldlM_levels (cfg : LatTp.Config) (levels : List Nat) (av : AddrVec) (line : Nat) :
    ((List.range cfg.rowPos).drop 1).reverse.foldlM
        (fun line position => appendField line (levels.getD position 0) (av.coord position)) line =
      (lowFields cfg levels av).tail.reverse.foldlM (fun line f => appendField line f.1 f.2) line := by
  unfold lowFields
  rw [List.tail_cons, ← List.map_reverse, List.foldlM_map]

/-- The counts are numbers of type `int`. -/
def IntCounts (cfg : LatTp.Config) (levels : List Nat) : Prop :=
  cfg.txBytes ≤ maxAddr ∧ ∀ count ∈ counts (fields cfg levels []), count ≤ maxAddr

theorem counts_fields (cfg : LatTp.Config) (levels : List Nat) (av av' : AddrVec) :
    counts (fields cfg levels av) = counts (fields cfg levels av') := by
  unfold counts fields lowFields
  simp only [List.map_append, List.map_cons, List.map_map]
  rfl

theorem value_fields (cfg : LatTp.Config) (levels : List Nat) (av : AddrVec) :
    MixedRadix.value (counts (fields cfg levels av)) (values (fields cfg levels av)) =
      MixedRadix.value (counts (lowFields cfg levels av)) (values (lowFields cfg levels av)) +
        MixedRadix.volume (counts (lowFields cfg levels av)) * (av.coord cfg.rowPos).toNat := by
  unfold fields counts values
  rw [List.map_append, List.map_append, MixedRadix.value_append (by rw [List.length_map, List.length_map])]
  show _ + _ * MixedRadix.value [cfg.numRows] [_] = _
  rw [MixedRadix.value_singleton]

theorem and_sub_one_iff {n : Nat} : ¬ (n = 0 ∨ n &&& (n - 1) ≠ 0) ↔ ∃ k, n = 2 ^ k := by
  rw [not_or, not_not]
  exact Nat.ne_zero_and_sub_one_eq_zero_iff_isPowerOfTwo

/-- What `physical_byte_address` refuses before it computes. -/
abbrev Refused (cfg : LatTp.Config) (av : AddrVec) : Prop :=
  av.coord 0 ≠ 0 ∨ av.coord cfg.rowPos < 0 ∨ av.coord cfg.rowPos ≥ cfg.numRows ∨
    av.coord cfg.colPos < 0 ∨ av.coord cfg.colPos % cfg.internalPrefetchSize ≠ 0

theorem not_refused_iff {cfg : LatTp.Config} {av : AddrVec} :
    ¬ Refused cfg av ↔ av.coord 0 = 0 ∧ Fits (cfg.numRows, av.coord cfg.rowPos) ∧ 0 ≤ av.coord cfg.colPos ∧
      av.coord cfg.colPos % cfg.internalPrefetchSize = 0 := by
  unfold Fits
  simp only [not_or, not_not, not_lt, ge_iff_le, not_le, and_assoc]

/-- The steps of `physical_byte_address`, one by one. -/
theorem physicalByteAddress_steps (cfg : LatTp.Config) (levels : List Nat) (av : AddrVec) (addr : Int) :
    physicalByteAddress cfg levels av = .ok addr ↔
      ¬ Refused cfg av ∧ ∃ line, (lowFields cfg levels av).reverse.foldlM (fun line f => appendField line f.1 f.2)
          (av.coord cfg.rowPos).toNat = .ok line ∧
        (∃ k, cfg.txBytes = 2 ^ k) ∧ ∃ line', appendField line cfg.txBytes 0 = .ok line' ∧ (line' : Int) = addr := by
  have hlow : (lowFields cfg levels av).reverse.foldlM (fun line f => appendField line f.1 f.2)
      (av.coord cfg.rowPos).toNat =
      (lowFields cfg levels av).tail.reverse.foldlM (fun line f => appendField line f.1 f.2)
        (av.coord cfg.rowPos).toNat >>= fun line =>
          appendField line cfg.numCls (av.coord cfg.colPos / cfg.internalPrefetchSize) := by
    show (_ :: (lowFields cfg levels av).tail).reverse.foldlM _ _ = _
    rw [List.reverse_cons, List.foldlM_append]
    congr 1
    funext line
    rw [List.foldlM_cons]
    exact bind_pure _
  rw [hlow]
  unfold physicalByteAddress
  rw [foldlM_levels]
  by_cases hrefused : Refused cfg av
  · have hthrow : ∀ f : Unit → Except String Int, (throw "Lat-Tp: invalid single-channel physical address" >>= f) ≠
        .ok addr := nofun
    dsimp only
    rw [if_pos hrefused]
    exact ⟨fun h => absurd h (hthrow _), fun h => absurd hrefused h.1⟩
  · dsimp only
    rw [if_neg hrefused]
    simp only [except_bind_eq_ok]
    constructor
    · rintro ⟨line, hline, upper, hupper, h⟩
      split_ifs at h with htx
      · cases h
      · obtain ⟨line', hline', hpure⟩ := except_bind_eq_ok.mp h
        exact ⟨hrefused, upper, ⟨line, hline, hupper⟩, and_sub_one_iff.mp htx, line', hline', Except.ok.inj hpure⟩
    · rintro ⟨-, upper, ⟨line, hline, hupper⟩, htx, line', hline', rfl⟩
      refine ⟨line, hline, upper, hupper, ?_⟩
      rw [if_neg (and_sub_one_iff.mpr htx)]
      exact except_bind_eq_ok.mpr ⟨line', hline', rfl⟩

/-- `physical_byte_address` returns the exact address, where there is one, and throws otherwise. -/
theorem physicalByteAddress_eq_ok {cfg : LatTp.Config} {levels : List Nat} (hprefetch : 0 < cfg.internalPrefetchSize)
    (hint : IntCounts cfg levels) (av : AddrVec) (addr : Int) :
    physicalByteAddress cfg levels av = .ok addr ↔ Encodable cfg levels av ∧ addr = exactAddress cfg levels av := by
  have hcounts : ∀ f ∈ lowFields cfg levels av, f.1 ≤ maxAddr := by
    intro f hf
    refine hint.2 f.1 ?_
    rw [counts_fields cfg levels [] av]
    exact List.mem_map_of_mem (List.mem_append_left _ hf)
  have hcolumn : Fits (cfg.numCls, av.coord cfg.colPos / cfg.internalPrefetchSize) → 0 ≤ av.coord cfg.colPos := by
    intro h
    exact (Int.ediv_nonneg_iff_of_pos (Int.ofNat_lt.mpr hprefetch)).mp h.1
  have hexact : exactAddress cfg levels av = (MixedRadix.value (counts (lowFields cfg levels av))
      (values (lowFields cfg levels av)) + MixedRadix.volume (counts (lowFields cfg levels av)) *
        (av.coord cfg.rowPos).toNat) * cfg.txBytes + (0 : Int).toNat := by
    unfold exactAddress
    rw [value_fields, Nat.mul_comm]
    rfl
  rw [physicalByteAddress_steps]
  constructor
  · rintro ⟨hrefused, line, hline, htx, line', hline', rfl⟩
    obtain ⟨hchannel, hrow, -, haligned⟩ := not_refused_iff.mp hrefused
    obtain ⟨hfits, rfl, -⟩ := (foldlM_appendField_eq_ok hcounts).mp hline
    obtain ⟨-, hsum, hle⟩ := (appendField_eq_ok hint.1).mp hline'
    rw [← hexact] at hsum
    refine ⟨⟨hchannel, haligned, fun f hf => ?_, htx, hsum ▸ hle⟩, congrArg Int.ofNat hsum⟩
    rcases List.mem_append.mp hf with hf | hf
    · exact hfits f hf
    · rw [List.mem_singleton.mp hf]
      exact hrow
  · rintro ⟨⟨hchannel, haligned, hfits, htx, hbounded⟩, rfl⟩
    have hlow : ∀ f ∈ lowFields cfg levels av, Fits f := fun f hf => hfits f (List.mem_append_left _ hf)
    have hrow : Fits (cfg.numRows, av.coord cfg.rowPos) :=
      hfits _ (List.mem_append_right _ List.mem_cons_self)
    have hpos : 0 < cfg.txBytes := by
      obtain ⟨k, hk⟩ := htx
      rw [hk]
      exact Nat.two_pow_pos k
    rw [hexact] at hbounded
    refine ⟨not_refused_iff.mpr ⟨hchannel, hrow, hcolumn (hlow _ List.mem_cons_self), haligned⟩, _,
      (foldlM_appendField_eq_ok hcounts).mpr ⟨hlow, rfl, .inr ?_⟩, htx, _, (appendField_eq_ok hint.1).mpr
        ⟨⟨le_refl 0, Int.ofNat_lt.mpr hpos⟩, rfl, hbounded⟩, ?_⟩
    · exact (Nat.le_mul_of_pos_right _ hpos).trans hbounded
    · rw [hexact]

/-! ## The mapper -/

/-- The parameters are those of an organization. -/
structure Describes (cfg : LatTp.Config) (levels : List Nat) (org : Organization) : Prop where
  rowPos : cfg.rowPos = org.rowLevel
  colPos : cfg.colPos = org.rowLevel + 1
  levels : ∀ level, 1 ≤ level → level < org.rowLevel → (levels.getD level 0 : Int) = org.levelSizes.getD level 0
  numRows : (cfg.numRows : Int) = org.levelSizes.getD org.rowLevel 0
  prefetch : (cfg.internalPrefetchSize : Int) = org.internalPrefetchSize
  numCls : (cfg.numCls : Int) = org.levelSizes.getD (org.rowLevel + 1) 0 / org.internalPrefetchSize
  txBytes : (cfg.txBytes : Int) = org.txBytes

variable {cfg : LatTp.Config} {levels : List Nat} {org : Organization} {b : AddrMapperBase} {name : String}

/-- The fields, column first, then the levels down to the row. -/
theorem fields_eq (hrow : b.rowIdx + 1 = cfg.rowPos) (av : AddrVec) :
    fields cfg levels av = (cfg.numCls, av.coord cfg.colPos / cfg.internalPrefetchSize) ::
      ((List.range b.rowIdx).map (fun i => (levels.getD (i + 1) 0, av.coord (i + 1))) ++
        [(cfg.numRows, av.coord (b.rowIdx + 1))]) := by
  unfold fields lowFields
  rw [← hrow, List.range_succ_eq_map, List.drop_succ_cons, List.drop_zero, List.map_map]
  rfl

/-- The counts of the fields are the sizes that the mapper cuts by. -/
theorem counts_eq_radixes (hnames : org.levelNames.length = org.levelSizes.length)
    (hinit : AddrMapperBase.init name org = .ok b) (hd : Describes cfg levels org) (av : AddrVec) :
    counts (fields cfg levels av) = b.columnFirst.map b.radix := by
  obtain ⟨hrow, -, hradix⟩ := init_spec hnames hinit
  have hrowPos : b.rowIdx + 1 = cfg.rowPos := hrow.trans hd.rowPos.symm
  have hcolIdx := b.colIdx_eq
  have hcount : ∀ i n : Nat, i < b.rowIdx + 2 → (n : Int) = units org (i + 1) → n = b.radix i := by
    intro i n hi hn
    exact Int.ofNat_inj.mp (hn.trans (hradix i hi).symm)
  rw [fields_eq hrowPos, AddrMapperBase.columnFirst_eq]
  unfold counts
  simp only [List.map_cons, List.map_append, List.map_map, List.map_nil]
  refine congrArg₂ List.cons ?_ (congrArg₂ List.append (List.map_congr_left fun i hi => ?_) (congrArg₂ List.cons ?_ rfl))
  · refine hcount _ _ (by omega) ?_
    unfold units
    rw [if_pos (by omega), hcolIdx, hrow]
    exact hd.numCls
  · have := List.mem_range.mp hi
    refine hcount _ _ (by omega) ?_
    unfold units
    rw [if_neg (by omega)]
    exact hd.levels (i + 1) (by omega) (by omega)
  · refine hcount _ _ (by omega) ?_
    unfold units
    rw [if_neg (by omega), hrow]
    exact hd.numRows

/-- The values of the fields are the coordinates of a vector in bursts. -/
theorem snd_fields_eq (hrow : b.rowIdx + 1 = cfg.rowPos) (av v : AddrVec) :
    (fields cfg levels av).map Prod.snd = AddrMapperBase.coords v b.columnFirst ↔
      v.coord (b.colIdx + 1) = av.coord cfg.colPos / cfg.internalPrefetchSize ∧
        ∀ level, 1 ≤ level → level ≤ cfg.rowPos → v.coord level = av.coord level := by
  rw [fields_eq hrow, AddrMapperBase.columnFirst_eq]
  unfold AddrMapperBase.coords
  simp only [List.map_cons, List.map_append, List.map_map, List.map_nil, List.cons.injEq]
  constructor
  · rintro ⟨hcol, hrest⟩
    obtain ⟨hmid, hlast⟩ := List.append_inj hrest (by rw [List.length_map, List.length_map])
    refine ⟨hcol.symm, fun level hpos hle => ?_⟩
    by_cases hlevel : level = b.rowIdx + 1
    · subst hlevel
      exact (List.cons.inj hlast).1.symm
    · have hmem : level - 1 ∈ List.range b.rowIdx := List.mem_range.mpr (by omega)
      have h := List.map_inj_left.mp hmid (level - 1) hmem
      rw [Function.comp_apply, show level - 1 + 1 = level by omega] at h
      exact h.symm
  · rintro ⟨hcol, hlevels⟩
    refine ⟨hcol.symm, congrArg₂ List.append (List.map_congr_left fun i hi => ?_) (congrArg₂ List.cons ?_ rfl)⟩
    · have := List.mem_range.mp hi
      exact (hlevels (i + 1) (by omega) (by omega)).symm
    · exact (hlevels (b.rowIdx + 1) (by omega) (by omega)).symm

theorem values_cast {fs : List (Nat × Int)} (h : ∀ f ∈ fs, Fits f) :
    (values fs).map (fun d : Nat => (d : Int)) = fs.map Prod.snd := by
  unfold values
  rw [List.map_map]
  exact List.map_congr_left fun f hf => Int.toNat_of_nonneg (h f hf).1

theorem within_iff {fs : List (Nat × Int)} (h : ∀ f ∈ fs, Fits f) : MixedRadix.Within (counts fs) (values fs) := by
  induction fs with
  | nil => exact .nil
  | cons f fs ih =>
      obtain ⟨hf, hfs⟩ := List.forall_mem_cons.mp h
      refine .cons ?_ (ih hfs)
      show f.2.toNat < f.1
      have := hf.1
      have := hf.2
      omega

/-- Decoding what was encoded. -/
theorem decode_encode (hnames : org.levelNames.length = org.levelSizes.length)
    (hinit : AddrMapperBase.init name org = .ok b) (htx : isPowerOfTwo org.txBytes = true)
    (hd : Describes cfg levels org) {av : AddrVec} (hav : Encodable cfg levels av) {req : Request Command K}
    (hreq : req.intraChannelAddr = exactAddress cfg levels av) :
    (b.roBaRaCoCh req).coord (b.colIdx + 1) = av.coord cfg.colPos / cfg.internalPrefetchSize ∧
      ∀ level, 1 ≤ level → level ≤ cfg.rowPos → (b.roBaRaCoCh req).coord level = av.coord level := by
  obtain ⟨hrow, hoffset, -⟩ := init_spec hnames hinit
  have hbytes : cfg.txBytes = 2 ^ b.txOffset := by
    have h := hd.txBytes.trans (eq_two_pow_of_isPowerOfTwo htx)
    rw [← hoffset] at h
    exact_mod_cast h
  have hline : b.line req =
      ((MixedRadix.value (counts (fields cfg levels av)) (values (fields cfg levels av)) : Nat) : Int) := by
    unfold AddrMapperBase.line
    rw [hreq, exactAddress, hbytes, ← Int.natCast_shiftRight, Nat.shiftRight_eq_div_pow,
      Nat.mul_div_cancel_left _ (Nat.two_pow_pos _)]
  have hdecodes := AddrMapperBase.roBaRaCoCh_decodes hline
  refine (snd_fields_eq (hrow.trans hd.rowPos.symm) av _).mp (show (fields cfg levels av).map Prod.snd = _ from ?_)
  rw [hdecodes.digits, ← counts_eq_radixes hnames hinit hd av, MixedRadix.digits_value (within_iff hav.fits),
    values_cast hav.fits]

/-- Fields whose values are digits. -/
theorem fits_of_within {fs : List (Nat × Int)} {ds : List Nat} (hds : fs.map Prod.snd = ds.map (fun d : Nat => (d : Int)))
    (hwithin : MixedRadix.Within (counts fs) ds) : (∀ f ∈ fs, Fits f) ∧ values fs = ds := by
  induction fs generalizing ds with
  | nil =>
      cases hwithin
      exact ⟨nofun, rfl⟩
  | cons f fs ih =>
      cases hwithin with
      | @cons _ d _ ds hd hrest =>
          obtain ⟨hvalue, hvalues⟩ := List.cons.inj hds
          obtain ⟨hfits, heq⟩ := ih hvalues hrest
          have hvalue : f.2 = d := hvalue
          refine ⟨List.forall_mem_cons.mpr ⟨?_, hfits⟩, ?_⟩
          · unfold Fits
            omega
          · show f.2.toNat :: values fs = d :: ds
            rw [hvalue, heq, Int.toNat_natCast]

/-- The coordinates of a decoded address as a frontend has them: channel 0, and the column in columns. -/
def encodeVec (cfg : LatTp.Config) (v : AddrVec) : AddrVec :=
  (v.set 0 0).set cfg.colPos (v.coord cfg.colPos * cfg.internalPrefetchSize)

/-- Encoding what was decoded. -/
theorem encode_decode (hprefetch : 0 < cfg.internalPrefetchSize)
    (hnames : org.levelNames.length = org.levelSizes.length) (hinit : AddrMapperBase.init name org = .ok b)
    (htx : isPowerOfTwo org.txBytes = true) (hd : Describes cfg levels org) {req : Request Command K} {addr : Nat}
    (hreq : req.intraChannelAddr = addr) (hcapacity : (addr : Int) < capacity org 1) (haligned : org.txBytes ∣ (addr : Int))
    (hmax : addr ≤ maxAddr) :
    Encodable cfg levels (encodeVec cfg (b.roBaRaCoCh req)) ∧
      exactAddress cfg levels (encodeVec cfg (b.roBaRaCoCh req)) = addr := by
  obtain ⟨hrow, hoffset, hradix⟩ := init_spec hnames hinit
  have hrowPos : b.rowIdx + 1 = cfg.rowPos := hrow.trans hd.rowPos.symm
  have hcolPos : b.colIdx + 1 = cfg.colPos := by
    rw [b.colIdx_eq, hd.colPos, hrow]
  have hcolIdx := b.colIdx_eq
  have hbytes : cfg.txBytes = 2 ^ b.txOffset := by
    have h := hd.txBytes.trans (eq_two_pow_of_isPowerOfTwo htx)
    rw [← hoffset] at h
    exact_mod_cast h
  -- the transaction of the address
  have hdvd : cfg.txBytes ∣ addr := by
    rw [← hd.txBytes] at haligned
    exact_mod_cast haligned
  have hline : b.line req = ((addr / cfg.txBytes : Nat) : Int) := by
    unfold AddrMapperBase.line
    rw [hreq, ← Int.natCast_shiftRight, Nat.shiftRight_eq_div_pow, ← hbytes]
  have hlt : addr / cfg.txBytes < b.lines := by
    unfold capacity at hcapacity
    rw [← hd.txBytes, Int.one_mul, ← lines_eq_units hrow hradix] at hcapacity
    norm_cast at hcapacity
    exact Nat.div_lt_of_lt_mul hcapacity
  have hdecodes := AddrMapperBase.roBaRaCoCh_decodes hline
  set v := b.roBaRaCoCh req with hv
  have hlength : v.length = b.rowIdx + 3 := hdecodes.length
  have hvec : ∀ j, (encodeVec cfg v).coord j =
      if cfg.colPos = j then v.coord cfg.colPos * cfg.internalPrefetchSize else if 0 = j then 0 else v.coord j := by
    intro j
    unfold encodeVec
    rw [AddrVec.coord_set (by rw [List.length_set]; omega), AddrVec.coord_set (by omega)]
  have hcolumn : (encodeVec cfg v).coord cfg.colPos = v.coord cfg.colPos * cfg.internalPrefetchSize :=
    (hvec _).trans (if_pos rfl)
  have hsnd : (fields cfg levels (encodeVec cfg v)).map Prod.snd = AddrMapperBase.coords v b.columnFirst := by
    refine (snd_fields_eq hrowPos _ v).mpr ⟨?_, fun level hpos hle => ?_⟩
    · rw [hcolumn, hcolPos, Int.mul_ediv_cancel _ (by omega)]
    · rw [hvec, if_neg (by omega), if_neg (by omega)]
  have hcounts := counts_eq_radixes hnames hinit hd (encodeVec cfg v)
  have hwithin : MixedRadix.Within (counts (fields cfg levels (encodeVec cfg v)))
      (MixedRadix.digits (b.columnFirst.map b.radix) (addr / cfg.txBytes)) := by
    rw [hcounts]
    exact MixedRadix.within_digits (AddrMapperBase.radixes_pos _) _
  obtain ⟨hfits, hvalues⟩ := fits_of_within (hsnd.trans hdecodes.digits) hwithin
  have hexact : exactAddress cfg levels (encodeVec cfg v) = addr := by
    rw [← b.levels_columnFirst.volume] at hlt
    rw [exactAddress, hcounts, hvalues, MixedRadix.value_digits hlt, Nat.mul_div_cancel' hdvd]
  refine ⟨⟨?_, ?_, hfits, ⟨_, hbytes⟩, hexact.trans_le hmax⟩, hexact⟩
  · rw [hvec, if_neg (by omega), if_pos rfl]
  · rw [hcolumn, Int.mul_emod_left]

/-- `physical_byte_address` and `RoBaRaCoCh` are inverse to each other, and what has no address is refused. -/
theorem physicalByteAddress_inverts (hprefetch : 0 < cfg.internalPrefetchSize) (hint : IntCounts cfg levels)
    (hnames : org.levelNames.length = org.levelSizes.length) (hinit : AddrMapperBase.init name org = .ok b)
    (htx : isPowerOfTwo org.txBytes = true) (hd : Describes cfg levels org) :
    (∀ av addr, physicalByteAddress cfg levels av = .ok addr → ∀ req : Request Command K, req.intraChannelAddr = addr →
      (b.roBaRaCoCh req).coord cfg.colPos = av.coord cfg.colPos / cfg.internalPrefetchSize ∧
        ∀ level, 1 ≤ level → level ≤ cfg.rowPos → (b.roBaRaCoCh req).coord level = av.coord level) ∧
    (∀ addr, 0 ≤ addr → addr < capacity org 1 → org.txBytes ∣ addr → addr ≤ maxAddr → ∀ req : Request Command K,
      req.intraChannelAddr = addr → physicalByteAddress cfg levels (encodeVec cfg (b.roBaRaCoCh req)) = .ok addr) ∧
    ∀ (cfg : LatTp.Config) (levels : List Nat), 0 < cfg.internalPrefetchSize → IntCounts cfg levels → ∀ av,
      ((∃ e, physicalByteAddress cfg levels av = .error e) ↔ ¬ Encodable cfg levels av) ∧
        ∀ addr, physicalByteAddress cfg levels av = .ok addr → addr = exactAddress cfg levels av ∧ addr ≤ maxAddr := by
  refine ⟨fun av addr hok req hreq => ?_, fun addr hnonneg hcapacity haligned hmax req hreq => ?_,
    fun cfg levels hprefetch hint av => ⟨⟨?_, fun hnot => ?_⟩, fun addr hok => ?_⟩⟩
  · obtain ⟨hav, rfl⟩ := (physicalByteAddress_eq_ok hprefetch hint av addr).mp hok
    obtain ⟨hrow, -, -⟩ := init_spec hnames hinit
    obtain ⟨hcolumn, hlevels⟩ := decode_encode hnames hinit htx hd hav hreq
    rw [b.colIdx_eq, hrow, ← hd.colPos] at hcolumn
    exact ⟨hcolumn, hlevels⟩
  · obtain ⟨a, rfl⟩ := Int.eq_ofNat_of_zero_le hnonneg
    obtain ⟨hav, hexact⟩ := encode_decode hprefetch hnames hinit htx hd hreq hcapacity haligned (Int.ofNat_le.mp hmax)
    exact (physicalByteAddress_eq_ok hprefetch hint _ _).mpr ⟨hav, congrArg Int.ofNat hexact.symm⟩
  · rintro ⟨e, he⟩ hav
    rw [(physicalByteAddress_eq_ok hprefetch hint av _).mpr ⟨hav, rfl⟩] at he
    cases he
  · cases h : physicalByteAddress cfg levels av with
    | error e => exact ⟨e, rfl⟩
    | ok addr => exact absurd ((physicalByteAddress_eq_ok hprefetch hint av addr).mp h).1 hnot
  · obtain ⟨hav, rfl⟩ := (physicalByteAddress_eq_ok hprefetch hint av addr).mp hok
    exact ⟨rfl, Int.ofNat_le.mpr hav.bounded⟩

/-! ## A small device -/

theorem row_below_channel : 0 < 3 := Nat.succ_pos 2

theorem column_below_row : 3 + 2 = ([1, 1, 2, 4, 64] : List Int).length := rfl

/-- One channel of two banks, of four rows of eight bursts. -/
def twoBanks : Organization where
  levelNames := ["Channel", "Rank", "Bank", "Row", "Column"]
  levelSizes := [1, 1, 2, 4, 64]
  rowLevel := 3
  internalPrefetchSize := 8
  channelWidth := 64
  rowLevel_pos := row_below_channel
  rowLevel_eq := column_below_row

def twoBanksConfig : LatTp.Config where
  addrVecSize := 5
  bankPositions := [1, 2]
  bankCounts := [1, 2]
  totalBankUnits := 2
  rowPos := 3
  colPos := 4
  numRows := 4
  internalPrefetchSize := 8
  numCls := 8
  nopCounter := 1
  txBytes := 64

theorem describes_twoBanks : Describes twoBanksConfig [0, 1, 2] twoBanks where
  rowPos := rfl
  colPos := rfl
  levels := by
    intro level hpos hlt
    have hlt : level < 3 := hlt
    obtain rfl | rfl : level = 1 ∨ level = 2 := by omega
    · rfl
    · rfl
  numRows := rfl
  prefetch := rfl
  numCls := rfl
  txBytes := rfl

theorem physicalByteAddress_inverts_twoBanks :
    (∀ av addr, physicalByteAddress twoBanksConfig [0, 1, 2] av = .ok addr →
      ∀ req : Request Command Unit, req.intraChannelAddr = addr →
        (AddrMapperBase.roBaRaCoCh ⟨[0, 1, 2, 3], 6, 2, rfl⟩ req).coord 4 = av.coord 4 / 8 ∧
          ∀ level, 1 ≤ level → level ≤ 3 →
            (AddrMapperBase.roBaRaCoCh ⟨[0, 1, 2, 3], 6, 2, rfl⟩ req).coord level = av.coord level) ∧
    (∀ addr, 0 ≤ addr → addr < capacity twoBanks 1 → twoBanks.txBytes ∣ addr → addr ≤ maxAddr →
      ∀ req : Request Command Unit, req.intraChannelAddr = addr → physicalByteAddress twoBanksConfig [0, 1, 2]
        (encodeVec twoBanksConfig (AddrMapperBase.roBaRaCoCh ⟨[0, 1, 2, 3], 6, 2, rfl⟩ req)) = .ok addr) ∧
    ∀ (cfg : LatTp.Config) (levels : List Nat), 0 < cfg.internalPrefetchSize → IntCounts cfg levels → ∀ av,
      ((∃ e, physicalByteAddress cfg levels av = .error e) ↔ ¬ Encodable cfg levels av) ∧
        ∀ addr, physicalByteAddress cfg levels av = .ok addr → addr = exactAddress cfg levels av ∧ addr ≤ maxAddr :=
  physicalByteAddress_inverts (by decide) ⟨by decide, by decide⟩ rfl (show AddrMapperBase.init "RoBaRaCoCh" twoBanks = _
    from rfl) (by decide) describes_twoBanks

end Ramulator.Frontend.LatTp
