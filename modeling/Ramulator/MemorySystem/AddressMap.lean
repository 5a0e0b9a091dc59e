/-
# Ramulator.MemorySystem.AddressMap — byte addresses and device coordinates, one to one.

`CacheLineInterleave` takes the channel's bits out of the middle of an address, and a flat mapper cuts the rest
into coordinates. Together they are a bijection between the transactions below the system's capacity and the
coordinates in range, as long as the channel's bits lie within the transactions of the system: nothing checks
`interleave_bits`, and bits that are taken from above leave two transactions in one place.
-/
import Ramulator.Controller.AddrDecode
import Ramulator.MemorySystem.GenericDRAM

namespace Ramulator.MemorySystem

open Ramulator.Base (Request)
open Ramulator.Controller Ramulator.Dram Ramulator.Lib

variable {K : Type}

/-! ## What an organization has -/

/-- The coordinates of a level below the channel, the column in bursts. -/
def units (org : Organization) (level : Nat) : Int :=
  if level = org.rowLevel + 1 then org.levelSizes.getD level 0 / org.internalPrefetchSize
  else org.levelSizes.getD level 0

/-- The bytes of all channels. -/
def capacity (org : Organization) (channels : Int) : Int :=
  org.txBytes * (channels * ((List.range (org.rowLevel + 1)).map fun i => units org (i + 1)).foldr (· * ·) 1)

/-- A vector with every coordinate in range. -/
structure InRange (org : Organization) (channels : Int) (v : AddrVec) : Prop where
  length : v.length = org.rowLevel + 2
  channel : 0 ≤ v.coord 0 ∧ v.coord 0 < channels
  coord : ∀ level, 1 ≤ level → level ≤ org.rowLevel + 1 → 0 ≤ v.coord level ∧ v.coord level < units org level

/-! ## The mappers that decode -/

inductive FlatMapper where
  | roBaRaCoCh
  | chRaBaRoCo
  | mop4clxor
  deriving DecidableEq, Repr

namespace FlatMapper

def init (org : Organization) : FlatMapper → Except String AddrMapperBase
  | roBaRaCoCh => AddrMapperBase.init "RoBaRaCoCh" org
  | chRaBaRoCo => AddrMapperBase.init "ChRaBaRoCo" org
  | mop4clxor => AddrMapperBase.initMOP4CLXOR org

def mapper (b : AddrMapperBase) : FlatMapper → AddrMapper
  | roBaRaCoCh => .roBaRaCoCh b
  | chRaBaRoCo => .chRaBaRoCo b
  | mop4clxor => .mop4clxor b

/-- The vector that the mapper leaves. -/
def decode (b : AddrMapperBase) (req : Request Command K) : FlatMapper → AddrVec
  | roBaRaCoCh => b.roBaRaCoCh req
  | chRaBaRoCo => b.chRaBaRoCo req
  | mop4clxor => b.mop4clxor req

end FlatMapper

/-- Where the request goes with `addr` for its address: through the channel mapper and then the address mapper. -/
def locate (m : FlatMapper) (b : AddrMapperBase) (c : Interleave) (req : Request Command K) (addr : Int) : AddrVec :=
  m.decode b ((ChannelMapper.cacheLineInterleave c).apply { req with addr := addr })

/-! ## The channel's bits -/

theorem calcLog2_two_pow (n : Nat) : calcLog2 (2 ^ n) = n := by
  unfold calcLog2
  have hcast : ((2 : Int) ^ n).toNat = 2 ^ n := by
    rw [← Int.toNat_natCast (2 ^ n)]
    norm_cast
  rw [hcast]
  exact Nat.log2_two_pow

theorem eq_two_pow_of_isPowerOfTwo {val : Int} (h : isPowerOfTwo val = true) : val = 2 ^ calcLog2 val := by
  unfold isPowerOfTwo at h
  rw [Bool.and_eq_true, decide_eq_true_iff, beq_iff_eq] at h
  obtain ⟨hpos, hand⟩ := h
  obtain ⟨n, hn⟩ := (Nat.and_sub_one_eq_zero_iff_isPowerOfTwo (by omega)).mp hand
  have hval : val = 2 ^ n := by
    rw [← Int.toNat_of_nonneg hpos.le, hn]
    norm_cast
  rw [hval, calcLog2_two_pow]

/-- The channel and the transaction within it. -/
def splitLine (interleave width x : Nat) : Nat × Nat :=
  (MixedRadix.swapPlaces (2 ^ interleave) (2 ^ width) x % 2 ^ width,
    MixedRadix.swapPlaces (2 ^ interleave) (2 ^ width) x / 2 ^ width)

theorem splitLine_eq (interleave width x : Nat) :
    splitLine interleave width x =
      (x / 2 ^ interleave % 2 ^ width, x / 2 ^ (interleave + width) * 2 ^ interleave + x % 2 ^ interleave) := by
  unfold splitLine MixedRadix.swapPlaces
  rw [Nat.add_mul_mod_self_left, Nat.mod_mod, Nat.add_mul_div_left _ _ (Nat.two_pow_pos _),
    Nat.div_eq_of_lt (Nat.mod_lt _ (Nat.two_pow_pos _)), Nat.zero_add, Nat.div_div_eq_div_mul, ← Nat.pow_add,
    Nat.mul_comm (2 ^ interleave) (x / _), Nat.add_comm (x % _)]

/-- One channel has every transaction. -/
theorem swapPlaces_one (r x : Nat) : MixedRadix.swapPlaces r 1 x = x := by
  unfold MixedRadix.swapPlaces
  rw [Nat.mod_one, Nat.zero_add, Nat.one_mul, Nat.div_one, Nat.mod_add_div]

theorem splitLine_bijOn {interleave width lines : Nat} (h : width = 0 ∨ 2 ^ interleave ∣ lines) :
    Set.BijOn (splitLine interleave width) {x | x < 2 ^ width * lines} {p | p.1 < 2 ^ width ∧ p.2 < lines} := by
  have hpos := Nat.two_pow_pos width
  have hswap : Set.BijOn (MixedRadix.swapPlaces (2 ^ interleave) (2 ^ width)) {x | x < 2 ^ width * lines}
      {x | x < 2 ^ width * lines} := by
    rcases h with rfl | ⟨t, rfl⟩
    · have hid : MixedRadix.swapPlaces (2 ^ interleave) (2 ^ 0) = id := funext fun x => swapPlaces_one _ x
      rw [hid]
      exact Set.bijOn_id _
    · have hbij := MixedRadix.swapPlaces_bijOn (Nat.two_pow_pos interleave) hpos t
      rw [Nat.mul_left_comm] at hbij
      exact hbij
  refine ⟨fun x hx => ?_, fun x hx y hy heq => ?_, fun p hp => ?_⟩
  · have hlt : MixedRadix.swapPlaces (2 ^ interleave) (2 ^ width) x < _ := hswap.mapsTo hx
    exact ⟨Nat.mod_lt _ hpos, Nat.div_lt_of_lt_mul hlt⟩
  · refine hswap.injOn hx hy ?_
    have hmod := congrArg Prod.fst heq
    have hdiv := congrArg Prod.snd heq
    have hmod : _ % 2 ^ width = _ % 2 ^ width := hmod
    have hdiv : _ / 2 ^ width = _ / 2 ^ width := hdiv
    rw [← Nat.mod_add_div (MixedRadix.swapPlaces (2 ^ interleave) (2 ^ width) x) (2 ^ width), hmod, hdiv,
      Nat.mod_add_div]
  · obtain ⟨hchannel, hline⟩ := hp
    have hlt : p.1 + 2 ^ width * p.2 < 2 ^ width * lines := by
      calc p.1 + 2 ^ width * p.2 < 2 ^ width + 2 ^ width * p.2 := Nat.add_lt_add_right hchannel _
        _ = 2 ^ width * (p.2 + 1) := (Nat.add_comm _ _).trans (Nat.mul_succ _ _).symm
        _ ≤ 2 ^ width * lines := Nat.mul_le_mul_left _ hline
    obtain ⟨x, hx, hswapx⟩ := hswap.surjOn hlt
    refine ⟨x, hx, ?_⟩
    unfold splitLine
    rw [hswapx, Nat.add_mul_mod_self_left, Nat.mod_eq_of_lt hchannel, Nat.add_mul_div_left _ _ hpos,
      Nat.div_eq_of_lt hchannel, Nat.zero_add]

theorem coord_zero_withChannel (v : AddrVec) (channel : Int) :
    AddrVec.coord (ChannelMapper.withChannel v channel) 0 = channel := by
  unfold ChannelMapper.withChannel
  rw [AddrVec.coord_set, if_pos rfl]
  split_ifs with hnil
  · exact Nat.zero_lt_one
  · exact List.length_pos_of_ne_nil hnil

/-- The channel mapper splits the number of a transaction, whatever the byte in it. -/
theorem apply_cacheLineInterleave {interleaveBits width txOffset : Nat} {c : Interleave}
    (hc : Interleave.setupCacheLine interleaveBits (2 ^ width) txOffset = .ok c) (req : Request Command K) (addr : Nat) :
    let mapped := (ChannelMapper.cacheLineInterleave c).apply { req with addr := addr }
    mapped.addrVec = ChannelMapper.withChannel req.addrVec ((splitLine interleaveBits width (addr / 2 ^ txOffset)).1 : Int) ∧
      mapped.intraChannelAddr >>> txOffset = ((splitLine interleaveBits width (addr / 2 ^ txOffset)).2 : Int) := by
  have hc : c = ⟨2 ^ width, txOffset + interleaveBits, width⟩ := by
    unfold Interleave.setupCacheLine at hc
    split_ifs at hc
    rw [calcLog2_two_pow] at hc
    exact (Except.ok.inj hc).symm
  subst hc
  unfold ChannelMapper.apply
  by_cases hone : (2 : Int) ^ width ≤ 1
  · -- one channel
    have hwidth : width = 0 := by
      by_contra hne
      have hlt : 1 < 2 ^ width := Nat.one_lt_two_pow hne
      norm_cast at hone
      omega
    subst hwidth
    simp only [if_pos hone]
    refine ⟨congrArg (ChannelMapper.withChannel req.addrVec) ?_, ?_⟩
    · rw [splitLine_eq, Nat.pow_zero, Nat.mod_one]
      rfl
    · show (addr : Int) >>> txOffset = _
      rw [← Int.natCast_shiftRight, Nat.shiftRight_eq_div_pow]
      unfold splitLine
      rw [Nat.pow_zero, swapPlaces_one, Nat.div_one]
  · simp only [if_neg hone, splitLine_eq]
    refine ⟨congrArg (ChannelMapper.withChannel req.addrVec) ?_, ?_⟩
    · rw [← Int.natCast_shiftRight, Nat.shiftRight_eq_div_pow, Nat.pow_add, ← Nat.div_div_eq_div_mul]
      norm_cast
    · have hstrip : Interleave.strip ⟨2 ^ width, txOffset + interleaveBits, width⟩ (addr : Int) =
          ((addr / 2 ^ (txOffset + interleaveBits + width) * 2 ^ (txOffset + interleaveBits) +
            addr % 2 ^ (txOffset + interleaveBits) : Nat) : Int) := by
        unfold Interleave.strip
        rw [← Int.natCast_shiftRight, Nat.shiftRight_eq_div_pow]
        norm_cast
      rw [hstrip, ← Int.natCast_shiftRight, Nat.shiftRight_eq_div_pow, Nat.pow_add 2 txOffset interleaveBits,
        Nat.mul_left_comm, Nat.mul_add_div (Nat.two_pow_pos _), Nat.mod_mul_right_div_self, Nat.pow_add 2 (_ + _) width,
        Nat.pow_add 2 txOffset, Nat.mul_assoc, ← Nat.div_div_eq_div_mul, ← Nat.pow_add]

/-! ## Byte addresses -/

variable {b : AddrMapperBase} {c : Interleave} {width interleaveBits : Nat}

/-- The transactions of a range of byte addresses. -/
theorem bijOn_div_tx (txOffset lines : Nat) :
    Set.BijOn (fun addr : Int => addr.toNat / 2 ^ txOffset)
      {addr | 0 ≤ addr ∧ addr < 2 ^ txOffset * (lines : Int) ∧ (2 : Int) ^ txOffset ∣ addr} {x | x < lines} := by
  have hpos := Nat.two_pow_pos txOffset
  refine ⟨?_, ?_, fun x hx => ⟨((2 ^ txOffset * x : Nat) : Int), ⟨Int.natCast_nonneg _, ?_, ?_⟩, ?_⟩⟩
  · rintro addr ⟨hnonneg, hlt, -⟩
    obtain ⟨a, rfl⟩ := Int.eq_ofNat_of_zero_le hnonneg
    norm_cast at hlt
    exact Nat.div_lt_of_lt_mul hlt
  · rintro addr ⟨hnonneg, -, hdvd⟩ addr' ⟨hnonneg', -, hdvd'⟩ heq
    obtain ⟨a, rfl⟩ := Int.eq_ofNat_of_zero_le hnonneg
    obtain ⟨a', rfl⟩ := Int.eq_ofNat_of_zero_le hnonneg'
    norm_cast at hdvd hdvd'
    have heq : a / 2 ^ txOffset = a' / 2 ^ txOffset := heq
    rw [← Nat.div_mul_cancel hdvd, heq, Nat.div_mul_cancel hdvd']
  · norm_cast
    exact Nat.mul_lt_mul_of_pos_left hx hpos
  · norm_cast
    exact Nat.dvd_mul_right _ _
  · show 2 ^ txOffset * x / 2 ^ txOffset = x
    exact Nat.mul_div_cancel_left x hpos

/-- The addresses of the transactions of `channels` channels. -/
def addresses (b : AddrMapperBase) (channels : Nat) : Set Int :=
  {addr | 0 ≤ addr ∧ addr < 2 ^ b.txOffset * ((channels * b.lines : Nat) : Int) ∧ (2 : Int) ^ b.txOffset ∣ addr}

/-- An address with its channel and its transaction. -/
def split (b : AddrMapperBase) (interleaveBits width : Nat) (addr : Int) : Nat × Nat :=
  splitLine interleaveBits width (addr.toNat / 2 ^ b.txOffset)

theorem split_bijOn (h : width = 0 ∨ 2 ^ interleaveBits ∣ b.lines) :
    Set.BijOn (split b interleaveBits width) (addresses b (2 ^ width)) {p | p.1 < 2 ^ width ∧ p.2 < b.lines} :=
  (splitLine_bijOn h).comp (bijOn_div_tx b.txOffset (2 ^ width * b.lines))

/-- The digits that a mapper makes of an address. -/
theorem line_of_mapped (hc : Interleave.setupCacheLine interleaveBits (2 ^ width) b.txOffset = .ok c)
    (req : Request Command K) {addr : Int} (hnonneg : 0 ≤ addr) :
    let mapped := (ChannelMapper.cacheLineInterleave c).apply { req with addr := addr }
    mapped.addrVec.coord 0 = ((split b interleaveBits width addr).1 : Int) ∧
      b.line mapped = ((split b interleaveBits width addr).2 : Int) := by
  obtain ⟨a, rfl⟩ := Int.eq_ofNat_of_zero_le hnonneg
  obtain ⟨hvec, hline⟩ := apply_cacheLineInterleave hc req a
  refine ⟨?_, hline⟩
  rw [hvec, coord_zero_withChannel]
  rfl

theorem bijOn_pair {lines : Nat} (channels : Nat) {g : Nat → Nat} (hg : Set.BijOn g {x | x < lines} {x | x < lines}) :
    Set.BijOn (fun p : Nat × Nat => (p.1, g p.2)) {p | p.1 < channels ∧ p.2 < lines}
      {p | p.1 < channels ∧ p.2 < lines} := by
  refine ⟨fun p hp => ⟨hp.1, hg.mapsTo hp.2⟩, fun p hp q hq heq => ?_, fun q hq => ?_⟩
  · obtain ⟨hfst, hsnd⟩ := Prod.mk.inj heq
    exact Prod.ext hfst (hg.injOn hp.2 hq.2 hsnd)
  · obtain ⟨x, hx, hgx⟩ := hg.surjOn hq.2
    exact ⟨(q.1, x), ⟨hq.1, hx⟩, Prod.ext rfl hgx⟩

/-- Every mapper is one to one between transactions and coordinates in range. -/
theorem locate_bijOn (m : FlatMapper) (hfits : width = 0 ∨ 2 ^ interleaveBits ∣ b.lines)
    (hcol : m = .mop4clxor → 2 ≤ b.bits b.colIdx) (hrow : b.radix b.rowIdx ≤ 2 ^ 31)
    (hc : Interleave.setupCacheLine interleaveBits (2 ^ width) b.txOffset = .ok c) (req : Request Command K) :
    Set.BijOn (locate m b c req) (addresses b (2 ^ width)) {v | b.InRange (2 ^ width) v} := by
  have hsplit : Set.BijOn (split b interleaveBits width) (addresses b (2 ^ width)) _ := split_bijOn hfits
  cases m with
  | roBaRaCoCh =>
      refine AddrMapperBase.bijOn_of_decodes b.levels_columnFirst hsplit fun addr haddr => ?_
      obtain ⟨hchannel, hline⟩ := line_of_mapped hc req haddr.1
      rw [← hchannel]
      exact AddrMapperBase.roBaRaCoCh_decodes hline
  | chRaBaRoCo =>
      refine AddrMapperBase.bijOn_of_decodes b.levels_reverse hsplit fun addr haddr => ?_
      obtain ⟨hchannel, hline⟩ := line_of_mapped hc req haddr.1
      rw [← hchannel]
      exact AddrMapperBase.chRaBaRoCo_decodes hline
  | mop4clxor =>
      have hcol := hcol rfl
      -- the transaction with its column put together
      have hjoined : Set.BijOn (fun addr => ((split b interleaveBits width addr).1,
          b.joinColumn (split b interleaveBits width addr).2)) (addresses b (2 ^ width))
          {p | p.1 < 2 ^ width ∧ p.2 < b.lines} :=
        (bijOn_pair (2 ^ width) (AddrMapperBase.joinColumn_bijOn hcol)).comp hsplit
      have hpremix : Set.BijOn (fun addr =>
          b.premix ((ChannelMapper.cacheLineInterleave c).apply { req with addr := addr })) (addresses b (2 ^ width))
          {v | b.InRange (2 ^ width) v} := by
        refine AddrMapperBase.bijOn_of_decodes b.levels_columnFirst hjoined fun addr haddr => ?_
        obtain ⟨hchannel, hline⟩ := line_of_mapped hc req haddr.1
        rw [← hchannel]
        exact AddrMapperBase.premix_decodes hcol hrow hline (hsplit.mapsTo haddr).2
      exact (b.mixAll_bijOn (2 ^ width)).comp hpremix

/-- A mapper reads the vector and the transaction. -/
theorem FlatMapper.decode_congr (m : FlatMapper) {r r' : Request Command K} (hstart : b.start r = b.start r') :
    m.decode b r = m.decode b r' := by
  cases m with
  | roBaRaCoCh =>
      show ((_ : List Nat).foldl b.cut (b.start r)).1 = _
      rw [hstart]
      rfl
  | chRaBaRoCo =>
      show ((_ : List Nat).foldl b.cut (b.start r)).1 = _
      rw [hstart]
      rfl
  | mop4clxor =>
      show b.mop4clxor r = b.mop4clxor r'
      unfold AddrMapperBase.mop4clxor
      rw [hstart]

/-- The bytes of a transaction go to one place. -/
theorem locate_congr (m : FlatMapper) (hc : Interleave.setupCacheLine interleaveBits (2 ^ width) b.txOffset = .ok c)
    (req : Request Command K) {addr addr' : Nat} (hline : addr / 2 ^ b.txOffset = addr' / 2 ^ b.txOffset) :
    locate m b c req addr = locate m b c req addr' := by
  obtain ⟨hvec, hintra⟩ := apply_cacheLineInterleave hc req addr
  obtain ⟨hvec', hintra'⟩ := apply_cacheLineInterleave hc req addr'
  refine m.decode_congr (Prod.ext ?_ ?_)
  · show resize _ _ = resize _ _
    rw [hvec, hvec', hline]
  · refine hintra.trans (Eq.trans ?_ hintra'.symm)
    rw [hline]

/-! ## In terms of the organization -/

/-- What `init` accepts: every level below the channel has a power of two of coordinates, and so has a burst. -/
theorem init_accepts {name : String} {org : Organization} (hnames : org.levelNames.length = org.levelSizes.length)
    (h : AddrMapperBase.init name org = .ok b) :
    (∀ i, i + 1 < org.levelSizes.length → isPowerOfTwo (org.levelSizes.getD (i + 1) 0) = true) ∧
      isPowerOfTwo org.internalPrefetchSize = true ∧
      org.internalPrefetchSize ≤ org.levelSizes.getD (org.rowLevel + 1) 0 ∧
      b.addrBits = AddrMapperBase.initBits org ∧ b.txOffset = calcLog2 org.txBytes ∧ b.rowIdx = org.rowLevel - 1 := by
  have hlevels := org.rowLevel_eq
  unfold AddrMapperBase.init at h
  cases hfind : (org.levelNames.zip org.levelSizes).tail.find? (fun l => !isPowerOfTwo l.2) with
  | some l =>
      rw [hfind] at h
      cases h
  | none =>
      rw [hfind] at h
      simp only at h
      split_ifs at h with hprefetch hcolumn
      have h := Except.ok.inj h
      have hlast : org.levelSizes.getLastD 0 = org.levelSizes.getD (org.rowLevel + 1) 0 := by
        rw [List.getLastD_eq_getLast?, List.getLast?_eq_getElem?, List.getD_eq_getElem?_getD, ← hlevels]
        rfl
      rw [hlast] at hcolumn
      refine ⟨fun i hi => ?_, by simpa using hprefetch, not_lt.mp (not_or.mp hcolumn).1, ?_, ?_, ?_⟩
      · have hzip : i + 1 < (org.levelNames.zip org.levelSizes).length := by
          rw [List.length_zip]
          omega
        have hmem : (org.levelNames.zip org.levelSizes)[i + 1] ∈ (org.levelNames.zip org.levelSizes).tail := by
          rw [← List.getElem_tail (by rw [List.length_tail]; omega)]
          exact List.getElem_mem _
        have hpower := List.find?_eq_none.mp hfind _ hmem
        rw [List.getElem_zip] at hpower
        rw [List.getD_eq_getElem _ _ hi]
        simpa using hpower
      · rw [← h]
      · rw [← h]
      · rw [← h]

/-- What `init` computes from an organization that it accepts. -/
theorem init_spec {name : String} {org : Organization} (hnames : org.levelNames.length = org.levelSizes.length)
    (h : AddrMapperBase.init name org = .ok b) :
    b.rowIdx + 1 = org.rowLevel ∧ b.txOffset = calcLog2 org.txBytes ∧
      ∀ i < b.rowIdx + 2, (b.radix i : Int) = units org (i + 1) := by
  obtain ⟨hpower, hprefetch, hcolumn, hbits, htx, hrow⟩ := init_accepts hnames h
  have hpos := org.rowLevel_pos
  have hlevels := org.rowLevel_eq
  refine ⟨by omega, htx, fun i hi => ?_⟩
  have hsize := eq_two_pow_of_isPowerOfTwo (hpower i (by omega))
  have hmap : (org.levelSizes.tail.map calcLog2)[i]? = some (calcLog2 (org.levelSizes.getD (i + 1) 0)) := by
    rw [List.getElem?_map, List.getElem?_tail, List.getD_eq_getElem?_getD,
      List.getElem?_eq_getElem (show i + 1 < org.levelSizes.length by omega)]
    rfl
  unfold AddrMapperBase.radix AddrMapperBase.bits units
  rw [hbits, AddrMapperBase.initBits, List.getD_eq_getElem?_getD, List.getElem?_modify, hmap]
  show ((2 ^ (if org.rowLevel = i then calcLog2 (org.levelSizes.getD (i + 1) 0) - calcLog2 org.internalPrefetchSize
    else calcLog2 (org.levelSizes.getD (i + 1) 0)) : Nat) : Int) = _
  by_cases hcol : org.rowLevel = i
  · -- the column, in bursts
    subst hcol
    have hburst := eq_two_pow_of_isPowerOfTwo hprefetch
    set column := calcLog2 (org.levelSizes.getD (org.rowLevel + 1) 0) with hcolumndef
    set burst := calcLog2 org.internalPrefetchSize with hburstdef
    have hle : burst ≤ column := by
      rw [hsize, hburst] at hcolumn
      norm_cast at hcolumn
      exact (Nat.pow_le_pow_iff_right (by decide)).mp hcolumn
    rw [if_pos rfl, if_pos rfl, hsize, hburst, ← Nat.pow_div hle (by decide)]
    norm_cast
  · rw [if_neg hcol, if_neg (by omega)]
    refine Eq.trans ?_ hsize.symm
    norm_cast

theorem FlatMapper.init_ok {m : FlatMapper} {org : Organization} (h : m.init org = .ok b) :
    (∃ name, AddrMapperBase.init name org = .ok b) ∧ (m = .mop4clxor → 2 ≤ b.bits b.colIdx) := by
  cases m with
  | roBaRaCoCh => exact ⟨⟨_, h⟩, nofun⟩
  | chRaBaRoCo => exact ⟨⟨_, h⟩, nofun⟩
  | mop4clxor =>
      obtain ⟨base, hbase, h⟩ := except_bind_eq_ok.mp h
      split_ifs at h with hcol
      obtain rfl := Except.ok.inj h
      exact ⟨⟨_, hbase⟩, fun _ => not_lt.mp hcol⟩

/-- The product of the levels. -/
theorem lines_eq_units {org : Organization} (hrow : b.rowIdx + 1 = org.rowLevel)
    (hradix : ∀ i < b.rowIdx + 2, (b.radix i : Int) = units org (i + 1)) :
    (b.lines : Int) = ((List.range (org.rowLevel + 1)).map fun i => units org (i + 1)).foldr (· * ·) 1 := by
  have hvolume : ∀ levels : List Nat, (∀ i ∈ levels, i < b.rowIdx + 2) →
      (MixedRadix.volume (levels.map b.radix) : Int) = (levels.map fun i => units org (i + 1)).foldr (· * ·) 1 := by
    intro levels hlevels
    induction levels with
    | nil => rfl
    | cons l levels ih =>
        show ((b.radix l * MixedRadix.volume (levels.map b.radix) : Nat) : Int) = _
        rw [Int.natCast_mul, hradix l (hlevels l List.mem_cons_self),
          ih fun i hi => hlevels i (List.mem_cons_of_mem _ hi)]
        rfl
  rw [← hrow]
  exact hvolume _ fun i hi => List.mem_range.mp hi

theorem inRange_iff {org : Organization} (hrow : b.rowIdx + 1 = org.rowLevel)
    (hradix : ∀ i < b.rowIdx + 2, (b.radix i : Int) = units org (i + 1)) {channels : Nat} {v : AddrVec} :
    b.InRange channels v ↔ InRange org channels v := by
  constructor
  · rintro ⟨hlength, hchannel, hcoord⟩
    refine ⟨by omega, hchannel, fun level hpos hle => ?_⟩
    have h := hcoord (level - 1) (by omega)
    rw [hradix _ (by omega), show level - 1 + 1 = level by omega] at h
    exact h
  · rintro ⟨hlength, hchannel, hcoord⟩
    refine ⟨by omega, hchannel, fun i hi => ?_⟩
    rw [hradix i hi]
    exact hcoord (i + 1) (by omega) (by omega)

/-- Each of the mappers, after the interleaving of the channels, is one to one between the transactions below the
capacity and the coordinates in range, where the channel's bits are bits of a transaction's number. -/
theorem address_map_bijOn (m : FlatMapper) {org : Organization} (hnames : org.levelNames.length = org.levelSizes.length)
    (hint : ∀ size ∈ org.levelSizes, size < 2 ^ 31) (htx : isPowerOfTwo org.txBytes = true) (hinit : m.init org = .ok b)
    {channels : Int} (hchannels : isPowerOfTwo channels = true)
    (hfits : channels = 1 ∨ (2 : Int) ^ interleaveBits ∣
      ((List.range (org.rowLevel + 1)).map fun i => units org (i + 1)).foldr (· * ·) 1)
    (hc : Interleave.setupCacheLine interleaveBits channels (calcLog2 org.txBytes) = .ok c) (req : Request Command K) :
    Set.BijOn (locate m b c req) {addr | 0 ≤ addr ∧ addr < capacity org channels ∧ org.txBytes ∣ addr}
        {v | InRange org channels v} ∧
      ∀ addr, 0 ≤ addr → locate m b c req addr = locate m b c req (addr - addr % org.txBytes) := by
  obtain ⟨⟨name, hbase⟩, hcol⟩ := FlatMapper.init_ok hinit
  obtain ⟨hrow, hoffset, hradix⟩ := init_spec hnames hbase
  have hlines := lines_eq_units hrow hradix
  have hbytes : org.txBytes = 2 ^ b.txOffset := by
    rw [hoffset]
    exact eq_two_pow_of_isPowerOfTwo htx
  obtain ⟨width, rfl⟩ : ∃ width : Nat, channels = 2 ^ width := ⟨_, eq_two_pow_of_isPowerOfTwo hchannels⟩
  rw [← hoffset] at hc
  have hdvd : width = 0 ∨ 2 ^ interleaveBits ∣ b.lines := by
    rcases hfits with hone | hdvd
    · left
      by_contra hne
      have hlt := Nat.one_lt_two_pow hne
      norm_cast at hone
      omega
    · right
      rw [← hlines] at hdvd
      exact_mod_cast hdvd
  have hrowSize : b.radix b.rowIdx ≤ 2 ^ 31 := by
    have hlevels := org.rowLevel_eq
    have hrowRadix := hradix b.rowIdx (by omega)
    unfold units at hrowRadix
    rw [if_neg (by omega), hrow, List.getD_eq_getElem _ _ (by omega)] at hrowRadix
    have := hint _ (List.getElem_mem (show org.rowLevel < org.levelSizes.length by omega))
    omega
  constructor
  · -- what is known of lines in the decoder's terms, said in those of the organization
    have hbij := locate_bijOn m hdvd hcol hrowSize hc req
    have hdomain : addresses b (2 ^ width) =
        {addr | 0 ≤ addr ∧ addr < capacity org (2 ^ width) ∧ org.txBytes ∣ addr} := by
      unfold addresses capacity
      rw [hbytes, ← hlines]
      norm_cast
    have hcodomain : {v | b.InRange (2 ^ width) v} = {v | InRange org (2 ^ width) v} := by
      ext v
      have h : b.InRange (2 ^ width) v ↔ InRange org ((2 ^ width : Nat) : Int) v := inRange_iff hrow hradix
      norm_cast at h
    rw [hdomain, hcodomain] at hbij
    exact hbij
  · intro addr hnonneg
    obtain ⟨a, rfl⟩ := Int.eq_ofNat_of_zero_le hnonneg
    -- both addresses are in one line, and only the line is decoded
    have hstart : (a : Int) - a % org.txBytes = ((2 ^ b.txOffset * (a / 2 ^ b.txOffset) : Nat) : Int) := by
      rw [hbytes]
      have := Nat.div_add_mod a (2 ^ b.txOffset)
      push_cast
      have hdiv := Int.mul_ediv_add_emod (a : Int) (2 ^ b.txOffset)
      omega
    rw [hstart]
    refine locate_congr m hc req ?_
    rw [Nat.mul_div_cancel_left _ (Nat.two_pow_pos _)]

/-! ## Two small systems -/

/-- Two banks of four rows of eight bursts. -/
def eightBursts : Organization where
  levelNames := ["Channel", "Rank", "Bank", "Row", "Column"]
  levelSizes := [2, 1, 2, 4, 64]
  rowLevel := 3
  internalPrefetchSize := 8
  channelWidth := 64
  rowLevel_pos := by decide
  rowLevel_eq := rfl

def anyRequest : Request Command Unit := Request.ofAddrVec [] 0

theorem address_map_bijOn_eightBursts :
    Set.BijOn (locate .mop4clxor ⟨[0, 1, 2, 3], 6, 2, rfl⟩ ⟨2, 8, 1⟩ anyRequest)
        {addr | 0 ≤ addr ∧ addr < capacity eightBursts 2 ∧ eightBursts.txBytes ∣ addr}
        {v | InRange eightBursts 2 v} ∧
      ∀ addr, 0 ≤ addr → locate .mop4clxor ⟨[0, 1, 2, 3], 6, 2, rfl⟩ ⟨2, 8, 1⟩ anyRequest addr =
        locate .mop4clxor ⟨[0, 1, 2, 3], 6, 2, rfl⟩ ⟨2, 8, 1⟩ anyRequest (addr - addr % eightBursts.txBytes) :=
  address_map_bijOn .mop4clxor rfl (by decide) (by decide) rfl (by decide) (.inr (show (2 : Int) ^ 2 ∣ _ by decide)) rfl
    anyRequest

/-- Two banks of two rows of one burst. -/
def oneBurst : Organization where
  levelNames := ["Channel", "Rank", "Bank", "Row", "Column"]
  levelSizes := [2, 1, 2, 2, 8]
  rowLevel := 3
  internalPrefetchSize := 8
  channelWidth := 64
  rowLevel_pos := by decide
  rowLevel_eq := rfl

/-- Four transactions in a channel have two bits. Interleaved by three, the channel's bit lies above the capacity:
everything goes to channel 0, and the transactions 0 and 4 to one place. -/
theorem not_bijOn_wide_interleave :
    FlatMapper.roBaRaCoCh.init oneBurst = .ok ⟨[0, 1, 1, 0], 6, 2, rfl⟩ ∧ isPowerOfTwo oneBurst.txBytes = true ∧
      isPowerOfTwo 2 = true ∧ Interleave.setupCacheLine 3 2 (calcLog2 oneBurst.txBytes) = .ok ⟨2, 9, 1⟩ ∧
      ¬ Set.BijOn (locate .roBaRaCoCh ⟨[0, 1, 1, 0], 6, 2, rfl⟩ ⟨2, 9, 1⟩ anyRequest)
        {addr | 0 ≤ addr ∧ addr < capacity oneBurst 2 ∧ oneBurst.txBytes ∣ addr} {v | InRange oneBurst 2 v} := by
  refine ⟨rfl, by decide, by decide, rfl, fun hbij => ?_⟩
  have hsame : locate .roBaRaCoCh ⟨[0, 1, 1, 0], 6, 2, rfl⟩ ⟨2, 9, 1⟩ anyRequest 0 =
      locate .roBaRaCoCh ⟨[0, 1, 1, 0], 6, 2, rfl⟩ ⟨2, 9, 1⟩ anyRequest 256 := by decide
  have h := hbij.injOn (show (0 : Int) ∈ _ from ⟨by decide, by decide, by decide⟩)
    (show (256 : Int) ∈ _ from ⟨by decide, by decide, by decide⟩) hsame
  exact absurd h (by decide)

end Ramulator.MemorySystem
