/-
# Ramulator.Translation.RandomTranslation — first-touch pages in a mixed order of frames.

`RandomTranslation` (`translation/impl/random_translation.cpp`) gives the `n`-th page that is touched the frame
`permute(n)`: a counter whose bits are mixed, cut to the number of frames. The source calls the mixing a
bijection on the frames. It is not: the second shift brings bits from above the mask into it, so that for every
number of frames but one there are two counters below it with one frame.
-/
import Ramulator.Lib.SwapTable
import Mathlib.Data.List.Dedup
import Mathlib.Tactic.Common
import Mathlib.Tactic.IntervalCases

namespace Ramulator.Translation

open Ramulator.Lib

/-- The parameters: an `Addr_t` each, a page that is not empty and room for one of them. -/
structure Config where
  maxPaddr : Nat
  pageSize : Nat
  pageSize_pos : 0 < pageSize
  pageSize_le : pageSize ≤ maxPaddr
  maxPaddr_lt : maxPaddr < 2 ^ 63

/-- The loop of `init`: bits are cleared from below until one is left. -/
def roundDown (n : Nat) : Nat :=
  if n &&& (n - 1) = 0 then n else roundDown (n &&& (n - 1))
  termination_by n
  decreasing_by
    have hle : n &&& (n - 1) ≤ n - 1 := Nat.and_le_right
    rcases Nat.eq_zero_or_pos n with rfl | hpos
    · contradiction
    · omega

/-- `m_num_frames`, as `init` leaves it. -/
def Config.numFrames (cfg : Config) : Nat := roundDown (cfg.maxPaddr / cfg.pageSize)

/-- `permute`. The shifts are those of a signed type. -/
def permute (numFrames i : Nat) : BitVec 64 :=
  let x := BitVec.ofNat 64 i
  let x := x ^^^ x.sshiftRight 7
  let x := x * 0x9E3779B97F4A7C15
  let x := x ^^^ x.sshiftRight 11
  x &&& BitVec.ofNat 64 (numFrames - 1)

/-- The table of the pages that were touched, in the order of their first touch. -/
structure RandomTranslation where
  next : Nat
  table : List (Nat × BitVec 64)

namespace RandomTranslation

def init : RandomTranslation := ⟨0, []⟩

variable (cfg : Config)

/-- The virtual page of an address, which is taken as unsigned. -/
def vpage (addr : BitVec 64) : Nat := addr.toNat / cfg.pageSize

def offset (addr : BitVec 64) : Nat := addr.toNat % cfg.pageSize

/-- The frame of a page, after a first touch where there was none. -/
def touch (page : Nat) (s : RandomTranslation) : BitVec 64 × RandomTranslation :=
  match s.table.lookup page with
  | some frame => (frame, s)
  | none =>
      let frame := permute cfg.numFrames s.next
      (frame, ⟨s.next + 1, s.table ++ [(page, frame)]⟩)

/-- `translate`. -/
def translate (addr : BitVec 64) (s : RandomTranslation) : BitVec 64 × RandomTranslation :=
  let (frame, s) := touch cfg (vpage cfg addr) s
  (BitVec.ofNat 64 (frame.toNat * cfg.pageSize + offset cfg addr), s)

/-- A sequence of calls: each address with what it became, and the state after them. -/
def translateAll : List (BitVec 64) → RandomTranslation → List (BitVec 64 × BitVec 64) × RandomTranslation
  | [], s => ([], s)
  | addr :: addrs, s =>
      let (paddr, s) := translate cfg addr s
      let (rest, s) := translateAll addrs s
      ((addr, paddr) :: rest, s)

/-- The calls from the start. -/
def translated (addrs : List (BitVec 64)) : List (BitVec 64 × BitVec 64) := (translateAll cfg addrs init).1

def frameOf (paddr : BitVec 64) : Nat := paddr.toNat / cfg.pageSize

/-- What translation promises of a sequence of calls. -/
structure CollisionFree (addrs : List (BitVec 64)) : Prop where
  distinct : ∀ e ∈ translated cfg addrs, ∀ e' ∈ translated cfg addrs,
    vpage cfg e.1 ≠ vpage cfg e'.1 → frameOf cfg e.2 ≠ frameOf cfg e'.2
  below : ∀ e ∈ translated cfg addrs, frameOf cfg e.2 < cfg.numFrames
  offset : ∀ e ∈ translated cfg addrs, offset cfg e.2 = offset cfg e.1
  stable : ∀ e ∈ translated cfg addrs, ∀ e' ∈ translated cfg addrs,
    vpage cfg e.1 = vpage cfg e'.1 → frameOf cfg e.2 = frameOf cfg e'.2

/-- How many pages the calls touch. -/
def touched (addrs : List (BitVec 64)) : Nat := (addrs.map (vpage cfg)).dedup.length

end RandomTranslation

/-! ## The frames -/

theorem roundDown_eq_two_pow {n : Nat} (hn : n ≠ 0) : ∃ k, roundDown n = 2 ^ k ∧ 2 ^ k ≤ n ∧ (k = 0 → n = 1) := by
  induction n using roundDown.induct with
  | case1 n hstop =>
      obtain ⟨k, hk⟩ := (Nat.and_sub_one_eq_zero_iff_isPowerOfTwo hn).mp hstop
      rw [roundDown, if_pos hstop]
      refine ⟨k, hk, hk.ge, ?_⟩
      rintro rfl
      exact hk
  | case2 n hnext ih =>
      obtain ⟨k, hk, hle, hone⟩ := ih hnext
      rw [roundDown, if_neg hnext]
      refine ⟨k, hk, hle.trans Nat.and_le_left, fun hzero => ?_⟩
      -- one bit that is left after another was cleared is not the lowest
      have hodd : (n &&& (n - 1)).testBit 0 = false := by
        rw [Nat.testBit_and, Nat.testBit_zero, Nat.testBit_zero]
        rcases Nat.mod_two_eq_zero_or_one n with h | h
        · simp [h]
        · have hprev : (n - 1) % 2 = 0 := by omega
          simp [hprev]
      rw [hone hzero] at hodd
      cases hodd

/-- Two counters with one frame, for two frames, four, and so on up to `2 ^ 62`. -/
def collisions : List (Nat × Nat) :=
  [(0, 1), (2, 3), (1, 4), (1, 4), (7, 14), (7, 14), (1, 36), (13, 48), (23, 69), (23, 69), (23, 69), (23, 69),
   (23, 69), (23, 69), (114, 188), (114, 188), (114, 188), (114, 188), (229, 376), (985, 1109), (332, 1760),
   (3667, 4772), (3667, 4772), (1885, 5476), (4936, 6463), (7843, 10882), (5702, 13165), (728, 33002),
   (1340, 66880), (157577, 162577), (149470, 277079), (149470, 277079), (149470, 277079), (298941, 554159),
   (119002, 896258), (119002, 896258), (119002, 896258), (16042, 1372731), (917039, 2419955),
   (917039, 2419955), (917039, 2419955), (917039, 2419955), (917039, 2419955), (917039, 2419955),
   (0, 3638202529400), (1, 51502126188303), (1, 51502126188303), (1, 214388025114476), (0, 438040141887130),
   (0, 438040141887130), (0, 438040141887130), (0, 438040141887130), (0, 5602449726923075),
   (0, 5602449726923075), (0, 21235261905194889), (0, 21235261905194889), (0, 111569608451691718),
   (2, 197761696894848868), (0, 295793705047310641), (0, 1025982965601801450), (0, 1025982965601801450),
   (0, 1025982965601801450)]

theorem collisions_collide : ∀ k < 62, let (i, j) := collisions.getD k (0, 0)
    i < j ∧ j < 2 ^ (k + 1) ∧ permute (2 ^ (k + 1)) i = permute (2 ^ (k + 1)) j := by
  decide +kernel

theorem Config.numFrames_eq_two_pow (cfg : Config) :
    ∃ k, cfg.numFrames = 2 ^ k ∧ k ≤ 62 ∧ cfg.numFrames ≤ cfg.maxPaddr / cfg.pageSize ∧
      (k = 0 → cfg.maxPaddr / cfg.pageSize = 1) := by
  have hpos : cfg.maxPaddr / cfg.pageSize ≠ 0 := by
    rw [Nat.div_ne_zero_iff]
    exact ⟨cfg.pageSize_pos.ne', cfg.pageSize_le⟩
  obtain ⟨k, hk, hle, hone⟩ := roundDown_eq_two_pow hpos
  refine ⟨k, hk, ?_, hk.trans_le hle, hone⟩
  have hlt : 2 ^ k < 2 ^ 63 := (hle.trans (Nat.div_le_self _ _)).trans_lt cfg.maxPaddr_lt
  have := (Nat.pow_lt_pow_iff_right (by decide)).mp hlt
  omega

theorem Config.numFrames_one {cfg : Config} (h : cfg.maxPaddr / cfg.pageSize = 1) : cfg.numFrames = 1 := by
  unfold Config.numFrames
  rw [h, roundDown, if_pos (by decide)]

/-- The frames fill no more than the memory. -/
theorem Config.frames_lt (cfg : Config) : cfg.numFrames * cfg.pageSize < 2 ^ 63 := by
  obtain ⟨k, -, -, hle, -⟩ := cfg.numFrames_eq_two_pow
  have hfits : cfg.numFrames * cfg.pageSize ≤ cfg.maxPaddr :=
    (Nat.mul_le_mul_right _ hle).trans (Nat.div_mul_le_self _ _)
  exact hfits.trans_lt cfg.maxPaddr_lt

theorem permute_lt (cfg : Config) (i : Nat) : (permute cfg.numFrames i).toNat < cfg.numFrames := by
  obtain ⟨k, hk, hlt, -, -⟩ := cfg.numFrames_eq_two_pow
  have hpos : 0 < cfg.numFrames := by
    rw [hk]
    exact Nat.two_pow_pos k
  have hmask : (BitVec.ofNat 64 (cfg.numFrames - 1)).toNat ≤ cfg.numFrames - 1 := by
    rw [BitVec.toNat_ofNat]
    exact Nat.mod_le _ _
  have hand : (permute cfg.numFrames i).toNat ≤ (BitVec.ofNat 64 (cfg.numFrames - 1)).toNat := by
    unfold permute
    rw [BitVec.toNat_and]
    exact Nat.and_le_right
  omega

/-- Where there are two frames or more, two counters have one. -/
theorem permute_collides {cfg : Config} (h : cfg.maxPaddr / cfg.pageSize ≠ 1) :
    ∃ i j, i < j ∧ j < cfg.numFrames ∧ permute cfg.numFrames i = permute cfg.numFrames j := by
  obtain ⟨k, hk, hle, -, hone⟩ := cfg.numFrames_eq_two_pow
  have hpos : k ≠ 0 := fun hzero => h (hone hzero)
  have hcollide := collisions_collide (k - 1) (by omega)
  rw [show k - 1 + 1 = k by omega, ← hk] at hcollide
  exact ⟨_, _, hcollide⟩

/-! ## Runs -/

namespace RandomTranslation

variable {cfg : Config} {s : RandomTranslation}

/-- The physical address of an offset in a frame. -/
theorem toNat_paddr {frame off : Nat} (hframe : frame < cfg.numFrames) (hoff : off < cfg.pageSize) :
    (BitVec.ofNat 64 (frame * cfg.pageSize + off)).toNat = frame * cfg.pageSize + off := by
  have hlt : frame * cfg.pageSize + off < cfg.numFrames * cfg.pageSize := by
    calc frame * cfg.pageSize + off < frame * cfg.pageSize + cfg.pageSize := Nat.add_lt_add_left hoff _
      _ = (frame + 1) * cfg.pageSize := (Nat.succ_mul _ _).symm
      _ ≤ cfg.numFrames * cfg.pageSize := Nat.mul_le_mul_right _ hframe
  have hfits := cfg.frames_lt
  rw [BitVec.toNat_ofNat, Nat.mod_eq_of_lt]
  exact hlt.trans (hfits.trans (by decide))

theorem frameOf_paddr {frame off : Nat} (hframe : frame < cfg.numFrames) (hoff : off < cfg.pageSize) :
    frameOf cfg (BitVec.ofNat 64 (frame * cfg.pageSize + off)) = frame := by
  rw [frameOf, toNat_paddr hframe hoff, Nat.mul_comm, Nat.mul_add_div cfg.pageSize_pos, Nat.div_eq_of_lt hoff,
    Nat.add_zero]

theorem offset_paddr {frame off : Nat} (hframe : frame < cfg.numFrames) (hoff : off < cfg.pageSize) :
    offset cfg (BitVec.ofNat 64 (frame * cfg.pageSize + off)) = off := by
  rw [offset, toNat_paddr hframe hoff, Nat.mul_comm, Nat.mul_add_mod, Nat.mod_eq_of_lt hoff]

def pages (s : RandomTranslation) : List Nat := s.table.map Prod.fst

/-- The table holds each page once, with the frame of its place in the order of first touches. -/
structure Allocated (cfg : Config) (s : RandomTranslation) : Prop where
  next : s.next = s.pages.length
  nodup : KeysNodup s.table
  frames : ∀ page frame, s.table.lookup page = some frame → frame = permute cfg.numFrames (s.pages.idxOf page)

theorem allocated_init (cfg : Config) : Allocated cfg init := ⟨rfl, List.nodup_nil, nofun⟩

theorem mem_pages_of_lookup {page : Nat} {frame : BitVec 64} (h : s.table.lookup page = some frame) : page ∈ s.pages :=
  List.mem_map_of_mem (mem_of_lookup h)

theorem lookup_of_mem_pages {page : Nat} (h : page ∈ s.pages) : ∃ frame, s.table.lookup page = some frame := by
  cases hlookup : s.table.lookup page with
  | some frame => exact ⟨frame, rfl⟩
  | none =>
      obtain ⟨e, he, rfl⟩ := List.mem_map.mp h
      have hne := List.lookup_eq_none_iff.mp hlookup e he
      rw [bne_iff_ne] at hne
      exact absurd rfl hne

/-- The pages that a run adds, and where the table has what it had. -/
structure Grows (s s' : RandomTranslation) (touched : List Nat) : Prop where
  keeps : s.table <+: s'.table
  pages : ∀ page, page ∈ s'.pages ↔ page ∈ s.pages ∨ page ∈ touched

theorem lookup_of_prefix {s' : RandomTranslation} (h : s.table <+: s'.table) {page : Nat} {frame : BitVec 64}
    (hlookup : s.table.lookup page = some frame) : s'.table.lookup page = some frame := by
  obtain ⟨rest, hrest⟩ := h
  rw [← hrest, List.lookup_append, hlookup]
  rfl

/-- A touch finds the frame of the page, or gives it the next one. -/
theorem touch_spec (h : Allocated cfg s) (page : Nat) :
    Allocated cfg (touch cfg page s).2 ∧ Grows s (touch cfg page s).2 [page] ∧
      (touch cfg page s).2.table.lookup page = some (touch cfg page s).1 := by
  unfold touch
  cases hlookup : s.table.lookup page with
  | some frame =>
      refine ⟨h, ⟨List.prefix_refl _, fun p => ?_⟩, hlookup⟩
      rw [List.mem_singleton]
      constructor
      · exact .inl
      · rintro (hp | rfl)
        · exact hp
        · exact mem_pages_of_lookup hlookup
  | none =>
      -- a new page takes the next place, and so the frame of that place
      have hnew : page ∉ s.pages := by
        intro hmem
        obtain ⟨frame, hframe⟩ := lookup_of_mem_pages hmem
        rw [hlookup] at hframe
        cases hframe
      have hself : (s.table ++ [(page, permute cfg.numFrames s.next)]).lookup page =
          some (permute cfg.numFrames s.next) := by
        rw [List.lookup_append, hlookup, List.lookup_cons, beq_self_eq_true]
        rfl
      have hpages : (RandomTranslation.mk (s.next + 1)
          (s.table ++ [(page, permute cfg.numFrames s.next)])).pages = s.pages ++ [page] := List.map_append
      refine ⟨⟨?_, ?_, fun p frame hp => ?_⟩, ⟨List.prefix_append _ _, fun p => ?_⟩, hself⟩
      · rw [hpages, List.length_append, ← h.next]
        rfl
      · show ((s.table ++ [(page, _)]).map Prod.fst).Nodup
        rw [List.map_append]
        refine List.nodup_append.mpr ⟨h.nodup, List.nodup_singleton _, ?_⟩
        rintro a ha b hb rfl
        obtain rfl : a = page := List.mem_singleton.mp hb
        exact hnew ha
      · rw [hpages]
        by_cases hpage : p = page
        · subst hpage
          have hplace : (s.pages ++ [p]).idxOf p = s.next := by
            rw [List.idxOf_append_of_notMem hnew, List.idxOf_cons_self, h.next, Nat.add_zero]
          rw [hplace]
          exact Option.some.inj (hp.symm.trans hself)
        · have hold : s.table.lookup p = some frame := by
            rw [List.lookup_append, List.lookup_cons, beq_eq_false_iff_ne.mpr hpage, List.lookup_nil,
              Option.or_none] at hp
            exact hp
          rw [List.idxOf_append_of_mem (mem_pages_of_lookup hold)]
          exact h.frames p frame hold
      · rw [hpages, List.mem_append]

/-- After a sequence of calls: each address is where the table, as it is at the end, has its page. -/
theorem translateAll_spec (h : Allocated cfg s) (addrs : List (BitVec 64)) :
    Allocated cfg (translateAll cfg addrs s).2 ∧ Grows s (translateAll cfg addrs s).2 (addrs.map (vpage cfg)) ∧
      (translateAll cfg addrs s).1.map Prod.fst = addrs ∧
      ∀ e ∈ (translateAll cfg addrs s).1, ∃ frame,
        (translateAll cfg addrs s).2.table.lookup (vpage cfg e.1) = some frame ∧
          e.2 = BitVec.ofNat 64 (frame.toNat * cfg.pageSize + offset cfg e.1) := by
  induction addrs generalizing s with
  | nil =>
      refine ⟨h, ⟨List.prefix_refl _, fun p => ?_⟩, rfl, nofun⟩
      rw [List.map_nil]
      exact (or_iff_left List.not_mem_nil).symm
  | cons addr addrs ih =>
      obtain ⟨htouched, hgrows, hlookup⟩ := touch_spec h (vpage cfg addr)
      obtain ⟨hend, hrest, haddrs, hall⟩ := ih htouched
      refine ⟨hend, ⟨hgrows.keeps.trans hrest.keeps, fun p => ?_⟩, congrArg (addr :: ·) haddrs, fun e he => ?_⟩
      · rw [List.map_cons, List.mem_cons]
        refine (hrest.pages p).trans ?_
        rw [hgrows.pages p, List.mem_singleton, or_assoc]
      · rcases List.mem_cons.mp he with rfl | he
        · exact ⟨_, lookup_of_prefix hrest.keeps hlookup, rfl⟩
        · exact hall e he

/-! ## From the start -/

section

variable (cfg : Config) (addrs : List (BitVec 64))

/-- The state after the calls. -/
def final : RandomTranslation := (translateAll cfg addrs init).2

theorem allocated_final : Allocated cfg (final cfg addrs) := (translateAll_spec (allocated_init cfg) addrs).1

theorem mem_pages_final (page : Nat) : page ∈ (final cfg addrs).pages ↔ page ∈ addrs.map (vpage cfg) := by
  have hgrows := (translateAll_spec (allocated_init cfg) addrs).2.1
  refine (hgrows.pages page).trans (or_iff_right ?_)
  exact List.not_mem_nil

/-- The counter has counted the pages. -/
theorem length_pages_final : (final cfg addrs).pages.length = touched cfg addrs := by
  refine List.Perm.length_eq ((List.perm_ext_iff_of_nodup (allocated_final cfg addrs).nodup (List.nodup_dedup _)).mpr ?_)
  intro page
  rw [List.mem_dedup]
  exact mem_pages_final cfg addrs page

/-- Every page that was touched is in the trace. -/
theorem exists_translated {page : Nat} (h : page ∈ (final cfg addrs).pages) :
    ∃ e ∈ translated cfg addrs, vpage cfg e.1 = page := by
  obtain ⟨addr, haddr, rfl⟩ := List.mem_map.mp ((mem_pages_final cfg addrs page).mp h)
  rw [← (translateAll_spec (allocated_init cfg) addrs).2.2.1] at haddr
  obtain ⟨e, he, rfl⟩ := List.mem_map.mp haddr
  exact ⟨e, he, rfl⟩

/-- The physical address of a translated one: the place of its page among the first touches, mixed. -/
theorem translated_spec {e : BitVec 64 × BitVec 64} (h : e ∈ translated cfg addrs) :
    vpage cfg e.1 ∈ (final cfg addrs).pages ∧
      frameOf cfg e.2 = (permute cfg.numFrames ((final cfg addrs).pages.idxOf (vpage cfg e.1))).toNat ∧
      offset cfg e.2 = offset cfg e.1 := by
  obtain ⟨frame, hlookup, he⟩ := (translateAll_spec (allocated_init cfg) addrs).2.2.2 e h
  have hframe := (allocated_final cfg addrs).frames _ _ hlookup
  have hoff : offset cfg e.1 < cfg.pageSize := Nat.mod_lt _ cfg.pageSize_pos
  rw [he, hframe, frameOf_paddr (permute_lt cfg _) hoff, offset_paddr (permute_lt cfg _) hoff]
  exact ⟨mem_pages_of_lookup hlookup, rfl, rfl⟩

end

/-- A run keeps its promise exactly if the counters that it used have frames of their own. -/
theorem collisionFree_iff (cfg : Config) (addrs : List (BitVec 64)) :
    CollisionFree cfg addrs ↔
      ∀ i j, i < j → j < touched cfg addrs → permute cfg.numFrames i ≠ permute cfg.numFrames j := by
  have hlength := length_pages_final cfg addrs
  have hnodup : (final cfg addrs).pages.Nodup := (allocated_final cfg addrs).nodup
  constructor
  · intro hfree i j hij hj hcollide
    have hi' : i < (final cfg addrs).pages.length := by omega
    have hj' : j < (final cfg addrs).pages.length := by omega
    obtain ⟨e, he, hpage⟩ := exists_translated cfg addrs (List.getElem_mem hi')
    obtain ⟨e', he', hpage'⟩ := exists_translated cfg addrs (List.getElem_mem hj')
    refine hfree.distinct e he e' he' ?_ ?_
    · rw [hpage, hpage']
      intro heq
      have := (hnodup.getElem_inj_iff).mp heq
      omega
    · rw [(translated_spec cfg addrs he).2.1, (translated_spec cfg addrs he').2.1, hpage, hpage', hnodup.idxOf_getElem,
        hnodup.idxOf_getElem, hcollide]
  · intro hdistinct
    refine ⟨fun e he e' he' hne hframe => ?_, fun e he => ?_, fun e he => (translated_spec cfg addrs he).2.2,
      fun e he e' he' heq => ?_⟩
    · obtain ⟨hmem, hplace, -⟩ := translated_spec cfg addrs he
      obtain ⟨hmem', hplace', -⟩ := translated_spec cfg addrs he'
      rw [hplace, hplace'] at hframe
      have hsame := BitVec.eq_of_toNat_eq hframe
      have hlt := List.idxOf_lt_length_iff.mpr hmem
      have hlt' := List.idxOf_lt_length_iff.mpr hmem'
      rcases Nat.lt_trichotomy ((final cfg addrs).pages.idxOf (vpage cfg e.1))
        ((final cfg addrs).pages.idxOf (vpage cfg e'.1)) with h | h | h
      · exact hdistinct _ _ h (by omega) hsame
      · exact hne ((List.idxOf_inj hmem).mp h)
      · exact hdistinct _ _ h (by omega) hsame.symm
    · rw [(translated_spec cfg addrs he).2.1]
      exact permute_lt cfg _
    · rw [(translated_spec cfg addrs he).2.1, (translated_spec cfg addrs he').2.1, heq]

/-- The first addresses of the pages, one after another. -/
def firstPages (cfg : Config) (n : Nat) : List (BitVec 64) :=
  (List.range n).map fun page => BitVec.ofNat 64 (page * cfg.pageSize)

theorem touched_firstPages (cfg : Config) : touched cfg (firstPages cfg cfg.numFrames) = cfg.numFrames := by
  have hpages : (firstPages cfg cfg.numFrames).map (vpage cfg) = List.range cfg.numFrames := by
    rw [firstPages, List.map_map]
    refine (List.map_congr_left fun page hpage => ?_).trans (List.map_id _)
    have h := frameOf_paddr (List.mem_range.mp hpage) cfg.pageSize_pos
    rw [Nat.add_zero] at h
    exact h
  rw [touched, hpages, List.Nodup.dedup List.nodup_range, List.length_range]

/-- Translation keeps its promise, for every sequence of calls that touches no more pages than there are frames,
exactly where there is one frame; and a single run keeps it exactly if its counters do not collide. -/
theorem translate_collisionFree_iff (cfg : Config) :
    ((∀ addrs, touched cfg addrs ≤ cfg.numFrames → CollisionFree cfg addrs) ↔ cfg.maxPaddr / cfg.pageSize = 1) ∧
      ∀ addrs, CollisionFree cfg addrs ↔
        ∀ i j, i < j → j < touched cfg addrs → permute cfg.numFrames i ≠ permute cfg.numFrames j := by
  refine ⟨⟨fun hall => ?_, fun hone addrs htouched => ?_⟩, collisionFree_iff cfg⟩
  · by_contra hne
    obtain ⟨i, j, hij, hj, hcollide⟩ := permute_collides hne
    have hfree := hall (firstPages cfg cfg.numFrames) (touched_firstPages cfg).le
    refine (collisionFree_iff cfg _).mp hfree i j hij ?_ hcollide
    rw [touched_firstPages]
    exact hj
  · refine (collisionFree_iff cfg addrs).mpr fun i j hij hj => ?_
    rw [Config.numFrames_one hone] at htouched
    omega

/-- Two frames of a page of 4096 bytes. -/
def twoFrames : Config where
  maxPaddr := 8192
  pageSize := 4096
  pageSize_pos := by decide
  pageSize_le := by decide
  maxPaddr_lt := by decide

/-- The first two pages have one frame: both addresses become address 0. -/
theorem not_collisionFree_twoFrames :
    touched twoFrames [0, 4096] ≤ twoFrames.numFrames ∧ translated twoFrames [0, 4096] = [(0, 0), (4096, 0)] ∧
      ¬ CollisionFree twoFrames [0, 4096] := by
  have hframes : twoFrames.numFrames = 2 := by
    unfold Config.numFrames
    rw [roundDown, if_pos (by decide)]
    rfl
  have hpages : touched twoFrames [0, 4096] = 2 := by decide
  have hcollide : permute 2 0 = permute 2 1 := by decide
  refine ⟨(hpages.trans hframes.symm).le, ?_, fun hfree => ?_⟩
  · simp only [translated, translateAll, translate, touch, hframes]
    decide
  · refine (collisionFree_iff twoFrames [0, 4096]).mp hfree 0 1 Nat.zero_lt_one (by omega) ?_
    rw [hframes]
    exact hcollide

end RandomTranslation

end Ramulator.Translation
