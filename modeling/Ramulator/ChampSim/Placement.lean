/-
# Ramulator.ChampSim.Placement — a placement that is written can be loaded.

What the preparation accepts is an inventory of distinct pages of existing cores (`Inventory.Valid`), and what it
derives are distinct keys of page tables, one for every level above every page (`Tables`). Frames are given out from
a list of distinct free ones. Each line of the file is read back as what was written, so that every check of the
loader holds, and its maps are the written ones (`loadPlacement_eq`).
-/
import Ramulator.ChampSim.VirtualMemory

namespace Ramulator.ChampSim

open Ramulator.Lib
open TextStream

namespace Geometry

variable (g : Geometry)

theorem pageSize_pos : 0 < g.pageSize := Nat.two_pow_pos _

theorem pageAddress_div (page : Nat) : g.pageAddress page / g.pageSize = page :=
  Nat.mul_div_cancel page g.pageSize_pos

theorem pageAddress_mod (page : Nat) : g.pageAddress page % g.pageSize = 0 := Nat.mul_mod_left page _

/-- Below the width of its type a level's shift does not wrap. -/
theorem shamt_succ {level : Nat} (h : level < 2 ^ 32) :
    g.shamt (level + 1) = g.log2PageSize + g.log2PteCount * level := by
  have hL := g.log2PageSize_lt
  have hk := g.log2PteCount_le
  have hmul : g.log2PteCount * level ≤ 32 * 2 ^ 32 := Nat.mul_le_mul (by omega) h.le
  have hlevel : (level + 1 + (2 ^ 64 - 1)) % 2 ^ 64 = level := by omega
  unfold shamt
  rw [hlevel, Nat.mod_eq_of_lt (by omega)]

/-- The key of the page table of a page at a level. -/
def keyOf (core page level : Nat) : TableKey :=
  (core, level, g.pageAddress page / 2 ^ (g.log2PageSize + g.log2PteCount * level))

theorem tableKey_eq_ok {core page level lower : Nat} {key : TableKey} :
    g.tableKey core page level lower = .ok key ↔
      lower ≤ 64 ∧ key = (core, level % 2 ^ 32, g.pageAddress page / 2 ^ lower) := by
  unfold tableKey upperSlice
  by_cases h : 64 < lower
  · rw [show throwIf (64 < lower) "upper >= lower" = .error "upper >= lower" from if_pos h]
    refine iff_of_false ?_ fun hle => absurd h (not_lt.mpr hle.1)
    intro herror
    cases herror
  · rw [throwIf_bind h]
    constructor
    · intro hok
      cases hok
      exact ⟨not_lt.mp h, rfl⟩
    · rintro ⟨-, rfl⟩
      rfl

end Geometry

/-! ## Sets -/

section Emplace

variable {α : Type} [DecidableEq α] {le : α → α → Prop} [DecidableRel le] {x y : α} {xs : List α}

theorem mem_emplace : y ∈ (emplace le x xs).1 ↔ y = x ∨ y ∈ xs := by
  unfold emplace
  split_ifs with h
  · refine ⟨.inr, ?_⟩
    rintro (rfl | hy)
    · exact h
    · exact hy
  · exact List.mem_orderedInsert le

theorem nodup_emplace (h : xs.Nodup) : (emplace le x xs).1.Nodup := by
  unfold emplace
  split_ifs with hx
  · exact h
  · exact (List.perm_orderedInsert le x xs).nodup_iff.mpr (List.nodup_cons.mpr ⟨hx, h⟩)

end Emplace

/-! ## The inventory -/

namespace VirtualMemory

variable {g : Geometry}

/-- Distinct pages of existing cores. -/
structure Pages (g : Geometry) (pages : List PageKey) : Prop where
  nodup : pages.Nodup
  core_lt : ∀ p ∈ pages, p.1 < g.numCpus
  page_lt : ∀ p ∈ pages, p.2 < 2 ^ (64 - g.log2PageSize)

structure Inventory.Valid (g : Geometry) (inv : Inventory) : Prop where
  pages : Pages g inv.pages
  pages_ne : inv.pages ≠ []
  capacity_gt : 2 ^ 20 < inv.capacity
  capacity_le : inv.capacity ≤ g.dramSize
  capacity_mod : inv.capacity % g.pageSize = 0
  tableBytes : g.tableBytes = g.pageSize

theorem Pages.add {pages pages' : List PageKey} {record : Nat × Nat} (hpages : Pages g pages)
    (h : addPage g g.numCpus pages record = .ok pages') : Pages g pages' := by
  unfold addPage at h
  obtain ⟨_, hcheck, h⟩ := except_bind_eq_ok.mp h
  obtain ⟨_, -, h⟩ := except_bind_eq_ok.mp h
  cases h
  rw [throwIf_eq_ok, not_or, not_le, not_le] at hcheck
  have hpage : g.pageNumber record.2 = record.2 := Nat.mod_eq_of_lt hcheck.2
  rw [hpage]
  refine ⟨nodup_emplace hpages.nodup, ?_, ?_⟩
  · intro p hp
    rcases mem_emplace.mp hp with rfl | hp
    · exact hcheck.1
    · exact hpages.core_lt p hp
  · intro p hp
    rcases mem_emplace.mp hp with rfl | hp
    · exact hcheck.2
    · exact hpages.page_lt p hp

theorem consumes_extractPage : Consumes extractPage := by
  refine (consumes_extractUnsigned 32).bind fun cpu s page s' h => ?_
  obtain ⟨⟨vpn, t⟩, hvpn, hpure⟩ := except_bind_eq_ok.mp h
  cases hpure
  exact (consumes_extractUnsigned 64 s vpn _ hvpn).le

/-- The loop of `readInventory` is that of the source, which has no bound: it ends by itself before any bound
beyond the length of what is left. -/
theorem eachPage_bound (cores : Nat) (s : TextStream) {bound : Nat} (h : s.rest.length < bound) :
    eachRecord extractPage (addPage g cores) bound [] s =
      eachRecord extractPage (addPage g cores) (s.rest.length + 1) [] s :=
  eachRecord_fuel consumes_extractPage (addPage g cores) [] s h (Nat.lt_succ_self _)

theorem readInventory_valid {text : List Char} {inv : Inventory} (h : readInventory g text = .ok inv) :
    inv.Valid g := by
  unfold readInventory at h
  split at h
  · cases h
  · obtain ⟨_, hcheck, h⟩ := except_bind_eq_ok.mp h
    obtain ⟨⟨pages, s⟩, hpages, h⟩ := except_bind_eq_ok.mp h
    obtain ⟨_, hend, h⟩ := except_bind_eq_ok.mp h
    cases h
    simp only [throwIf_eq_ok, not_or, not_not, not_le, not_lt] at hcheck hend
    obtain ⟨-, rfl, -, hgt, hle, hmod, hbytes⟩ := hcheck
    refine ⟨?_, hend.2, hgt, hle, hmod, hbytes⟩
    refine eachRecord_invariant (Pages g) (fun _ _ _ hst hadd => hst.add hadd) ?_ hpages
    exact ⟨List.nodup_nil, fun p hp => absurd hp List.not_mem_nil, fun p hp => absurd hp List.not_mem_nil⟩

/-! ## The page tables -/

/-- Distinct keys of page tables. -/
structure Tables (g : Geometry) (tables : List TableKey) : Prop where
  nodup : tables.Nodup
  core_lt : ∀ k ∈ tables, k.1 < g.numCpus
  level_pos : ∀ k ∈ tables, 0 < k.2.1
  level_le : ∀ k ∈ tables, k.2.1 ≤ g.ptLevels
  bits_lt : ∀ k ∈ tables, k.2.2 < 2 ^ (64 - (g.log2PageSize + g.log2PteCount * k.2.1))

/-- A level whose key can be formed. -/
theorem addTable_eq_ok {core page level : Nat} (hlevel : level + 1 < 2 ^ 32) {tables tables' : List TableKey} :
    addTable g core page level tables = .ok tables' ↔
      g.log2PageSize + g.log2PteCount * level ≤ 64 ∧
        tables' = (emplace TableKey.le (g.keyOf core page level) tables).1 := by
  unfold addTable
  rw [Nat.mod_eq_of_lt hlevel, g.shamt_succ (Nat.lt_of_succ_lt hlevel), except_bind_eq_ok]
  constructor
  · rintro ⟨key, hkey, h⟩
    cases h
    obtain ⟨hle, rfl⟩ := g.tableKey_eq_ok.mp hkey
    rw [Nat.mod_eq_of_lt (Nat.lt_of_succ_lt hlevel)]
    exact ⟨hle, rfl⟩
  · rintro ⟨hle, rfl⟩
    refine ⟨g.keyOf core page level, g.tableKey_eq_ok.mpr ⟨hle, ?_⟩, rfl⟩
    rw [Nat.mod_eq_of_lt (Nat.lt_of_succ_lt hlevel)]
    rfl

/-- The bits of a page number above a level. -/
theorem keyOf_lt {page level : Nat} (hpage : page < 2 ^ (64 - g.log2PageSize))
    (hle : g.log2PageSize + g.log2PteCount * level ≤ 64) :
    g.pageAddress page / 2 ^ (g.log2PageSize + g.log2PteCount * level) <
      2 ^ (64 - (g.log2PageSize + g.log2PteCount * level)) := by
  refine Nat.div_lt_of_lt_mul ?_
  calc
    g.pageAddress page < 2 ^ (64 - g.log2PageSize) * 2 ^ g.log2PageSize :=
      Nat.mul_lt_mul_of_pos_right hpage (Nat.two_pow_pos _)
    _ = 2 ^ (g.log2PageSize + g.log2PteCount * level) * 2 ^ (64 - (g.log2PageSize + g.log2PteCount * level)) := by
      rw [← Nat.pow_add, ← Nat.pow_add]
      congr 1
      omega

theorem Tables.add {core page level : Nat} {tables tables' : List TableKey} (htables : Tables g tables)
    (hcore : core < g.numCpus) (hpage : page < 2 ^ (64 - g.log2PageSize)) (hpos : 0 < level)
    (hlevel : level ≤ g.ptLevels) (hsmall : level + 1 < 2 ^ 32) (h : addTable g core page level tables = .ok tables') :
    Tables g tables' := by
  obtain ⟨hle, rfl⟩ := (addTable_eq_ok hsmall).mp h
  have hall {P : TableKey → Prop} (hold : ∀ k ∈ tables, P k) (hnew : P (g.keyOf core page level)) :
      ∀ k ∈ (emplace TableKey.le (g.keyOf core page level) tables).1, P k := by
    intro k hk
    rcases mem_emplace.mp hk with rfl | hk
    · exact hnew
    · exact hold k hk
  exact ⟨nodup_emplace htables.nodup, hall htables.core_lt hcore, hall htables.level_pos hpos,
    hall htables.level_le hlevel, hall htables.bits_lt (keyOf_lt hpage hle)⟩

/-- Adding a table keeps the others. -/
theorem subset_addTable {core page level : Nat} {tables tables' : List TableKey}
    (h : addTable g core page level tables = .ok tables') : tables ⊆ tables' := by
  obtain ⟨key, -, h⟩ := except_bind_eq_ok.mp h
  cases h
  exact fun k hk => mem_emplace.mpr (.inr hk)

/-- The levels of a page, each of which has a key. -/
theorem addTables_levels {page : PageKey} {tables tables' : List TableKey} (h : addTables g tables page = .ok tables')
    {level : Nat} (hpos : 0 < level) (hlevel : level ≤ g.ptLevels) :
    ∃ t t', addTable g page.1 page.2 level t = .ok t' := by
  unfold addTables at h
  refine foldlM_each (P := fun level _ => ∃ t t', addTable g page.1 page.2 level t = .ok t')
    (fun t level t' _ ht => ⟨t, t', ht⟩) (fun _ _ _ _ hb _ => hb) h level ?_
  rw [List.mem_range'_1]
  omega

/-- Levels that fit into 64 bits are few. -/
theorem ptLevels_le {pages : List PageKey} {tables : List TableKey} (hne : pages ≠ [])
    (h : tablesOf g pages = .ok tables) : g.ptLevels ≤ 7 := by
  by_contra hlevels
  obtain ⟨page, hpage⟩ := List.exists_mem_of_ne_nil pages hne
  obtain ⟨roots, -, h⟩ := except_bind_eq_ok.mp h
  obtain ⟨t, t', hadd⟩ := foldlM_each (P := fun page _ => ∃ t t', addTables g t page = .ok t')
    (fun t page t' _ ht => ⟨t, t', ht⟩) (fun _ _ _ _ hb _ => hb) h page hpage
  obtain ⟨t, t', hlevel⟩ := addTables_levels hadd (show 0 < 8 by decide) (by omega)
  have hle := ((addTable_eq_ok (by omega)).mp hlevel).1
  have hk := g.log2PteCount_ge
  have hL := g.log2PteCount_le
  omega

theorem subset_addTables {page : PageKey} {tables tables' : List TableKey}
    (h : addTables g tables page = .ok tables') : tables ⊆ tables' :=
  foldlM_preserves (P := fun t => tables ⊆ t) (fun _ _ _ _ ht hadd => List.Subset.trans ht (subset_addTable hadd))
    (List.Subset.refl _) h

/-- Every level above every page has its table. -/
structure Covers (g : Geometry) (pages : List PageKey) (tables : List TableKey) : Prop where
  root : ∀ core < g.numCpus, g.keyOf core 0 g.ptLevels ∈ tables
  level : ∀ p ∈ pages, ∀ level, 0 < level → level ≤ g.ptLevels → g.keyOf p.1 p.2 level ∈ tables
  within : g.log2PageSize + g.log2PteCount * g.ptLevels ≤ 64

theorem tablesOf_spec {pages : List PageKey} {tables : List TableKey} (hpages : Pages g pages) (hne : pages ≠ [])
    (hlevels : 0 < g.ptLevels) (h : tablesOf g pages = .ok tables) : Tables g tables ∧ Covers g pages tables := by
  have hfew := ptLevels_le hne h
  obtain ⟨roots, hroots, h⟩ := except_bind_eq_ok.mp h
  rw [Nat.mod_eq_of_lt (by omega)] at hroots
  -- what is added for a page has its core, its number and its level in range
  have hlevel {p : PageKey} {t t' : List TableKey} (hp : p ∈ pages) (ht : Tables g t)
      (hadd : addTables g t p = .ok t') : Tables g t' := by
    refine foldlM_preserves (P := Tables g) (fun s level s' hmem hs hs' => ?_) ht hadd
    rw [List.mem_range'_1] at hmem
    exact hs.add (hpages.core_lt p hp) (hpages.page_lt p hp) (by omega) (by omega) (by omega) hs'
  have hempty : Tables g [] :=
    ⟨List.nodup_nil, fun k hk => absurd hk List.not_mem_nil, fun k hk => absurd hk List.not_mem_nil,
      fun k hk => absurd hk List.not_mem_nil, fun k hk => absurd hk List.not_mem_nil⟩
  have hrootTables : Tables g roots := by
    refine foldlM_preserves (P := Tables g) (fun s core s' hcore hs hs' => ?_) hempty hroots
    exact hs.add (List.mem_range.mp hcore) (Nat.two_pow_pos _) hlevels le_rfl (by omega) hs'
  have hsubset : roots ⊆ tables :=
    foldlM_preserves (P := fun t => roots ⊆ t) (fun _ _ _ _ ht hadd => List.Subset.trans ht (subset_addTables hadd))
      (List.Subset.refl _) h
  refine ⟨foldlM_preserves (P := Tables g) (fun s p s' hp hs => hlevel hp hs) hrootTables h, ?_, ?_, ?_⟩
  · intro core hcore
    refine hsubset (foldlM_each (P := fun core t => g.keyOf core 0 g.ptLevels ∈ t) ?_ ?_ hroots core
      (List.mem_range.mpr hcore))
    · intro t core t' _ hadd
      obtain ⟨-, rfl⟩ := (addTable_eq_ok (by omega)).mp hadd
      exact mem_emplace.mpr (.inl rfl)
    · exact fun _ _ _ _ hmem hadd => subset_addTable hadd hmem
  · intro p hp level hpos hle
    -- what one page adds stays to the end of the loop over the pages
    refine foldlM_each (P := fun (p : PageKey) t => g.keyOf p.1 p.2 level ∈ t) ?_ ?_ h p hp
    · intro t p t' _ hadd
      refine foldlM_each (P := fun level t => g.keyOf p.1 p.2 level ∈ t) ?_ ?_ hadd level ?_
      · intro t level t' hmem hstep
        rw [List.mem_range'_1] at hmem
        obtain ⟨-, rfl⟩ := (addTable_eq_ok (by omega)).mp hstep
        exact mem_emplace.mpr (.inl rfl)
      · exact fun _ _ _ _ hmem hstep => subset_addTable hstep hmem
      · rw [List.mem_range'_1]
        omega
    · exact fun _ _ _ _ hmem hadd => subset_addTables hadd hmem
  · obtain ⟨p, hp⟩ := List.exists_mem_of_ne_nil pages hne
    obtain ⟨t, t', hadd⟩ := foldlM_each (P := fun page _ => ∃ t t', addTables g t page = .ok t')
      (fun t page t' _ ht => ⟨t, t', ht⟩) (fun _ _ _ _ hb _ => hb) h p hp
    obtain ⟨t, t', htop⟩ := addTables_levels hadd hlevels le_rfl
    exact ((addTable_eq_ok (by omega)).mp htop).1

/-! ## The free frames -/

/-- A list of distinct frames beyond the first mebibyte and within a capacity. -/
structure Frames (g : Geometry) (capacity : Nat) (frames : List Nat) : Prop where
  nodup : frames.Nodup
  ge : ∀ f ∈ frames, 2 ^ 20 / g.pageSize ≤ f
  lt : ∀ f ∈ frames, f < capacity / g.pageSize

theorem frames_range {capacity : Nat} (hmod : capacity % g.pageSize = 0) (hgt : 2 ^ 20 < capacity) :
    Frames g capacity (List.range' g.firstFrame (g.frameCount capacity)) := by
  unfold Geometry.firstFrame Geometry.frameCount
  have hpos := g.pageSize_pos
  -- the first frame stands at a multiple of the page size
  have hfirst : max g.pageSize (2 ^ 20) / g.pageSize + (capacity - 2 ^ 20) / g.pageSize ≤ capacity / g.pageSize := by
    obtain ⟨m, rfl⟩ := Nat.dvd_of_mod_eq_zero hmod
    rw [Nat.mul_div_cancel_left m hpos]
    rcases le_or_gt g.log2PageSize 20 with hL | hL
    · have hle : g.pageSize ≤ 2 ^ 20 := Nat.pow_le_pow_right (by omega) hL
      obtain ⟨n, hn⟩ : g.pageSize ∣ 2 ^ 20 := Nat.pow_dvd_pow 2 hL
      rw [max_eq_right hle, hn, Nat.mul_div_cancel_left n hpos, ← Nat.mul_sub, Nat.mul_div_cancel_left _ hpos]
      have hlt : n < m := by
        rw [hn] at hgt
        exact Nat.lt_of_mul_lt_mul_left hgt
      omega
    · have hle : 2 ^ 20 ≤ g.pageSize := Nat.pow_le_pow_right (by omega) hL.le
      rw [max_eq_left hle, Nat.div_self hpos]
      have hlt : (g.pageSize * m - 2 ^ 20) / g.pageSize < m := by
        rw [Nat.div_lt_iff_lt_mul hpos, Nat.mul_comm m]
        omega
      omega
  have hbase : 2 ^ 20 / g.pageSize ≤ max g.pageSize (2 ^ 20) / g.pageSize := Nat.div_le_div_right (le_max_right _ _)
  refine ⟨List.nodup_range', ?_, ?_⟩
  · intro f hf
    rw [List.mem_range'_1] at hf
    omega
  · intro f hf
    rw [List.mem_range'_1] at hf
    omega

theorem Frames.perm {capacity : Nat} {frames frames' : List Nat} (h : Frames g capacity frames)
    (hperm : frames'.Perm frames) : Frames g capacity frames' :=
  ⟨hperm.nodup_iff.mpr h.nodup, fun f hf => h.ge f (hperm.mem_iff.mp hf), fun f hf => h.lt f (hperm.mem_iff.mp hf)⟩

theorem Frames.sublist {capacity : Nat} {frames frames' : List Nat} (h : Frames g capacity frames)
    (hsub : frames'.Sublist frames) : Frames g capacity frames' :=
  ⟨h.nodup.sublist hsub, fun f hf => h.ge f (hsub.subset hf), fun f hf => h.lt f (hsub.subset hf)⟩

/-! ## The file -/

variable {shuffle : Nat → List Nat → List Nat}

def tableLines (g : Geometry) (tables : List (TableKey × Nat)) : List Char :=
  tables.flatMap fun e => tableLine g e.1 e.2

def dataLines (data : List (PageKey × Nat)) : List Char := data.flatMap fun e => dataLine e.1 e.2

/-- The file with given frames for the tables and the pages. -/
def placementText (g : Geometry) (capacity : Nat) (tables : List (TableKey × Nat)) (data : List (PageKey × Nat)) :
    List Char :=
  headerText g capacity data.length tables.length ++ tableLines g tables ++ dataLines data

/-- Keys take the free frames in order. -/
theorem writeLines_eq {κ : Type} (line : κ → Nat → List Char) {keys : List κ} {vm : VirtualMemory}
    (hbytes : vm.placementBytes ≠ 0) (h : keys.length ≤ vm.ppageFreeList.length) :
    writeLines g shuffle line keys vm =
      .ok ((keys.zip vm.ppageFreeList).flatMap fun e => line e.1 e.2,
        { vm with ppageFreeList := vm.ppageFreeList.drop keys.length }) := by
  induction keys generalizing vm with
  | nil => rfl
  | cons key keys ih =>
      obtain ⟨frame, frames, hfree⟩ : ∃ f fs, vm.ppageFreeList = f :: fs :=
        List.exists_cons_of_ne_nil (List.ne_nil_of_length_pos (Nat.lt_of_lt_of_le (Nat.succ_pos _) h))
      have hfront : vm.ppageFront = .ok frame := by
        unfold ppageFront
        rw [hfree]
      have hpop : vm.ppagePop g shuffle = .ok { vm with ppageFreeList := frames } := by
        unfold ppagePop
        dsimp only
        rw [if_neg fun hempty => hbytes hempty.2, hfree]
        rfl
      have hlen : keys.length ≤ frames.length := by
        rw [hfree] at h
        exact Nat.le_of_succ_le_succ h
      unfold writeLines
      rw [hfront, hpop, hfree]
      show (writeLines g shuffle line keys { vm with ppageFreeList := frames } >>= _) = _
      rw [@ih { vm with ppageFreeList := frames } hbytes hlen]
      rfl

/-- The frames that the preparation gives out. -/
structure Placed (g : Geometry) (inv : Inventory) (tables : List (TableKey × Nat)) (data : List (PageKey × Nat)) :
    Prop where
  tableKeys : tablesOf g inv.pages = .ok (tables.map Prod.fst)
  dataKeys : data.map Prod.fst = inv.pages
  frames : Frames g inv.capacity (tables.map Prod.snd ++ data.map Prod.snd)
  count : tables.length + data.length ≤ g.frameCount inv.capacity

theorem populatePages_spec {vm vm' : VirtualMemory} (hbytes : vm.placementBytes ≠ 0)
    (h : vm.populatePages g = .ok vm') :
    vm'.placementBytes = vm.placementBytes ∧
      vm'.ppageFreeList = List.range' g.firstFrame (g.frameCount vm.placementBytes) := by
  unfold populatePages at h
  obtain ⟨_, -, h⟩ := except_bind_eq_ok.mp h
  obtain ⟨_, -, h⟩ := except_bind_eq_ok.mp h
  rw [if_neg hbytes] at h
  cases h
  exact ⟨rfl, rfl⟩

theorem shufflePages_spec (hshuffle : ∀ seed frames, (shuffle seed frames).Perm frames) (vm : VirtualMemory) :
    (vm.shufflePages g shuffle).placementBytes = vm.placementBytes ∧
      (vm.shufflePages g shuffle).ppageFreeList.Perm vm.ppageFreeList := by
  unfold shufflePages
  cases g.randomizationSeed with
  | none => exact ⟨rfl, .refl _⟩
  | some seed => exact ⟨rfl, hshuffle _ _⟩

/-- Keys that take frames in order. -/
theorem map_zip_take {κ : Type} {keys : List κ} {frames : List Nat} (h : keys.length ≤ frames.length) :
    (keys.zip frames).map Prod.fst = keys ∧ (keys.zip frames).map Prod.snd = frames.take keys.length := by
  have hmin : min keys.length frames.length = keys.length := min_eq_left h
  refine ⟨List.map_fst_zip h, ?_⟩
  rw [List.zip_eq_zip_take_min, hmin, List.take_length]
  refine List.map_snd_zip ?_
  rw [List.length_take, hmin]

/-- What the preparation writes. -/
theorem preparePlacement_spec (hshuffle : ∀ seed frames, (shuffle seed frames).Perm frames)
    {inventory text : List Char} {written : Bool} {vm vm' : VirtualMemory}
    (h : preparePlacement g shuffle inventory written vm = .ok (text, vm')) :
    ∃ inv tables data, readInventory g inventory = .ok inv ∧ Placed g inv tables data ∧
      text = placementText g inv.capacity tables data := by
  obtain ⟨_, -, h⟩ := except_bind_eq_ok.mp h
  obtain ⟨inv, hinv, h⟩ := except_bind_eq_ok.mp h
  obtain ⟨keys, hkeys, h⟩ := except_bind_eq_ok.mp h
  obtain ⟨populated, hpopulated, h⟩ := except_bind_eq_ok.mp h
  have hvalid := readInventory_valid hinv
  have hcapacity : inv.capacity ≠ 0 := Nat.ne_zero_of_lt hvalid.capacity_gt
  obtain ⟨hbytes, hperm⟩ := shufflePages_spec (g := g) hshuffle populated
  obtain ⟨hpopulatedBytes, hpopulatedFrames⟩ := populatePages_spec hcapacity hpopulated
  rw [hpopulatedBytes] at hbytes
  rw [hpopulatedFrames] at hperm
  dsimp only at h hbytes hperm
  generalize populated.shufflePages g shuffle = free at h hbytes hperm
  -- the free list holds the frames above the reserved ones, in the order that the shuffle left
  have hframes : Frames g inv.capacity free.ppageFreeList :=
    (frames_range hvalid.capacity_mod hvalid.capacity_gt).perm hperm
  have hcount : free.ppageFreeList.length = g.frameCount inv.capacity := by
    rw [hperm.length_eq, List.length_range']
  rw [← hbytes] at hcapacity
  -- there is a frame for every table and every page, so neither loop runs out of them
  obtain ⟨_, hroom, h⟩ := except_bind_eq_ok.mp h
  rw [throwIf_eq_ok, not_lt] at hroom
  change keys.length + inv.pages.length ≤ free.ppageFreeList.length at hroom
  have hdrop : inv.pages.length ≤ (free.ppageFreeList.drop keys.length).length := by
    rw [List.length_drop]
    omega
  obtain ⟨⟨tableText, afterTables⟩, htables, h⟩ := except_bind_eq_ok.mp h
  rw [writeLines_eq (tableLine g) hcapacity (by omega)] at htables
  cases htables
  obtain ⟨⟨dataText, afterData⟩, hdata, h⟩ := except_bind_eq_ok.mp h
  dsimp only at hdata
  rw [@writeLines_eq g shuffle _ dataLine _ { free with ppageFreeList := free.ppageFreeList.drop keys.length } hcapacity hdrop] at hdata
  cases hdata
  obtain ⟨_, -, h⟩ := except_bind_eq_ok.mp h
  cases h
  obtain ⟨htableKeys, htableFrames⟩ := map_zip_take (show keys.length ≤ free.ppageFreeList.length by omega)
  obtain ⟨hdataKeys, hdataFrames⟩ := map_zip_take hdrop
  have htableCount : (keys.zip free.ppageFreeList).length = keys.length := by
    rw [List.length_zip]
    omega
  have hdataCount : (inv.pages.zip (free.ppageFreeList.drop keys.length)).length = inv.pages.length := by
    rw [List.length_zip, min_eq_left hdrop]
  refine ⟨inv, keys.zip free.ppageFreeList, inv.pages.zip (free.ppageFreeList.drop keys.length), hinv,
    ⟨?_, hdataKeys, ?_, ?_⟩, ?_⟩
  · rw [htableKeys]
    exact hkeys
  · rw [htableFrames, hdataFrames, ← List.take_add]
    exact hframes.sublist (List.take_sublist _ _)
  · rw [htableCount, hdataCount]
    omega
  · unfold placementText
    rw [htableCount, hdataCount]
    rfl

/-! ## Reading a line -/

/-- A number that stands in a line. -/
def field (n : Nat) : List Char := ' ' :: decimal n

theorem delimited_field (n : Nat) (cs : List Char) : Delimited (field n ++ cs) := delimited_cons _ (by decide)

theorem reads_field {bits n : Nat} (hn : n < 2 ^ bits) : Reads (extractUnsigned bits) (field n) n :=
  reads_unsigned hn (by decide)

theorem reads_table {cpu level bits base : Nat} (hcpu : cpu < 2 ^ 32) (hlevel : level < 2 ^ 32)
    (hbits : bits < 2 ^ 64) (hbase : base < 2 ^ 64) :
    Reads extractTable (['\n', 'P'] ++ (field cpu ++ (field level ++ (field bits ++ field base))))
      ('P', cpu, level, bits, base) :=
  (reads_char (by decide) (by decide)).bind (delimited_field _ _) <|
    (reads_field hcpu).bind (delimited_field _ _) <|
      (reads_field hlevel).bind (delimited_field _ _) <|
        (reads_field hbits).bind (delimited_cons _ (by decide)) <|
          (reads_field hbase).bind_pure _

theorem reads_data {cpu vpn ppn : Nat} (hcpu : cpu < 2 ^ 32) (hvpn : vpn < 2 ^ 64) (hppn : ppn < 2 ^ 64) :
    Reads extractData (['\n', 'D'] ++ (field cpu ++ (field vpn ++ field ppn))) ('D', cpu, vpn, ppn) :=
  (reads_char (by decide) (by decide)).bind (delimited_field _ _) <|
    (reads_field hcpu).bind (delimited_field _ _) <|
      (reads_field hvpn).bind (delimited_cons _ (by decide)) <|
        (reads_field hppn).bind_pure _

theorem isSpace_magic : ∀ c ∈ "CHAMPSIM_PLACEMENT_V1".toList, isSpace c = false := by
  simp [isSpace]

theorem magic_ne_nil : "CHAMPSIM_PLACEMENT_V1".toList ≠ [] := by
  simp

theorem reads_header {cores pageBytes tableBytes levels capacity seed data tables : Nat} (hcores : cores < 2 ^ 64)
    (hpage : pageBytes < 2 ^ 64) (htable : tableBytes < 2 ^ 64) (hlevels : levels < 2 ^ 64)
    (hcapacity : capacity < 2 ^ 64) (hseed : seed < 2 ^ 64) (hdata : data < 2 ^ 64) (htables : tables < 2 ^ 64) :
    Reads extractHeader
      ("CHAMPSIM_PLACEMENT_V1".toList ++ (field cores ++ (field pageBytes ++ (field tableBytes ++ (field levels ++
        (field capacity ++ (field seed ++ (field data ++ field tables))))))))
      ⟨"CHAMPSIM_PLACEMENT_V1".toList, cores, pageBytes, tableBytes, levels, capacity, seed, data, tables⟩ :=
  (reads_word isSpace_magic magic_ne_nil).bind (delimited_field _ _) <|
    (reads_field hcores).bind (delimited_field _ _) <|
      (reads_field hpage).bind (delimited_field _ _) <|
        (reads_field htable).bind (delimited_field _ _) <|
          (reads_field hlevels).bind (delimited_field _ _) <|
            (reads_field hcapacity).bind (delimited_field _ _) <|
              (reads_field hseed).bind (delimited_field _ _) <|
                (reads_field hdata).bind (delimited_cons _ (by decide)) <|
                  (reads_field htables).bind_pure _

theorem tableLine_eq (key : TableKey) (frame : Nat) (rest : List Char) :
    '\n' :: (tableLine g key frame ++ rest) =
      (['\n', 'P'] ++ (field key.1 ++ (field key.2.1 ++ (field key.2.2 ++ field (g.pageAddress frame % 2 ^ 64))))) ++
        '\n' :: rest := by
  have hmark : "P ".toList = ['P', ' '] := by decide
  simp [tableLine, field, hmark]

theorem dataLine_eq (key : PageKey) (frame : Nat) (rest : List Char) :
    '\n' :: (dataLine key frame ++ rest) =
      (['\n', 'D'] ++ (field key.1 ++ (field key.2 ++ field frame))) ++ '\n' :: rest := by
  have hmark : "D ".toList = ['D', ' '] := by decide
  simp [dataLine, field, hmark]

theorem headerText_eq (capacity data tables : Nat) (rest : List Char) :
    headerText g capacity data tables ++ rest =
      ("CHAMPSIM_PLACEMENT_V1".toList ++ (field g.numCpus ++ (field g.pageSize ++ (field g.tableBytes ++
        (field g.ptLevels ++ (field capacity ++ (field g.seed ++ (field data ++ field tables)))))))) ++
        '\n' :: rest := by
  have hmagic : "CHAMPSIM_PLACEMENT_V1 ".toList = "CHAMPSIM_PLACEMENT_V1".toList ++ [' '] := by simp
  unfold headerText
  rw [hmagic]
  generalize "CHAMPSIM_PLACEMENT_V1".toList = magic
  simp [field]

/-! ## Loading -/

/-- A loop over lines, each of which is a new key with a new frame. -/
theorem times_lines {κ : Type} {step : Loading κ → Except String (Loading κ)} {line : κ → Nat → List Char}
    {value : Nat → Nat} {P : κ × Nat → Prop}
    (hstep : ∀ e l rest, P e → l.stream = ofText ('\n' :: (line e.1 e.2 ++ rest)) → e.1 ∉ l.fixed.map Prod.fst →
      e.2 ∉ l.frames → step l = .ok ⟨ofText ('\n' :: rest), e.2 :: l.frames, l.fixed ++ [(e.1, value e.2)]⟩)
    {entries : List (κ × Nat)} {l : Loading κ} {rest : List Char} (hvalid : ∀ e ∈ entries, P e)
    (hstream : l.stream = ofText ('\n' :: (entries.flatMap (fun e => line e.1 e.2) ++ rest)))
    (hkeys : (l.fixed.map Prod.fst ++ entries.map Prod.fst).Nodup)
    (hframes : (l.frames ++ entries.map Prod.snd).Nodup) :
    ∃ frames, times step entries.length l =
        .ok ⟨ofText ('\n' :: rest), frames, l.fixed ++ entries.map fun e => (e.1, value e.2)⟩ ∧
      frames.Perm (l.frames ++ entries.map Prod.snd) := by
  induction entries generalizing l with
  | nil =>
      obtain ⟨stream, frames, fixed⟩ := l
      obtain rfl : stream = ofText ('\n' :: rest) := hstream
      rw [List.map_nil, List.map_nil, List.append_nil, List.append_nil]
      exact ⟨frames, rfl, .refl _⟩
  | cons e entries ih =>
      rw [List.flatMap_cons, List.append_assoc] at hstream
      rw [List.map_cons] at hkeys hframes
      have hkey : e.1 ∉ l.fixed.map Prod.fst := fun hmem =>
        List.disjoint_of_nodup_append hkeys hmem List.mem_cons_self
      have hframe : e.2 ∉ l.frames := fun hmem => List.disjoint_of_nodup_append hframes hmem List.mem_cons_self
      have hmoved : (e.2 :: l.frames ++ entries.map Prod.snd).Perm (l.frames ++ e.2 :: entries.map Prod.snd) :=
        List.perm_middle.symm
      obtain ⟨frames, htimes, hperm⟩ :=
        @ih ⟨_, e.2 :: l.frames, l.fixed ++ [(e.1, value e.2)]⟩ (fun e' he' => hvalid e' (List.mem_cons_of_mem _ he'))
          rfl (by rw [List.map_append, List.append_assoc]; exact hkeys) (hmoved.nodup_iff.mpr hframes)
      refine ⟨frames, ?_, hperm.trans hmoved⟩
      rw [List.append_assoc] at htimes
      show (step l >>= times step entries.length) = _
      rw [hstep e l _ (hvalid e List.mem_cons_self) hstream hkey hframe]
      exact htimes

theorem emplaceNew_eq {κ : Type} [BEq κ] [LawfulBEq κ] {d : Dict κ Nat} {k : κ} (h : k ∉ d.map Prod.fst) (v : Nat)
    (message : String) : emplaceNew d k v message = .ok (d ++ [(k, v)]) := by
  have hnone : d.lookup k = none := by
    rw [List.lookup_eq_none_iff]
    intro e he
    rw [bne_iff_ne]
    rintro rfl
    exact h (List.mem_map_of_mem he)
  unfold emplaceNew
  rw [throwIf_bind (by rw [hnone]; decide)]
  rfl

theorem checkFrame_eq {capacity frame : Nat} {frames : List Nat} (hge : 2 ^ 20 / g.pageSize ≤ frame)
    (hlt : frame < capacity / g.pageSize) (hnew : frame ∉ frames) :
    checkFrame g capacity frame frames = .ok (frame :: frames) := by
  unfold checkFrame
  rw [throwIf_bind (by rw [not_or, not_or, not_lt, not_le]; exact ⟨hge, hlt, hnew⟩)]
  rfl

/-- What a line may say: a key of the geometry, and a frame of the capacity. -/
structure TableEntry (g : Geometry) (capacity : Nat) (e : TableKey × Nat) : Prop where
  core_lt : e.1.1 < g.numCpus
  level_pos : 0 < e.1.2.1
  level_le : e.1.2.1 ≤ g.ptLevels
  within : g.log2PageSize + g.log2PteCount * e.1.2.1 ≤ 64
  bits_lt : e.1.2.2 < 2 ^ (64 - (g.log2PageSize + g.log2PteCount * e.1.2.1))
  frame_ge : 2 ^ 20 / g.pageSize ≤ e.2
  frame_lt : e.2 < capacity / g.pageSize

structure DataEntry (g : Geometry) (capacity : Nat) (e : PageKey × Nat) : Prop where
  core_lt : e.1.1 < g.numCpus
  page_lt : e.1.2 < 2 ^ (64 - g.log2PageSize)
  frame_ge : 2 ^ 20 / g.pageSize ≤ e.2
  frame_lt : e.2 < capacity / g.pageSize

/-- The address of a frame is within the capacity. -/
theorem pageAddress_lt {capacity frame : Nat} (h : frame < capacity / g.pageSize) : g.pageAddress frame < capacity :=
  calc
    g.pageAddress frame < capacity / g.pageSize * g.pageSize := Nat.mul_lt_mul_of_pos_right h g.pageSize_pos
    _ ≤ capacity := Nat.div_mul_le_self _ _

/-- A level that a slice can have, whose number is small. -/
theorem level_le_seven {level : Nat} (h : g.log2PageSize + g.log2PteCount * level ≤ 64) : level ≤ 7 := by
  by_contra hlevel
  have hmul : 8 * 8 ≤ g.log2PteCount * level := Nat.mul_le_mul g.log2PteCount_ge (by omega)
  have hL := g.log2PteCount_le
  have hk := g.log2PteCount_ge
  omega

theorem loadTable_eq {h : Header} {e : TableKey × Nat} {l : Loading TableKey} {rest : List Char}
    (hcores : h.cores = g.numCpus) (hcapacity : h.capacity ≤ g.dramSize) (he : TableEntry g h.capacity e)
    (hstream : l.stream = ofText ('\n' :: (tableLine g e.1 e.2 ++ rest))) (hkey : e.1 ∉ l.fixed.map Prod.fst)
    (hframe : e.2 ∉ l.frames) :
    loadTable g h l = .ok ⟨ofText ('\n' :: rest), e.2 :: l.frames, l.fixed ++ [(e.1, g.pageAddress e.2)]⟩ := by
  obtain ⟨⟨core, level, bits⟩, frame⟩ := e
  have hcpus := g.numCpus_lt
  have hdram := g.dramSize_lt
  have hseven : level ≤ 7 := level_le_seven he.within
  have hlevel : level < 2 ^ 32 := by omega
  have hcore : core < 2 ^ 32 := lt_trans he.core_lt hcpus
  have haddress : g.pageAddress frame < 2 ^ 64 := by
    have hlt : g.pageAddress frame < h.capacity := pageAddress_lt he.frame_lt
    omega
  have hbits : bits < 2 ^ 64 := lt_of_lt_of_le he.bits_lt (Nat.pow_le_pow_right (by decide) (Nat.sub_le _ _))
  -- what `tableLine` wrote is read back, as every number fits its field
  have hread : extractTable l.stream =
      .ok (('P', core, level, bits, g.pageAddress frame), ofText ('\n' :: rest)) := by
    rw [hstream, tableLine_eq, Nat.mod_eq_of_lt haddress]
    exact reads_table hcore hlevel hbits haddress _ (delimited_cons _ (by decide))
  have hslice : Geometry.upperValue (g.shamt ((level + 1) % 2 ^ 32)) bits = .ok bits := by
    rw [Nat.mod_eq_of_lt (by omega), g.shamt_succ (by omega)]
    unfold Geometry.upperValue
    rw [throwIf_bind (not_lt.mpr he.within), Nat.mod_eq_of_lt he.bits_lt]
    rfl
  -- and it passes the checks of a record
  have hpass : ¬('P' ≠ 'P' ∨ h.cores ≤ core ∨ level = 0 ∨ g.ptLevels < level ∨
      g.pageAddress frame % g.pageSize ≠ 0) := by
    rw [hcores, g.pageAddress_mod]
    rintro (hkind | hcpu | hzero | hlevels | hbase)
    · exact hkind rfl
    · exact absurd he.core_lt (not_lt.mpr hcpu)
    · exact he.level_pos.ne' hzero
    · exact absurd he.level_le (not_le.mpr hlevels)
    · exact hbase rfl
  unfold loadTable
  rw [hread]
  dsimp only
  rw [throwIf_bind hpass, hslice]
  show (throwIf (bits ≠ bits) _ >>= _) = _
  rw [throwIf_bind (not_not.mpr rfl), emplaceNew_eq hkey, g.pageAddress_div]
  show (checkFrame g h.capacity frame l.frames >>= _) = _
  rw [checkFrame_eq he.frame_ge he.frame_lt hframe]
  rfl

theorem loadData_eq {h : Header} {e : PageKey × Nat} {l : Loading PageKey} {rest : List Char}
    (hcores : h.cores = g.numCpus) (hcapacity : h.capacity ≤ g.dramSize) (he : DataEntry g h.capacity e)
    (hstream : l.stream = ofText ('\n' :: (dataLine e.1 e.2 ++ rest))) (hkey : e.1 ∉ l.fixed.map Prod.fst)
    (hframe : e.2 ∉ l.frames) :
    loadData g h l = .ok ⟨ofText ('\n' :: rest), e.2 :: l.frames, l.fixed ++ [(e.1, e.2)]⟩ := by
  obtain ⟨⟨core, vpn⟩, frame⟩ := e
  have hcpus := g.numCpus_lt
  have hdram := g.dramSize_lt
  have hcore : core < g.numCpus := he.core_lt
  have hvpn : vpn < 2 ^ (64 - g.log2PageSize) := he.page_lt
  have hvpn' : vpn < 2 ^ 64 := lt_of_lt_of_le hvpn (Nat.pow_le_pow_right (by decide) (Nat.sub_le _ _))
  have hframeLt : frame < 2 ^ (64 - g.log2PageSize) := by
    have hlt : g.pageAddress frame < h.capacity := pageAddress_lt he.frame_lt
    refine Nat.lt_of_mul_lt_mul_right (a := 2 ^ g.log2PageSize) ?_
    rw [← Nat.pow_add, Nat.sub_add_cancel (by have := g.log2PageSize_lt; omega)]
    show g.pageAddress frame < 2 ^ 64
    omega
  have hframe' : frame < 2 ^ 64 := lt_of_lt_of_le hframeLt (Nat.pow_le_pow_right (by decide) (Nat.sub_le _ _))
  have hread : extractData l.stream = .ok (('D', core, vpn, frame), ofText ('\n' :: rest)) := by
    rw [hstream, dataLine_eq]
    exact reads_data (lt_trans hcore hcpus) hvpn' hframe' _ (delimited_cons _ (by decide))
  have hpage : g.pageNumber vpn = vpn := Nat.mod_eq_of_lt hvpn
  have hpass : ¬('D' ≠ 'D' ∨ h.cores ≤ core ∨ 2 ^ (64 - g.log2PageSize) ≤ vpn) := by
    rw [hcores, not_or, not_or, not_le, not_le]
    exact ⟨not_not.mpr rfl, hcore, hvpn⟩
  unfold loadData
  rw [hread]
  dsimp only
  rw [throwIf_bind hpass, hpage, emplaceNew_eq hkey]
  show (checkFrame g h.capacity frame l.frames >>= _) = _
  rw [checkFrame_eq he.frame_ge he.frame_lt hframe]
  show Except.ok _ = _
  rw [show g.pageNumber frame = frame from Nat.mod_eq_of_lt hframeLt]

/-! ### The whole file -/

section File

variable {inv : Inventory} {tables : List (TableKey × Nat)} {data : List (PageKey × Nat)}

theorem Placed.tableEntry (hplaced : Placed g inv tables data) (hinv : inv.Valid g) (hlevels : 0 < g.ptLevels) :
    ∀ e ∈ tables, TableEntry g inv.capacity e := by
  obtain ⟨htables, hcovers⟩ := tablesOf_spec hinv.pages hinv.pages_ne hlevels hplaced.tableKeys
  intro e he
  have hkey : e.1 ∈ tables.map Prod.fst := List.mem_map_of_mem he
  have hframe : e.2 ∈ tables.map Prod.snd ++ data.map Prod.snd :=
    List.mem_append_left _ (List.mem_map_of_mem he)
  have hlevel := htables.level_le e.1 hkey
  have hmul : g.log2PteCount * e.1.2.1 ≤ g.log2PteCount * g.ptLevels := Nat.mul_le_mul_left _ hlevel
  exact {
    core_lt := htables.core_lt e.1 hkey
    level_pos := htables.level_pos e.1 hkey
    level_le := hlevel
    within := (Nat.add_le_add_left hmul _).trans hcovers.within
    bits_lt := htables.bits_lt e.1 hkey
    frame_ge := hplaced.frames.ge e.2 hframe
    frame_lt := hplaced.frames.lt e.2 hframe }

theorem Placed.dataEntry (hplaced : Placed g inv tables data) (hinv : inv.Valid g) :
    ∀ e ∈ data, DataEntry g inv.capacity e := by
  intro e he
  have hkey : e.1 ∈ inv.pages := by
    rw [← hplaced.dataKeys]
    exact List.mem_map_of_mem he
  have hframe : e.2 ∈ tables.map Prod.snd ++ data.map Prod.snd :=
    List.mem_append_right _ (List.mem_map_of_mem he)
  exact ⟨hinv.pages.core_lt e.1 hkey, hinv.pages.page_lt e.1 hkey, hplaced.frames.ge e.2 hframe,
    hplaced.frames.lt e.2 hframe⟩

/-- The header that the preparation writes. -/
def headerOf (g : Geometry) (capacity dataCount tableCount : Nat) : Header where
  magic := "CHAMPSIM_PLACEMENT_V1".toList
  cores := g.numCpus
  pageBytes := g.pageSize
  tableBytes := g.tableBytes
  levels := g.ptLevels
  capacity := capacity
  seed := g.seed
  dataCount := dataCount
  tableCount := tableCount

theorem header_reads (hinv : inv.Valid g) {dataCount tableCount : Nat}
    (hcount : tableCount + dataCount ≤ g.frameCount inv.capacity) (rest : List Char) :
    extractHeader (ofText (headerText g inv.capacity dataCount tableCount ++ rest)) =
      .ok (headerOf g inv.capacity dataCount tableCount, ofText ('\n' :: rest)) := by
  have hcpus := g.numCpus_lt
  have hdram := g.dramSize_lt
  have hcapacity := hinv.capacity_le
  have hpage : g.pageSize < 2 ^ 64 := Nat.pow_lt_pow_right (by decide) (by have := g.log2PageSize_lt; omega)
  have hframes : g.frameCount inv.capacity ≤ inv.capacity := (Nat.div_le_self _ _).trans (Nat.sub_le _ _)
  have hseed : g.seed < 2 ^ 64 := by
    unfold Geometry.seed
    cases hsome : g.randomizationSeed with
    | none => exact Nat.two_pow_pos 64
    | some seed => exact g.seed_lt seed hsome
  rw [headerText_eq]
  exact reads_header (by omega) hpage (hinv.tableBytes ▸ hpage) g.ptLevels_lt (by omega) hseed (by omega)
    (by omega) _ (delimited_cons _ (by decide))

theorem header_not_refused (hinv : inv.Valid g) {dataCount tableCount : Nat} (hdata : dataCount ≠ 0)
    (htables : tableCount ≠ 0) (hcount : tableCount + dataCount ≤ g.frameCount inv.capacity) :
    ¬(headerOf g inv.capacity dataCount tableCount).refused g = true := by
  have hsum : (dataCount + tableCount) % 2 ^ 64 ≤ g.frameCount inv.capacity :=
    (Nat.mod_le _ _).trans (by omega)
  intro hrefused
  rcases of_decide_eq_true hrefused with h | h | h | h | h | h | h | h | h | h | h | h | h
  · exact h rfl
  · exact h rfl
  · exact h rfl
  · exact h rfl
  · exact h hinv.tableBytes
  · exact h rfl
  · exact h rfl
  · exact absurd hinv.capacity_gt (not_lt.mpr h)
  · exact absurd hinv.capacity_le (not_le.mpr h)
  · exact h hinv.capacity_mod
  · exact hdata h
  · exact htables h
  · exact absurd hsum (not_le.mpr h)

/-- Loading what was written gives the written maps. -/
theorem loadPlacement_eq (hinv : inv.Valid g) (hlevels : 0 < g.ptLevels) (hplaced : Placed g inv tables data)
    {vm : VirtualMemory} (hnoTables : vm.fixedTables = []) (hnoData : vm.fixedData = []) :
    vm.loadPlacement g (placementText g inv.capacity tables data) = .ok { vm with
      fixedTables := tables.map fun e => (e.1, g.pageAddress e.2)
      fixedData := data
      vpageToPpageMap := []
      pageTable := []
      placementBytes := inv.capacity
      fixedPlacement := true
      ppageFreeList := [] } := by
  obtain ⟨htables, hcovers⟩ := tablesOf_spec hinv.pages hinv.pages_ne hlevels hplaced.tableKeys
  have hdata : data.length ≠ 0 := by
    rw [← List.length_map Prod.fst, hplaced.dataKeys]
    exact (List.length_pos_iff.mpr hinv.pages_ne).ne'
  have hsomeTable : tables.length ≠ 0 := by
    obtain ⟨p, hp⟩ := List.exists_mem_of_ne_nil _ hinv.pages_ne
    rw [← List.length_map Prod.fst]
    exact (List.length_pos_of_mem (hcovers.level p hp g.ptLevels hlevels le_rfl)).ne'
  -- the pages are loaded with the frames of the tables already taken
  obtain ⟨frames, htables', hperm⟩ := @times_lines TableKey
    (loadTable g (headerOf g inv.capacity data.length tables.length)) (tableLine g) g.pageAddress
    (TableEntry g inv.capacity)
    (fun e l rest he hstream hkey hframe => loadTable_eq rfl hinv.capacity_le he hstream hkey hframe) tables
    ⟨ofText ('\n' :: (tableLines g tables ++ dataLines data)), [], []⟩ (dataLines data)
    (hplaced.tableEntry hinv hlevels) rfl htables.nodup (List.nodup_append.mp hplaced.frames.nodup).1
  rw [List.nil_append] at hperm
  obtain ⟨frames', hdata', -⟩ := @times_lines PageKey
    (loadData g (headerOf g inv.capacity data.length tables.length)) dataLine id (DataEntry g inv.capacity)
    (fun e l rest he hstream hkey hframe => loadData_eq rfl hinv.capacity_le he hstream hkey hframe) data
    ⟨ofText ('\n' :: dataLines data), frames, []⟩ [] (hplaced.dataEntry hinv)
    (by rw [List.append_nil]; rfl) (by rw [hplaced.dataKeys]; exact hinv.pages.nodup)
    ((hperm.append_right _).nodup_iff.mpr hplaced.frames.nodup)
  have hsame : data.map (fun e => (e.1, id e.2)) = data := List.map_id data
  rw [List.nil_append, hsame] at hdata'
  unfold loadPlacement placementText
  rw [List.append_assoc, header_reads hinv hplaced.count]
  dsimp only
  rw [throwIf_bind (header_not_refused hinv hdata hsomeTable hplaced.count), hnoTables, hnoData]
  -- only the newline of the last line is left
  have hend : ¬(extractWord (ofText ['\n'])).isOk = true := by
    obtain ⟨s, hs⟩ := extractWord_end (c := '\n') (by decide)
    rw [hs]
    exact Bool.false_ne_true
  refine except_bind_eq_ok.mpr ⟨_, htables', except_bind_eq_ok.mpr ⟨_, hdata', ?_⟩⟩
  dsimp only
  rw [throwIf_bind hend, List.nil_append]
  rfl

end File

end VirtualMemory

end Ramulator.ChampSim
