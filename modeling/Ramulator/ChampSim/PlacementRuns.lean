/-
# Ramulator.ChampSim.PlacementRuns — a run with a placement that was prepared for it.

With fixed maps a first touch only records what the maps say. The maps of first touches stay parts of the fixed ones
(`Holds`), so that every call for a page of the inventory succeeds and gives what the placement says, in whatever
order the calls come (`calls_spec`). Every page table has a frame of its own and fills it, whence an entry's address
tells the table and the index (`entry_injective`).

A frontend without page table levels is not served: the preparation writes the roots at level 0, which the loader
does not take (`noLevels_refused`).
-/
import Ramulator.ChampSim.Placement

namespace Ramulator.ChampSim

open Ramulator.Lib

namespace Geometry

variable (g : Geometry)

/-- The bits of an address from the index of a level upward. -/
def indexBits (page level : Nat) : Nat := g.pageAddress page / 2 ^ g.shamt level

theorem shamt_eq {level : Nat} (hpos : 0 < level) (hlevel : level ≤ 7) :
    g.shamt level = g.log2PageSize + g.log2PteCount * (level - 1) := by
  obtain ⟨l, rfl⟩ : ∃ l, level = l + 1 := ⟨level - 1, by omega⟩
  exact g.shamt_succ (by omega)

/-- The bits above a level are those of its key. -/
theorem indexBits_div {page level : Nat} (hpos : 0 < level) (hlevel : level ≤ 7) :
    g.indexBits page level / 2 ^ g.log2PteCount =
      g.pageAddress page / 2 ^ (g.log2PageSize + g.log2PteCount * level) := by
  obtain ⟨l, rfl⟩ : ∃ l, level = l + 1 := ⟨level - 1, by omega⟩
  unfold indexBits
  rw [g.shamt_eq hpos hlevel, Nat.div_div_eq_div_mul, ← Nat.pow_add, Nat.add_sub_cancel, Nat.mul_succ, Nat.add_assoc]

/-- A page table fills its frame. -/
theorem log2PteCount_add (h : g.tableBytes = g.pageSize) : 3 + g.log2PteCount = g.log2PageSize := by
  refine Nat.pow_right_injective (le_refl 2) ?_
  show 2 ^ (3 + g.log2PteCount) = 2 ^ g.log2PageSize
  rw [Nat.pow_add, Nat.mul_comm]
  exact h

/-- An entry stands in the frame of its table. -/
theorem spliceEntry_eq (h : g.tableBytes = g.pageSize) (frame index : Nat) :
    g.spliceEntry (g.pageAddress frame) index = frame * 2 ^ g.log2PageSize + index % 2 ^ g.log2PteCount * 2 ^ 3 := by
  have hsize := g.log2PteCount_add h
  have hmod : g.pageAddress frame % 2 ^ 3 = 0 := by
    unfold pageAddress
    rw [← hsize, Nat.pow_add, Nat.mul_left_comm]
    exact Nat.mul_mod_right _ _
  unfold spliceEntry
  rw [hmod, hsize]
  unfold pageAddress
  rw [Nat.mul_div_cancel _ (Nat.two_pow_pos _), Nat.add_zero]

theorem spliceEntry_injective (h : g.tableBytes = g.pageSize) {frame frame' index index' : Nat}
    (heq : g.spliceEntry (g.pageAddress frame) index = g.spliceEntry (g.pageAddress frame') index') :
    frame = frame' ∧ index % 2 ^ g.log2PteCount = index' % 2 ^ g.log2PteCount := by
  have hsize := g.log2PteCount_add h
  have hlt (i : Nat) : i % 2 ^ g.log2PteCount * 2 ^ 3 < 2 ^ g.log2PageSize := by
    rw [← hsize, Nat.pow_add, Nat.mul_comm]
    exact Nat.mul_lt_mul_of_pos_left (Nat.mod_lt _ (Nat.two_pow_pos _)) (by decide)
  rw [g.spliceEntry_eq h, g.spliceEntry_eq h] at heq
  have hframe : frame = frame' := by
    have hdiv (f i : Nat) : (f * 2 ^ g.log2PageSize + i % 2 ^ g.log2PteCount * 2 ^ 3) / 2 ^ g.log2PageSize = f := by
      rw [Nat.mul_comm f, Nat.mul_add_div (Nat.two_pow_pos _), Nat.div_eq_of_lt (hlt i), Nat.add_zero]
    rw [← hdiv frame index, heq, hdiv]
  subst hframe
  refine ⟨rfl, ?_⟩
  have hmul := Nat.add_left_cancel heq
  exact Nat.eq_of_mul_eq_mul_right (by decide) hmul

end Geometry

namespace VirtualMemory

variable {g : Geometry} (shuffle : Nat → List Nat → List Nat) {inv : Inventory} {tables : List (TableKey × Nat)}
  {data : List (PageKey × Nat)}

/-- The calls that an inventory is for: its pages at every level, and the roots, for which the page table walkers
ask. -/
def Call.Inventoried (g : Geometry) (pages : List PageKey) : Call → Prop
  | .vaToPa cpu page => (cpu, page) ∈ pages
  | .getPtePa cpu page level =>
      ((cpu, page) ∈ pages ∧ 0 < level ∧ level ≤ g.ptLevels) ∨ (cpu < g.numCpus ∧ page = 0 ∧ level = g.ptLevels)

/-- The tables with the addresses of their frames. -/
def tableBases (g : Geometry) (tables : List (TableKey × Nat)) : Dict TableKey Nat :=
  tables.map fun e => (e.1, g.pageAddress e.2)

/-- What a call gives. -/
def addressOf (g : Geometry) (tables : List (TableKey × Nat)) (data : List (PageKey × Nat)) : Call → Nat
  | .vaToPa cpu page => (data.lookup (cpu, page)).getD 0
  | .getPtePa cpu page level =>
      g.spliceEntry (((tableBases g tables).lookup (g.keyOf cpu page level)).getD 0)
        (g.indexBits page level % 2 ^ g.log2PteCount)

/-- The fixed maps, of which the maps of first touches are parts. -/
structure Holds (g : Geometry) (tables : List (TableKey × Nat)) (data : List (PageKey × Nat)) (vm : VirtualMemory) :
    Prop where
  fixedPlacement : vm.fixedPlacement = true
  fixedTables : vm.fixedTables = tableBases g tables
  fixedData : vm.fixedData = data
  touchedPages : ∀ k v, vm.vpageToPpageMap.lookup k = some v → data.lookup k = some v
  touchedTables : ∀ k v, vm.pageTable.lookup k = some v → (tableBases g tables).lookup k = some v

/-- A key that is known has an entry. -/
theorem exists_lookup {κ : Type} [BEq κ] [LawfulBEq κ] {d : Dict κ Nat} {k : κ} (h : k ∈ d.map Prod.fst) :
    ∃ v, d.lookup k = some v := by
  rw [← Option.isSome_iff_exists, Option.isSome_iff_ne_none]
  intro hnone
  obtain ⟨e, he, rfl⟩ := List.mem_map.mp h
  exact bne_iff_ne.mp (List.lookup_eq_none_iff.mp hnone e he) rfl

/-- A first touch of a key takes what the fixed map says. -/
theorem touch_lookup {κ : Type} [BEq κ] [LawfulBEq κ] {d touched : Dict κ Nat} {k : κ} {v : Nat}
    (hd : d.lookup k = some v) (htouched : ∀ k v, touched.lookup k = some v → d.lookup k = some v) :
    ∀ k' v', (touched ++ [(k, v)]).lookup k' = some v' → d.lookup k' = some v' := by
  intro k' v' h
  rw [List.lookup_append] at h
  cases hold : touched.lookup k' with
  | some w =>
      rw [hold] at h
      exact htouched k' v' (hold.trans h)
  | none =>
      rw [hold, Option.none_or, List.lookup_cons] at h
      by_cases hk : k' = k
      · subst hk
        rw [beq_self_eq_true] at h
        cases h
        exact hd
      · rw [beq_eq_false_iff_ne.mpr hk] at h
        cases h

theorem vaToPa_spec {vm : VirtualMemory} (h : Holds g tables data vm) {cpu page frame : Nat}
    (hframe : data.lookup (cpu, page) = some frame) :
    ∃ penalty after, vaToPa g shuffle cpu page vm = .ok ((frame, penalty), after) ∧ Holds g tables data after := by
  have hfresh : vm.freshPage (cpu, page) = .ok frame := by
    unfold freshPage atKey
    rw [if_pos h.fixedPlacement, h.fixedData, hframe]
  unfold vaToPa
  rw [hfresh]
  show ∃ penalty after, touchPage g shuffle (cpu, page) frame vm = .ok ((frame, penalty), after) ∧ _
  unfold touchPage
  cases htouched : vm.vpageToPpageMap.lookup (cpu, page) with
  | some old =>
      obtain rfl : frame = old := Option.some.inj (hframe.symm.trans (h.touchedPages _ _ htouched))
      exact ⟨0, vm, rfl, h⟩
  | none =>
      dsimp only
      rw [if_pos h.fixedPlacement]
      exact ⟨_, _, rfl, { h with touchedPages := touch_lookup hframe h.touchedPages }⟩

theorem getPtePa_spec (hwithin : g.log2PageSize + g.log2PteCount * g.ptLevels ≤ 64) {vm : VirtualMemory}
    (h : Holds g tables data vm) {cpu page level base : Nat} (hpos : 0 < level) (hlevel : level ≤ g.ptLevels)
    (hbase : (tableBases g tables).lookup (g.keyOf cpu page level) = some base) :
    ∃ penalty after, getPtePa g shuffle cpu page level vm =
        .ok ((g.spliceEntry base (g.indexBits page level % 2 ^ g.log2PteCount), penalty), after) ∧
      Holds g tables data after := by
  have hle : g.log2PageSize + g.log2PteCount * level ≤ 64 :=
    (Nat.add_le_add_left (Nat.mul_le_mul_left _ hlevel) _).trans hwithin
  have hseven := level_le_seven hle
  have hkey : g.tableKey cpu page level (g.shamt (level + 1)) = .ok (g.keyOf cpu page level) := by
    rw [g.tableKey_eq_ok, g.shamt_succ (by omega), Nat.mod_eq_of_lt (by omega)]
    exact ⟨hle, rfl⟩
  have hfresh : vm.freshTable g (g.keyOf cpu page level) = .ok base := by
    unfold freshTable atKey
    rw [if_pos h.fixedPlacement, h.fixedTables, hbase]
  have htouch : ∃ penalty after, touchTable g shuffle (g.keyOf cpu page level) base vm = .ok ((base, penalty), after) ∧
      Holds g tables data after := by
    unfold touchTable
    cases htouched : vm.pageTable.lookup (g.keyOf cpu page level) with
    | some old =>
        obtain rfl : base = old := Option.some.inj (hbase.symm.trans (h.touchedTables _ _ htouched))
        exact ⟨0, vm, rfl, h⟩
    | none =>
        dsimp only
        rw [if_pos h.fixedPlacement]
        exact ⟨_, _, rfl, { h with touchedTables := touch_lookup hbase h.touchedTables }⟩
  have hoffset : g.getOffset page level = .ok (g.indexBits page level % 2 ^ g.log2PteCount) := by
    have hupper : g.shamt level + g.log2PteCount ≤ 64 := by
      obtain ⟨l, rfl⟩ : ∃ l, level = l + 1 := ⟨level - 1, by omega⟩
      rw [g.shamt_succ (by omega)]
      rw [Nat.mul_succ] at hle
      omega
    unfold Geometry.getOffset
    rw [throwIf_bind (not_lt.mpr hupper)]
    rfl
  obtain ⟨penalty, after, htouch, hafter⟩ := htouch
  refine ⟨penalty, after, ?_, hafter⟩
  unfold getPtePa
  refine except_bind_eq_ok.mpr ⟨_, hkey, except_bind_eq_ok.mpr ⟨_, hfresh, except_bind_eq_ok.mpr ⟨_, htouch, ?_⟩⟩⟩
  exact except_bind_eq_ok.mpr ⟨_, hoffset, rfl⟩

/-! ## Runs -/

/-- Every page and every table that the inventory is for has its frame. -/
structure Complete (g : Geometry) (pages : List PageKey) (tables : List (TableKey × Nat))
    (data : List (PageKey × Nat)) : Prop where
  levels : 0 < g.ptLevels
  dataKeys : data.map Prod.fst = pages
  covers : Covers g pages (tables.map Prod.fst)

theorem map_fst_tableBases : (tableBases g tables).map Prod.fst = tables.map Prod.fst := by
  unfold tableBases
  rw [List.map_map]
  rfl

theorem addressOf_vaToPa {cpu page frame : Nat} (h : data.lookup (cpu, page) = some frame) :
    addressOf g tables data (.vaToPa cpu page) = frame := by
  show (data.lookup (cpu, page)).getD 0 = frame
  rw [h]
  rfl

theorem addressOf_getPtePa {cpu page level base : Nat}
    (h : (tableBases g tables).lookup (g.keyOf cpu page level) = some base) :
    addressOf g tables data (.getPtePa cpu page level) =
      g.spliceEntry base (g.indexBits page level % 2 ^ g.log2PteCount) := by
  show g.spliceEntry (((tableBases g tables).lookup (g.keyOf cpu page level)).getD 0) _ = _
  rw [h]
  rfl

/-- A table that the inventory is for has a level and an address. -/
theorem Complete.exists_base {pages : List PageKey} (h : Complete g pages tables data) {cpu page level : Nat}
    (hc : (Call.getPtePa cpu page level).Inventoried g pages) :
    0 < level ∧ level ≤ g.ptLevels ∧ ∃ base, (tableBases g tables).lookup (g.keyOf cpu page level) = some base := by
  rcases hc with ⟨hpage, hpos, hlevel⟩ | ⟨hcpu, rfl, rfl⟩
  · refine ⟨hpos, hlevel, exists_lookup ?_⟩
    rw [map_fst_tableBases]
    exact h.covers.level _ hpage level hpos hlevel
  · refine ⟨h.levels, le_rfl, exists_lookup ?_⟩
    rw [map_fst_tableBases]
    exact h.covers.root cpu hcpu

theorem call_spec {pages : List PageKey} (hcomplete : Complete g pages tables data) {vm : VirtualMemory}
    (h : Holds g tables data vm) {c : Call} (hc : c.Inventoried g pages) :
    ∃ after, call g shuffle c vm = .ok (addressOf g tables data c, after) ∧ Holds g tables data after := by
  cases c with
  | vaToPa cpu page =>
      obtain ⟨frame, hframe⟩ : ∃ frame, data.lookup (cpu, page) = some frame := by
        refine exists_lookup ?_
        rw [hcomplete.dataKeys]
        exact hc
      obtain ⟨penalty, after, hok, hafter⟩ := vaToPa_spec shuffle h hframe
      refine ⟨after, ?_, hafter⟩
      rw [addressOf_vaToPa hframe]
      exact except_bind_eq_ok.mpr ⟨_, hok, rfl⟩
  | getPtePa cpu page level =>
      obtain ⟨hpos, hlevel, base, hbase⟩ := hcomplete.exists_base hc
      obtain ⟨penalty, after, hok, hafter⟩ :=
        getPtePa_spec shuffle hcomplete.covers.within h hpos hlevel hbase
      refine ⟨after, ?_, hafter⟩
      rw [addressOf_getPtePa hbase]
      exact except_bind_eq_ok.mpr ⟨_, hok, rfl⟩

/-- Calls in any order give what the placement says. -/
theorem calls_spec {pages : List PageKey} (hcomplete : Complete g pages tables data) {vm : VirtualMemory}
    (h : Holds g tables data vm) {cs : List Call} (hcs : ∀ c ∈ cs, c.Inventoried g pages) :
    ∃ after, calls g shuffle cs vm = .ok (cs.map (addressOf g tables data), after) ∧ Holds g tables data after := by
  induction cs generalizing vm with
  | nil => exact ⟨vm, rfl, h⟩
  | cons c cs ih =>
      obtain ⟨mid, hcall, hmid⟩ := call_spec shuffle hcomplete h (hcs c List.mem_cons_self)
      obtain ⟨after, hcalls, hafter⟩ := ih hmid fun c' hc' => hcs c' (List.mem_cons_of_mem _ hc')
      exact ⟨after, except_bind_eq_ok.mpr ⟨_, hcall, except_bind_eq_ok.mpr ⟨_, hcalls, rfl⟩⟩, hafter⟩

/-- The frame behind a table's address. -/
theorem exists_frame {key : TableKey} {base : Nat} (h : (tableBases g tables).lookup key = some base) :
    ∃ frame, (key, frame) ∈ tables ∧ base = g.pageAddress frame := by
  obtain ⟨e, he, heq⟩ := List.mem_map.mp (mem_of_lookup h)
  obtain ⟨rfl, rfl⟩ := Prod.mk.inj heq
  exact ⟨e.2, he, rfl⟩

/-- Two entries at one address are entries of one table at one index. -/
theorem entry_injective (hbytes : g.tableBytes = g.pageSize) (hframes : (tables.map Prod.snd).Nodup)
    {pages : List PageKey} (hcomplete : Complete g pages tables data) {cpu page level cpu' page' level' : Nat}
    (hc : (Call.getPtePa cpu page level).Inventoried g pages)
    (hc' : (Call.getPtePa cpu' page' level').Inventoried g pages)
    (heq : addressOf g tables data (.getPtePa cpu page level) =
      addressOf g tables data (.getPtePa cpu' page' level')) :
    cpu = cpu' ∧ level = level' ∧ g.indexBits page level = g.indexBits page' level' := by
  have hseven := level_le_seven hcomplete.covers.within
  have htable {cpu page level : Nat} (hc : (Call.getPtePa cpu page level).Inventoried g pages) :
      0 < level ∧ level ≤ g.ptLevels ∧ ∃ frame, (g.keyOf cpu page level, frame) ∈ tables ∧
        addressOf g tables data (.getPtePa cpu page level) =
          g.spliceEntry (g.pageAddress frame) (g.indexBits page level % 2 ^ g.log2PteCount) := by
    obtain ⟨hpos, hlevel, base, hbase⟩ := hcomplete.exists_base hc
    obtain ⟨frame, hmem, rfl⟩ := exists_frame hbase
    exact ⟨hpos, hlevel, frame, hmem, addressOf_getPtePa hbase⟩
  obtain ⟨hpos, hlevel, frame, hmem, haddress⟩ := htable hc
  obtain ⟨-, -, frame', hmem', haddress'⟩ := htable hc'
  rw [haddress, haddress'] at heq
  obtain ⟨rfl, hindex⟩ := g.spliceEntry_injective hbytes heq
  rw [Nat.mod_mod, Nat.mod_mod] at hindex
  have hkey := congrArg Prod.fst (List.inj_on_of_nodup_map hframes hmem hmem' rfl)
  obtain ⟨rfl, hrest⟩ := Prod.mk.inj hkey
  obtain ⟨rfl, hupper⟩ := Prod.mk.inj hrest
  refine ⟨rfl, rfl, ?_⟩
  rw [← g.indexBits_div hpos (hlevel.trans hseven), ← g.indexBits_div hpos (hlevel.trans hseven)] at hupper
  rw [← Nat.mod_add_div (g.indexBits page level) (2 ^ g.log2PteCount), hindex, hupper, Nat.mod_add_div]

/-! ## The round trip -/

/-- A frontend that is given what was written. -/
theorem construct_eq (hinv : inv.Valid g) (hlevels : 0 < g.ptLevels) (hplaced : Placed g inv tables data) :
    ∃ loaded, construct g shuffle (some (placementText g inv.capacity tables data)) = .ok loaded ∧
      Holds g tables data loaded := by
  have hdram : 2 ^ 20 < g.dramSize := lt_of_lt_of_le hinv.capacity_gt hinv.capacity_le
  have hsome : 0 < data.length := by
    rw [← List.length_map Prod.fst, hplaced.dataKeys]
    exact List.length_pos_iff.mpr hinv.pages_ne
  have hcount : g.frameCount g.dramSize ≠ 0 := by
    have hle : g.frameCount inv.capacity ≤ g.frameCount g.dramSize :=
      Nat.div_le_div_right (Nat.sub_le_sub_right hinv.capacity_le _)
    have hfits := hplaced.count
    omega
  have hpopulate : populatePages g {} =
      .ok { ppageFreeList := List.range' g.firstFrame (g.frameCount g.dramSize) } := by
    unfold populatePages
    rw [throwIf_bind (not_le.mpr hdram)]
    dsimp only
    rw [if_pos rfl, throwIf_bind hcount]
    rfl
  obtain ⟨frames, hshuffled⟩ : ∃ frames,
      shufflePages g shuffle { ppageFreeList := List.range' g.firstFrame (g.frameCount g.dramSize) } =
        { ppageFreeList := frames } := by
    unfold shufflePages
    cases g.randomizationSeed with
    | none => exact ⟨_, rfl⟩
    | some seed => exact ⟨_, rfl⟩
  have hload : loadPlacement g (placementText g inv.capacity tables data) { ppageFreeList := frames } =
      .ok { fixedData := data, fixedTables := tableBases g tables, placementBytes := inv.capacity,
            fixedPlacement := true } := loadPlacement_eq hinv hlevels hplaced rfl rfl
  refine ⟨{ fixedData := data, fixedTables := tableBases g tables, placementBytes := inv.capacity,
            fixedPlacement := true }, except_bind_eq_ok.mpr ⟨_, hpopulate, ?_⟩, ?_⟩
  · dsimp only
    rw [hshuffled]
    exact hload
  · exact {
      fixedPlacement := rfl
      fixedTables := rfl
      fixedData := rfl
      touchedPages := fun _ _ h => absurd h (Option.some_ne_none _).symm
      touchedTables := fun _ _ h => absurd h (Option.some_ne_none _).symm }

/-- What a prepared placement is worth: the loader takes it and holds the written maps, whose frames are distinct and
within the capacity; every sequence of calls for pages of the inventory succeeds, each call with the one address that
`address` gives it; and entries of page tables share an address only when they are the same. -/
theorem placement_roundTrip (hlevels : 0 < g.ptLevels) (hshuffle : ∀ seed frames, (shuffle seed frames).Perm frames)
    {inventory text : List Char} {written : Bool} {vm after : VirtualMemory}
    (h : preparePlacement g shuffle inventory written vm = .ok (text, after)) :
    ∃ inv tables data loaded, readInventory g inventory = .ok inv ∧ Placed g inv tables data ∧
      text = placementText g inv.capacity tables data ∧ construct g shuffle (some text) = .ok loaded ∧
      loaded.fixedTables = tableBases g tables ∧ loaded.fixedData = data ∧
      ∃ address : Call → Nat,
        (∀ cs : List Call, (∀ c ∈ cs, c.Inventoried g inv.pages) →
          ∃ last, calls g shuffle cs loaded = .ok (cs.map address, last)) ∧
        ∀ cpu page level cpu' page' level', (Call.getPtePa cpu page level).Inventoried g inv.pages →
          (Call.getPtePa cpu' page' level').Inventoried g inv.pages →
          address (.getPtePa cpu page level) = address (.getPtePa cpu' page' level') →
          cpu = cpu' ∧ level = level' ∧ g.indexBits page level = g.indexBits page' level' := by
  obtain ⟨inv, tables, data, hread, hplaced, rfl⟩ := preparePlacement_spec hshuffle h
  have hinv := readInventory_valid hread
  obtain ⟨loaded, hloaded, hholds⟩ := construct_eq shuffle hinv hlevels hplaced
  have hcomplete : Complete g inv.pages tables data :=
    ⟨hlevels, hplaced.dataKeys, (tablesOf_spec hinv.pages hinv.pages_ne hlevels hplaced.tableKeys).2⟩
  have hframes : (tables.map Prod.snd).Nodup := (List.nodup_append.mp hplaced.frames.nodup).1
  refine ⟨inv, tables, data, loaded, hread, hplaced, rfl, hloaded, hholds.fixedTables, hholds.fixedData,
    addressOf g tables data, fun cs hcs => ?_, fun _ _ _ _ _ _ hc hc' heq => ?_⟩
  · obtain ⟨last, hlast, -⟩ := calls_spec shuffle hcomplete hholds hcs
    exact ⟨last, hlast⟩
  · exact entry_injective hinv.tableBytes hframes hcomplete hc hc' heq

/-- Frontends with one core, pages of 4 KiB and three frames beyond the first mebibyte. -/
def smallFrontend (ptLevels : Nat) (h : ptLevels < 2 ^ 64) : Geometry where
  numCpus := 1
  log2PageSize := 12
  log2PteCount := 9
  ptLevels := ptLevels
  dramSize := 2 ^ 20 + 3 * 4096
  randomizationSeed := some 7
  minorFaultPenalty := 200
  numCpus_lt := by decide
  log2PageSize_lt := by decide
  log2PteCount_ge := by decide
  log2PteCount_le := by decide
  ptLevels_lt := h
  dramSize_lt := by decide
  seed_lt := fun _ h => Option.some.inj h ▸ by decide

/-- One page of the first core. -/
def onePage : List Char := "CHAMPSIM_PAGES_V1 1 4096 1060864\n0 5\n".toList

theorem placement_roundTrip_onePage :
    let g := smallFrontend 2 (by decide)
    ∃ text after, preparePlacement g (fun _ frames => frames.reverse) onePage true {} = .ok (text, after) ∧
      ∃ inv tables data loaded, readInventory g onePage = .ok inv ∧ Placed g inv tables data ∧
        text = placementText g inv.capacity tables data ∧
        construct g (fun _ frames => frames.reverse) (some text) = .ok loaded ∧
        loaded.fixedTables = tableBases g tables ∧ loaded.fixedData = data ∧
        ∃ address : Call → Nat,
          (∀ cs : List Call, (∀ c ∈ cs, c.Inventoried g inv.pages) →
            ∃ last, calls g (fun _ frames => frames.reverse) cs loaded = .ok (cs.map address, last)) ∧
          ∀ cpu page level cpu' page' level', (Call.getPtePa cpu page level).Inventoried g inv.pages →
            (Call.getPtePa cpu' page' level').Inventoried g inv.pages →
            address (.getPtePa cpu page level) = address (.getPtePa cpu' page' level') →
            cpu = cpu' ∧ level = level' ∧ g.indexBits page level = g.indexBits page' level' := by
  intro g
  have hok : (preparePlacement g (fun _ frames => frames.reverse) onePage true {}).isOk = true := by decide +kernel
  cases hprepare : preparePlacement g (fun _ frames => frames.reverse) onePage true {} with
  | error e =>
      rw [hprepare] at hok
      cases hok
  | ok r =>
      exact ⟨r.1, r.2, rfl, placement_roundTrip _ (by decide) (fun _ _ => List.reverse_perm _) hprepare⟩

/-- Without levels a root is written at level 0, which the loader takes for no level. -/
theorem noLevels_refused :
    let g := smallFrontend 0 (by decide)
    let text := ("CHAMPSIM_PLACEMENT_V1 1 4096 4096 0 1060864 7 1 1\n" ++ "P 0 0 0 1056768\nD 0 5 257\n").toList
    (preparePlacement g (fun _ frames => frames.reverse) onePage true {}).map Prod.fst = .ok text ∧
      (construct g (fun _ frames => frames.reverse) (some text)).map (fun _ => ()) =
        .error "invalid placement page table" := by
  decide +kernel

end VirtualMemory

end Ramulator.ChampSim
