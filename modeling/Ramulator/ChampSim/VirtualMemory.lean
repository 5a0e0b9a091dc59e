/-
# Ramulator.ChampSim.VirtualMemory — pages and page tables of the ChampSim frontend, with a fixed placement.

`VirtualMemory` (`integrations/champsim/source/src/vmem.cc`) maps virtual pages and page tables to frames at first
touch. A run can instead be given a placement. `preparePlacement` reads the pages that a workload touches, and writes
a file with a frame for each of them and for each page table that a walk to them needs; `loadPlacement` reads that
file into maps that decide every first touch after it.

A slice of an address is a number: the bits of a page number stand from `log2PageSize` up, those of a page table's
key from the lowest bit of the level above it. Shifts by a level are computed in 64 bits. What an assertion or an
exception stops is an error with its text.
-/
import Ramulator.Lib.Dict
import Ramulator.Lib.TextStream
import Ramulator.Lib.Fallible
import Mathlib.Data.List.Sort

namespace Ramulator.ChampSim

open Ramulator.Lib
open TextStream (extractWord extractChar extractUnsigned eachRecord)

/-- What the build and the constructor fix. A frontend that breaks one of the bounds is stopped by an assertion of
the constructor, or has no such type. -/
structure Geometry where
  numCpus : Nat
  log2PageSize : Nat
  /-- `lg2(pte_page_size.count())`, an entry being of 8 bytes. -/
  log2PteCount : Nat
  ptLevels : Nat
  /-- `dram.size()`. -/
  dramSize : Nat
  randomizationSeed : Option Nat
  minorFaultPenalty : Nat
  numCpus_lt : numCpus < 2 ^ 32
  log2PageSize_lt : log2PageSize < 32
  log2PteCount_ge : 8 ≤ log2PteCount
  log2PteCount_le : log2PteCount + 3 ≤ log2PageSize
  ptLevels_lt : ptLevels < 2 ^ 64
  dramSize_lt : dramSize < 2 ^ 63
  seed_lt : ∀ seed ∈ randomizationSeed, seed < 2 ^ 64

/-- A core and a virtual page number. -/
abbrev PageKey := Nat × Nat

/-- A core, a level, and the bits of an address above what the table indexes. -/
abbrev TableKey := Nat × Nat × Nat

/-- The order of `std::pair`. -/
def PageKey.le (a b : PageKey) : Prop := a.1 < b.1 ∨ (a.1 = b.1 ∧ a.2 ≤ b.2)

/-- The order of `std::tuple`. -/
def TableKey.le (a b : TableKey) : Prop :=
  a.1 < b.1 ∨ (a.1 = b.1 ∧ (a.2.1 < b.2.1 ∨ (a.2.1 = b.2.1 ∧ a.2.2 ≤ b.2.2)))

instance : DecidableRel PageKey.le := fun a b => inferInstanceAs (Decidable (a.1 < b.1 ∨ (a.1 = b.1 ∧ a.2 ≤ b.2)))

instance : DecidableRel TableKey.le := fun a b =>
  inferInstanceAs (Decidable (a.1 < b.1 ∨ (a.1 = b.1 ∧ (a.2.1 < b.2.1 ∨ (a.2.1 = b.2.1 ∧ a.2.2 ≤ b.2.2)))))

/-- `emplace` of an ordered set: the set, and whether it grew. -/
def emplace {α : Type} [DecidableEq α] (le : α → α → Prop) [DecidableRel le] (x : α) (xs : List α) : List α × Bool :=
  if x ∈ xs then (xs, false) else (xs.orderedInsert le x, true)

/-- `at` of a map. -/
def atKey {κ α : Type} [BEq κ] (d : Dict κ α) (k : κ) : Except String α :=
  match d.lookup k with
  | some v => .ok v
  | none => .error "map::at"

namespace Geometry

variable (g : Geometry)

def pageSize : Nat := 2 ^ g.log2PageSize

/-- The bytes of a page table, `pte_page_size.count() * pte_entry::byte_multiple`. -/
def tableBytes : Nat := 2 ^ g.log2PteCount * 8

/-- How many frames a capacity has beyond the first mebibyte. -/
def frameCount (capacity : Nat) : Nat := (capacity - 2 ^ 20) / g.pageSize

def firstFrame : Nat := max g.pageSize (2 ^ 20) / g.pageSize

/-- `randomization_seed.value_or(0)`. -/
def seed : Nat := g.randomizationSeed.getD 0

/-- The lowest bit that a level indexes. -/
def shamt (level : Nat) : Nat := (g.log2PageSize + g.log2PteCount * ((level + (2 ^ 64 - 1)) % 2 ^ 64)) % 2 ^ 64

/-- The extent from a bit upward, of a number that is an address. -/
def upperSlice (lower addr : Nat) : Except String Nat := do
  throwIf (64 < lower) "upper >= lower"
  pure (addr / 2 ^ lower)

/-- The same extent, of a number that is a slice already. -/
def upperValue (lower value : Nat) : Except String Nat := do
  throwIf (64 < lower) "upper >= lower"
  pure (value % 2 ^ (64 - lower))

/-- The page number that a number is. -/
def pageNumber (n : Nat) : Nat := n % 2 ^ (64 - g.log2PageSize)

/-- The address at which a page begins. -/
def pageAddress (page : Nat) : Nat := page * 2 ^ g.log2PageSize

/-- The key of the page table of a page at a level: what the level above indexes begins at `lower`. -/
def tableKey (core page level lower : Nat) : Except String TableKey := do
  let bits ← upperSlice lower (g.pageAddress page)
  pure (core, level % 2 ^ 32, bits)

/-- `get_offset`: the index into the page table of a level. -/
def getOffset (page level : Nat) : Except String Nat := do
  throwIf (64 < g.shamt level + g.log2PteCount) "Upper bound is not representable in the underlying type"
  pure (g.pageAddress page / 2 ^ g.shamt level % 2 ^ g.log2PteCount)

/-- `splice` of an address with an entry's place in a page table. -/
def spliceEntry (base offset : Nat) : Nat :=
  base / 2 ^ (3 + g.log2PteCount) * 2 ^ (3 + g.log2PteCount) + offset % 2 ^ g.log2PteCount * 2 ^ 3 + base % 2 ^ 3

end Geometry

/-- The members that a run changes. -/
structure VirtualMemory where
  vpageToPpageMap : Dict PageKey Nat := []
  pageTable : Dict TableKey Nat := []
  fixedData : Dict PageKey Nat := []
  fixedTables : Dict TableKey Nat := []
  placementBytes : Nat := 0
  fixedPlacement : Bool := false
  ppageFreeList : List Nat := []
  activePtePage : Nat := 0
  nextPtePage : Nat := 0

namespace VirtualMemory

-- `std::shuffle` with the generator of a seed is a parameter
variable (g : Geometry) (shuffle : Nat → List Nat → List Nat)

def populatePages (vm : VirtualMemory) : Except String VirtualMemory := do
  throwIf (g.dramSize ≤ 2 ^ 20) "dram.size() > 1_MiB"
  let capacity := if vm.placementBytes = 0 then g.dramSize else vm.placementBytes
  throwIf (g.frameCount capacity = 0) "ppage_free_list.size() != 0"
  pure { vm with ppageFreeList := List.range' g.firstFrame (g.frameCount capacity) }

def shufflePages (vm : VirtualMemory) : VirtualMemory :=
  match g.randomizationSeed with
  | some seed => { vm with ppageFreeList := shuffle seed vm.ppageFreeList }
  | none => vm

def availablePpages (vm : VirtualMemory) : Nat := vm.ppageFreeList.length

def ppageFront (vm : VirtualMemory) : Except String Nat :=
  match vm.ppageFreeList with
  | page :: _ => .ok page
  | [] =>
      if vm.placementBytes ≠ 0 then .error "placement exceeds physical memory capacity"
      else .error "available_ppages() > 0"

def ppagePop (vm : VirtualMemory) : Except String VirtualMemory := do
  let vm := { vm with ppageFreeList := vm.ppageFreeList.tail }
  if vm.availablePpages = 0 ∧ vm.placementBytes = 0 then do
    let vm ← vm.populatePages g
    pure (vm.shufflePages g shuffle)
  else pure vm

/-- The frame that a first touch of a page would take. -/
def freshPage (key : PageKey) (vm : VirtualMemory) : Except String Nat :=
  if vm.fixedPlacement then atKey vm.fixedData key else vm.ppageFront

/-- `try_emplace` of a page, and what follows a first touch: the frame, and the penalty. -/
def touchPage (key : PageKey) (fresh : Nat) (vm : VirtualMemory) : Except String ((Nat × Nat) × VirtualMemory) :=
  match vm.vpageToPpageMap.lookup key with
  | some ppage => .ok ((ppage, 0), vm)
  | none =>
      let touched := { vm with vpageToPpageMap := vm.vpageToPpageMap ++ [(key, fresh)] }
      if vm.fixedPlacement then .ok ((fresh, g.minorFaultPenalty), touched)
      else (touched.ppagePop g shuffle).map fun after => ((fresh, g.minorFaultPenalty), after)

/-- `va_to_pa`: the frame of a page, and the penalty of a first touch. -/
def vaToPa (cpu page : Nat) (vm : VirtualMemory) : Except String ((Nat × Nat) × VirtualMemory) := do
  let fresh ← vm.freshPage (cpu, page)
  vm.touchPage g shuffle (cpu, page) fresh

/-- The place that a first touch of a page table would take. Without a placement tables share the active frame. -/
def freshTable (key : TableKey) (vm : VirtualMemory) : Except String Nat :=
  if vm.fixedPlacement then atKey vm.fixedTables key
  else .ok (g.pageAddress vm.activePtePage + vm.nextPtePage * 2 ^ (g.log2PteCount + 3))

/-- What a first touch of a page table without a placement leaves. -/
def advanceTable (vm : VirtualMemory) : Except String VirtualMemory := do
  let vm := { vm with nextPtePage := (vm.nextPtePage + 1) % 2 ^ (g.log2PageSize - (g.log2PteCount + 3)) }
  if vm.nextPtePage = 0 then do
    let front ← vm.ppageFront
    { vm with activePtePage := front }.ppagePop g shuffle
  else pure vm

/-- `try_emplace` of a page table, and what follows a first touch: its address, and the penalty. -/
def touchTable (key : TableKey) (fresh : Nat) (vm : VirtualMemory) : Except String ((Nat × Nat) × VirtualMemory) :=
  match vm.pageTable.lookup key with
  | some base => .ok ((base, 0), vm)
  | none =>
      let touched := { vm with pageTable := vm.pageTable ++ [(key, fresh)] }
      if vm.fixedPlacement then .ok ((fresh, g.minorFaultPenalty), touched)
      else (touched.advanceTable g shuffle).map fun after => ((fresh, g.minorFaultPenalty), after)

/-- `get_pte_pa`: the address of a page table entry, and the penalty of a first touch of its table. -/
def getPtePa (cpu page level : Nat) (vm : VirtualMemory) : Except String ((Nat × Nat) × VirtualMemory) := do
  let key ← g.tableKey cpu page level (g.shamt (level + 1))
  let fresh ← vm.freshTable g key
  let ((base, penalty), vm) ← vm.touchTable g shuffle key fresh
  let offset ← g.getOffset page level
  pure ((g.spliceEntry base offset, penalty), vm)

/-! ## Writing a placement -/

/-- The pages of an inventory, and the capacity that it asks for. -/
structure Inventory where
  capacity : Nat
  pages : List PageKey

/-- One page of an inventory. -/
def addPage (cores : Nat) (pages : List PageKey) (record : Nat × Nat) : Except String (List PageKey) := do
  let message := "duplicate or invalid inventory page"
  throwIf (cores ≤ record.1 ∨ 2 ^ (64 - g.log2PageSize) ≤ record.2) message
  let (pages, grew) := emplace PageKey.le (record.1, g.pageNumber record.2) pages
  throwIf (grew = false) message
  pure pages

/-- `in >> cpu >> vpn`. -/
def extractPage : Extract (Nat × Nat) := do
  let cpu ← extractUnsigned 32
  let vpn ← extractUnsigned 64
  pure (cpu, vpn)

/-- `in >> magic >> cores >> page_bytes >> capacity`. -/
def extractInventoryHeader : Extract (List Char × Nat × Nat × Nat) := do
  let magic ← extractWord
  let cores ← extractUnsigned 64
  let pageBytes ← extractUnsigned 64
  let capacity ← extractUnsigned 64
  pure (magic, cores, pageBytes, capacity)

/-- The first part of `prepare_placement`, which reads the inventory. -/
def readInventory (text : List Char) : Except String Inventory :=
  match extractInventoryHeader (.ofText text) with
  | .error _ => .error "placement inventory geometry does not match this frontend"
  | .ok ((magic, cores, pageBytes, capacity), s) => do
      throwIf (magic ≠ "CHAMPSIM_PAGES_V1".toList ∨ cores ≠ g.numCpus ∨ pageBytes ≠ g.pageSize ∨ capacity ≤ 2 ^ 20 ∨
          g.dramSize < capacity ∨ capacity % g.pageSize ≠ 0 ∨ g.tableBytes ≠ g.pageSize)
        "placement inventory geometry does not match this frontend"
      let (pages, s) ← eachRecord extractPage (addPage g cores) (s.rest.length + 1) [] s
      throwIf (s.eof = false ∨ pages = []) "invalid or empty placement inventory"
      pure ⟨capacity, pages⟩

/-- `add_table`. The level is a `uint32_t`, and so is the next one. -/
def addTable (core page level : Nat) (tables : List TableKey) : Except String (List TableKey) := do
  let key ← g.tableKey core page level (g.shamt ((level + 1) % 2 ^ 32))
  pure (emplace TableKey.le key tables).1

/-- The page tables of one page, level by level. -/
def addTables (tables : List TableKey) (page : PageKey) : Except String (List TableKey) :=
  (List.range' 1 g.ptLevels).foldlM (fun tables level => addTable g page.1 page.2 level tables) tables

/-- The page tables that walks to the pages need, the root of every core among them. -/
def tablesOf (pages : List PageKey) : Except String (List TableKey) := do
  let roots ← (List.range g.numCpus).foldlM (fun tables core => addTable g core 0 (g.ptLevels % 2 ^ 32) tables) []
  pages.foldlM (addTables g) roots

/-- What is written in decimal. -/
def decimal (n : Nat) : List Char := Nat.toDigits 10 n

def headerText (capacity data tables : Nat) : List Char :=
  "CHAMPSIM_PLACEMENT_V1 ".toList ++ decimal g.numCpus ++ ' ' :: decimal g.pageSize ++ ' ' :: decimal g.tableBytes ++
    ' ' :: decimal g.ptLevels ++ ' ' :: decimal capacity ++ ' ' :: decimal g.seed ++ ' ' :: decimal data ++
    ' ' :: decimal tables ++ ['\n']

/-- The line of a page table and its frame, which stands there as an address. -/
def tableLine (key : TableKey) (frame : Nat) : List Char :=
  "P ".toList ++ decimal key.1 ++ ' ' :: decimal key.2.1 ++ ' ' :: decimal key.2.2 ++
    ' ' :: decimal (g.pageAddress frame % 2 ^ 64) ++ ['\n']

/-- The line of a page and its frame. -/
def dataLine (key : PageKey) (frame : Nat) : List Char :=
  "D ".toList ++ decimal key.1 ++ ' ' :: decimal key.2 ++ ' ' :: decimal frame ++ ['\n']

/-- A line for each key, with the next free frame. -/
def writeLines {κ : Type} (line : κ → Nat → List Char) :
    List κ → VirtualMemory → Except String (List Char × VirtualMemory)
  | [], vm => .ok ([], vm)
  | key :: keys, vm => do
      let frame ← vm.ppageFront
      let vm ← vm.ppagePop g shuffle
      let (text, vm) ← writeLines line keys vm
      pure (line key frame ++ text, vm)

/-- `prepare_placement`: the file, and the state that is left. `written` is what closing the file tells. -/
def preparePlacement (inventory : List Char) (written : Bool) (vm : VirtualMemory) :
    Except String (List Char × VirtualMemory) := do
  throwIf (vm.fixedPlacement = true) "cannot prepare a map from an already fixed placement"
  let inv ← readInventory g inventory
  let tables ← tablesOf g inv.pages
  let vm ← { vm with placementBytes := inv.capacity }.populatePages g
  let vm := vm.shufflePages g shuffle
  throwIf (vm.availablePpages < tables.length + inv.pages.length)
    "data and page tables exceed physical memory capacity"
  let (tableText, vm) ← writeLines g shuffle (tableLine g) tables vm
  let (dataText, vm) ← writeLines g shuffle dataLine inv.pages vm
  throwIf (written = false) "failed to write placement"
  pure (headerText g inv.capacity inv.pages.length tables.length ++ tableText ++ dataText, vm)

/-! ## Reading a placement -/

/-- What the header of a placement says. -/
structure Header where
  magic : List Char
  cores : Nat
  pageBytes : Nat
  tableBytes : Nat
  levels : Nat
  capacity : Nat
  seed : Nat
  dataCount : Nat
  tableCount : Nat

/-- A header that does not match this frontend. -/
def Header.refused (h : Header) : Bool :=
  decide (h.magic ≠ "CHAMPSIM_PLACEMENT_V1".toList ∨ h.cores ≠ g.numCpus ∨ h.pageBytes ≠ g.pageSize ∨
    h.tableBytes ≠ g.tableBytes ∨ h.tableBytes ≠ g.pageSize ∨ h.levels ≠ g.ptLevels ∨ h.seed ≠ g.seed ∨
    h.capacity ≤ 2 ^ 20 ∨ g.dramSize < h.capacity ∨ h.capacity % g.pageSize ≠ 0 ∨ h.dataCount = 0 ∨
    h.tableCount = 0 ∨ g.frameCount h.capacity < (h.dataCount + h.tableCount) % 2 ^ 64)

def extractHeader : Extract Header := do
  let magic ← extractWord
  let cores ← extractUnsigned 64
  let pageBytes ← extractUnsigned 64
  let tableBytes ← extractUnsigned 64
  let levels ← extractUnsigned 64
  let capacity ← extractUnsigned 64
  let seed ← extractUnsigned 64
  let dataCount ← extractUnsigned 64
  let tableCount ← extractUnsigned 64
  pure ⟨magic, cores, pageBytes, tableBytes, levels, capacity, seed, dataCount, tableCount⟩

/-- `in >> kind >> cpu >> level >> prefix >> base`. -/
def extractTable : Extract (Char × Nat × Nat × Nat × Nat) := do
  let kind ← extractChar
  let cpu ← extractUnsigned 32
  let level ← extractUnsigned 32
  let bits ← extractUnsigned 64
  let base ← extractUnsigned 64
  pure (kind, cpu, level, bits, base)

/-- `in >> kind >> cpu >> vpn >> ppn`. -/
def extractData : Extract (Char × Nat × Nat × Nat) := do
  let kind ← extractChar
  let cpu ← extractUnsigned 32
  let vpn ← extractUnsigned 64
  let ppn ← extractUnsigned 64
  pure (kind, cpu, vpn, ppn)

/-- The loops over the records: the stream, the frames that were seen, and a map that grows. -/
structure Loading (κ : Type) where
  stream : TextStream
  frames : List Nat
  fixed : Dict κ Nat

/-- `check_frame`. -/
def checkFrame (capacity frame : Nat) (frames : List Nat) : Except String (List Nat) := do
  throwIf (frame < 2 ^ 20 / g.pageSize ∨ capacity / g.pageSize ≤ frame ∨ frame ∈ frames)
    "placement has an aliased or out-of-range frame"
  pure (frame :: frames)

/-- `emplace` of a map whose key must be new. -/
def emplaceNew {κ : Type} [BEq κ] (d : Dict κ Nat) (k : κ) (v : Nat) (message : String) :
    Except String (Dict κ Nat) := do
  throwIf ((d.lookup k).isSome = true) message
  pure (d ++ [(k, v)])

def loadTable (h : Header) (l : Loading TableKey) : Except String (Loading TableKey) :=
  match extractTable l.stream with
  | .error _ => .error "invalid placement page table"
  | .ok ((kind, cpu, level, bits, base), stream) => do
      throwIf (kind ≠ 'P' ∨ h.cores ≤ cpu ∨ level = 0 ∨ g.ptLevels < level ∨ base % g.pageSize ≠ 0)
        "invalid placement page table"
      let slice ← Geometry.upperValue (g.shamt ((level + 1) % 2 ^ 32)) bits
      throwIf (slice ≠ bits) "duplicate or invalid page-table key"
      let fixed ← emplaceNew l.fixed (cpu, level, slice) base "duplicate or invalid page-table key"
      let frames ← checkFrame g h.capacity (base / g.pageSize) l.frames
      pure ⟨stream, frames, fixed⟩

def loadData (h : Header) (l : Loading PageKey) : Except String (Loading PageKey) :=
  match extractData l.stream with
  | .error _ => .error "invalid placement data page"
  | .ok ((kind, cpu, vpn, ppn), stream) => do
      throwIf (kind ≠ 'D' ∨ h.cores ≤ cpu ∨ 2 ^ (64 - g.log2PageSize) ≤ vpn) "invalid placement data page"
      let fixed ← emplaceNew l.fixed (cpu, g.pageNumber vpn) (g.pageNumber ppn) "invalid placement data page"
      let frames ← checkFrame g h.capacity ppn l.frames
      pure ⟨stream, frames, fixed⟩

/-- A step as often as a count says. -/
def times {σ : Type} (step : σ → Except String σ) : Nat → σ → Except String σ
  | 0, s => .ok s
  | n + 1, s => step s >>= times step n

/-- `load_placement`. -/
def loadPlacement (text : List Char) (vm : VirtualMemory) : Except String VirtualMemory :=
  match extractHeader (.ofText text) with
  | .error _ => .error "placement header does not match this frontend"
  | .ok (h, stream) => do
      throwIf (h.refused g = true) "placement header does not match this frontend"
      let tables ← times (loadTable g h) h.tableCount ⟨stream, [], vm.fixedTables⟩
      let data ← times (loadData g h) h.dataCount ⟨tables.stream, tables.frames, vm.fixedData⟩
      throwIf ((extractWord data.stream).isOk = true) "unexpected trailing placement records"
      pure { vm with
        fixedTables := tables.fixed
        fixedData := data.fixed
        vpageToPpageMap := []
        pageTable := []
        placementBytes := h.capacity
        fixedPlacement := true
        ppageFreeList := [] }

/-- The constructor, with the file that the environment names. -/
def construct (placement : Option (List Char)) : Except String VirtualMemory := do
  let vm ← populatePages g {}
  let vm := vm.shufflePages g shuffle
  match placement with
  | some text => vm.loadPlacement g text
  | none => pure vm

/-! ## Runs -/

/-- A call of a run. -/
inductive Call where
  | vaToPa (cpu page : Nat)
  | getPtePa (cpu page level : Nat)
  deriving DecidableEq, Repr

/-- The address that a call gives, and the state after it. -/
def call : Call → VirtualMemory → Except String (Nat × VirtualMemory)
  | .vaToPa cpu page, vm => do
      let (r, vm) ← vaToPa g shuffle cpu page vm
      pure (r.1, vm)
  | .getPtePa cpu page level, vm => do
      let (r, vm) ← getPtePa g shuffle cpu page level vm
      pure (r.1, vm)

/-- The calls of a run, with the address that each gives. -/
def calls : List Call → VirtualMemory → Except String (List Nat × VirtualMemory)
  | [], vm => .ok ([], vm)
  | c :: cs, vm => do
      let (address, vm) ← call g shuffle c vm
      let (addresses, vm) ← calls cs vm
      pure (address :: addresses, vm)

end VirtualMemory

end Ramulator.ChampSim
