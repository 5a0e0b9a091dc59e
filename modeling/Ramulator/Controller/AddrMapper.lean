/-
# Ramulator.Controller.AddrMapper — from a request's address to device coordinates.

An address mapper (`controller/addr_mapper`) fills `addr_vec`. The flat mappers decode
`intra_channel_addr`, each in its own bit order; `PassThroughAddrMapper` leaves the frontend's vector
alone; `RITAddrMapper` wraps another mapper and then moves the row: through the row indirection table,
and above the rows that a plugin reserves.

`send` applies the mapper to the caller's object before it knows whether a buffer has room, and a
rejected request comes back mapped. So the caller's next attempt maps a mapped request. The second half
of this module is about when that makes no difference.
-/
import Ramulator.Controller.Steps
import Mathlib.Data.Int.Bitwise

namespace Ramulator.Controller

open Ramulator.Base (Request)
open Ramulator.Dram Ramulator.Lib

variable {K : Type}

/-! ## Bit fields -/

/-- `calc_log2`. -/
def calcLog2 (val : Int) : Nat := val.toNat.log2

def isPowerOfTwo (val : Int) : Bool := 0 < val && val.toNat &&& (val.toNat - 1) == 0

/-- `slice_lower_bits`: the field, and the address without it. -/
def sliceLowerBits (addr : Int) (numBits : Nat) : Int × Int := (addr % 2 ^ numBits, addr >>> numBits)

/-- The conversion of an `Addr_t` to `int`. -/
def toInt32 (addr : Int) : Int := addr.bmod (2 ^ 32)

/-- `addr_vec.resize(n, -1)`. -/
def resize (n : Nat) (v : AddrVec) : AddrVec := v.take n ++ List.replicate (n - v.length) (-1)

/-! ## What the flat mappers precompute -/

/-- What a mapper reads of a DRAM specification. Row and column are the last two levels of every
standard, and the channel is the first. -/
structure Organization where
  levelNames : List String
  levelSizes : List Int
  rowLevel : Nat
  internalPrefetchSize : Int
  channelWidth : Int
  dataPayloadBytes : Int := -1
  rowLevel_pos : 0 < rowLevel
  rowLevel_eq : rowLevel + 2 = levelSizes.length

/-- `get_tx_bytes`. -/
def Organization.txBytes (org : Organization) : Int :=
  if org.dataPayloadBytes > 0 then org.dataPayloadBytes
  else org.internalPrefetchSize * org.channelWidth / 8

/-- The fields of `AddrMapperBase`: the width of each level below the channel, the offset inside a
transaction, and the index of the row. -/
structure AddrMapperBase where
  addrBits : List Nat
  txOffset : Nat
  rowIdx : Nat
  addrBits_length : addrBits.length = rowIdx + 2

namespace AddrMapperBase

/-- `m_num_mapped_levels`. -/
def numMappedLevels (b : AddrMapperBase) : Nat := b.addrBits.length

/-- `m_col_idx`. -/
def colIdx (b : AddrMapperBase) : Nat := b.numMappedLevels - 1

def bits (b : AddrMapperBase) (i : Nat) : Nat := b.addrBits.getD i 0

/-- The widths that `init` computes: the column counts bursts. -/
def initBits (org : Organization) : List Nat :=
  (org.levelSizes.tail.map calcLog2).modify org.rowLevel (· - calcLog2 org.internalPrefetchSize)

/-- `AddrMapperBase::init`. -/
def init (name : String) (org : Organization) : Except String AddrMapperBase :=
  match (org.levelNames.zip org.levelSizes).tail.find? (fun l => !isPowerOfTwo l.2) with
  | some (level, count) =>
      .error (name ++ ": " ++ level ++ " count " ++ toString count ++
        " is currently unsupported; expected a positive power of two")
  | none =>
      let prefetch := org.internalPrefetchSize
      let columnCount := org.levelSizes.getLastD 0
      if isPowerOfTwo prefetch = false then
        .error (name ++ ": internal prefetch size " ++ toString prefetch ++
          " is currently unsupported; expected a positive power of two")
      else if columnCount < prefetch ∨ columnCount % prefetch ≠ 0 then
        .error (name ++ ": Column count " ++ toString columnCount ++
          " is currently unsupported; expected a positive multiple of internal prefetch size " ++
          toString prefetch)
      else .ok
        { addrBits := initBits org
          txOffset := calcLog2 org.txBytes
          rowIdx := org.rowLevel - 1
          addrBits_length := by
            have hpos := org.rowLevel_pos
            have heq := org.rowLevel_eq
            simp only [initBits, List.length_modify, List.length_map, List.length_tail]
            omega }

/-- `MOP4CLXOR::init` asks for two column bits more. -/
def initMOP4CLXOR (org : Organization) : Except String AddrMapperBase := do
  let b ← init "MOP4CLXOR" org
  if b.bits b.colIdx < 2 then
    .error "MOP4CLXOR requires at least two post-prefetch column address bits"
  else .ok b

/-! ## The flat mappers -/

/-- The vector with room for all levels, and the address of the transaction. -/
def start (b : AddrMapperBase) (req : Request Command K) : AddrVec × Int :=
  (resize (b.numMappedLevels + 1) req.addrVec, req.intraChannelAddr >>> b.txOffset)

/-- Cut the field of level `i` off the address. -/
def cut (b : AddrMapperBase) (acc : AddrVec × Int) (i : Nat) : AddrVec × Int :=
  let (field, addr) := sliceLowerBits acc.2 (b.bits i)
  (acc.1.set (i + 1) field, addr)

/-- `RoBaRaCoCh::apply`: the column lowest, then rank to row. -/
def roBaRaCoCh (b : AddrMapperBase) (req : Request Command K) : AddrVec :=
  ((b.colIdx :: List.range (b.rowIdx + 1)).foldl b.cut (b.start req)).1

/-- `ChRaBaRoCo::apply`: the column lowest, then row up to rank. -/
def chRaBaRoCo (b : AddrMapperBase) (req : Request Command K) : AddrVec :=
  ((List.range b.numMappedLevels).reverse.foldl b.cut (b.start req)).1

/-- One round of the loop in `MOP4CLXOR::apply` that mixes column bits into level `i`. The second
component is `row_xor_index`. -/
def mix (b : AddrMapperBase) (acc : AddrVec × Nat) (i : Nat) : AddrVec × Nat :=
  if b.bits i > 0 then
    let mask := (acc.1.coord (b.colIdx + 1) >>> acc.2) % 2 ^ b.bits i
    (acc.1.set (i + 1) (Int.xor (acc.1.coord (i + 1)) mask), acc.2 + b.bits i)
  else acc

/-- `MOP4CLXOR::apply`: two column bits lowest, then the levels above the row, the rest of the column
and, unmasked, the row. -/
def mop4clxor (b : AddrMapperBase) (req : Request Command K) : AddrVec :=
  let low := sliceLowerBits (b.start req).2 2
  let fields := (List.range b.rowIdx).foldl b.cut ((b.start req).1.set (b.colIdx + 1) low.1, low.2)
  let high := sliceLowerBits fields.2 (b.bits b.colIdx - 2)
  let v := fields.1.set (b.colIdx + 1) (fields.1.coord (b.colIdx + 1) + high.1 * 2 ^ 2)
  ((List.range b.colIdx).foldl b.mix (v.set (b.rowIdx + 1) (toInt32 high.2), 0)).1

end AddrMapperBase

/-! ## The row indirection table -/

structure RITEntry where
  swappedRow : Int := -1
  locked : Bool := false
  deriving DecidableEq, Repr

/-- `RITAddrMapper` without the mapper it wraps. The table has one map per flat bank. `init` checks that
the reserved rows leave room. -/
structure RITAddrMapper where
  spec : Standard
  reservedRowsPerBank : Nat := 0
  rit : Int → List (Int × RITEntry) := fun _ => []
  initialized : Bool := false
  row_pos : 0 < spec.rowLevel
  reserved_lt : reservedRowsPerBank < spec.levelSize spec.rowLevel

namespace RITAddrMapper

/-- `RITAddrMapper::init` from the given specification and parameter. -/
def init (spec : Standard) (row_pos : 0 < spec.rowLevel) (reserved : Int) :
    Except String RITAddrMapper :=
  if reserved < 0 then .error "RITAddrMapper: reserved_rows_per_bank must be non-negative"
  else if h : reserved.toNat < spec.levelSize spec.rowLevel then
    .ok { spec := spec, reservedRowsPerBank := reserved.toNat, row_pos := row_pos, reserved_lt := h }
  else .error ("RITAddrMapper: reserved_rows_per_bank (" ++ toString reserved ++
    ") must be less than num_rows_per_bank (" ++ toString (spec.levelSize spec.rowLevel) ++ ")")

/-- The second step of `apply`: the row's place in the table. -/
def swap (t : RITAddrMapper) (v : AddrVec) : AddrVec :=
  if t.initialized then
    match (t.rit (t.spec.flatBankId v)).lookup (v.coord t.spec.rowLevel) with
    | some entry => v.set t.spec.rowLevel entry.swappedRow
    | none => v
  else v

/-- The third step: above the reserved rows. -/
def shift (t : RITAddrMapper) (v : AddrVec) : Except String AddrVec :=
  if t.reservedRowsPerBank > 0 then
    let row := v.coord t.spec.rowLevel
    let shifted := row + t.reservedRowsPerBank
    if shifted ≥ t.spec.levelSize t.spec.rowLevel then
      .error ("RITAddrMapper: workload row " ++ toString row ++ " + reserved_rows_per_bank " ++
        toString t.reservedRowsPerBank ++ " = " ++ toString shifted ++
        " exceeds num_rows_per_bank " ++ toString (t.spec.levelSize t.spec.rowLevel) ++
        ". Reduce workload row range or shrink the reserved region.")
    else .ok (v.set t.spec.rowLevel shifted)
  else .ok v

def redirect (t : RITAddrMapper) (v : AddrVec) : Except String AddrVec := t.shift (t.swap v)

end RITAddrMapper

/-! ## All mappers -/

inductive AddrMapper where
  | passThrough
  | roBaRaCoCh (b : AddrMapperBase)
  | chRaBaRoCo (b : AddrMapperBase)
  | mop4clxor (b : AddrMapperBase)
  | rit (t : RITAddrMapper) (base : AddrMapper)

namespace AddrMapper

/-- `IAddrMapper::apply`: the `addr_vec` that it leaves in the request. -/
def apply : AddrMapper → Request Command K → Except String AddrVec
  | passThrough, req => .ok req.addrVec
  | roBaRaCoCh b, req => .ok (b.roBaRaCoCh req)
  | chRaBaRoCo b, req => .ok (b.chRaBaRoCo req)
  | mop4clxor b, req => .ok (b.mop4clxor req)
  | rit t base, req => base.apply req >>= t.redirect

/-- The innermost mapper decodes the address. -/
def isFlat : AddrMapper → Bool
  | passThrough => false
  | roBaRaCoCh _ | chRaBaRoCo _ | mop4clxor _ => true
  | rit _ base => base.isFlat

end AddrMapper

/-- `ControllerBase::send` with its mapper. A request of an unsupported type is refused before the
mapper, which may throw as well, sees it. -/
def ControllerBase.sendVia (cfg : Config) (m : AddrMapper) (req : Request Command K)
    (s : ControllerBase K) : Except String (Bool × Request Command K × ControllerBase K) :=
  (if req.typeId = Request.read ∨ req.typeId = Request.write then m.apply req
    else .ok req.addrVec) >>= fun vec => s.send cfg (fun _ => vec) req

/-! ## The flat mappers overwrite the vector -/

/-- Two vectors of one length that agree on the positions in `S`. -/
structure Agree (S : Nat → Prop) (v w : AddrVec) : Prop where
  length : v.length = w.length
  getElem? : ∀ i, S i → v[i]? = w[i]?

namespace Agree

variable {S S' : Nat → Prop} {v w : AddrVec}

theorem coord (h : Agree S v w) {i : Nat} (hi : S i) : v.coord i = w.coord i := by
  unfold AddrVec.coord
  rw [List.getD_eq_getElem?_getD, List.getD_eq_getElem?_getD, h.getElem? i hi]

theorem mono (h : Agree S v w) (hsub : ∀ i, S' i → S i) : Agree S' v w :=
  ⟨h.length, fun i hi => h.getElem? i (hsub i hi)⟩

/-- A write of one value to both vectors adds its position. -/
theorem set (h : Agree S v w) (i : Nat) (x : Int) :
    Agree (fun j => j = i ∨ S j) (v.set i x) (w.set i x) := by
  refine ⟨by rw [List.length_set, List.length_set, h.length], fun j hj => ?_⟩
  rw [List.getElem?_set, List.getElem?_set, h.length]
  by_cases hij : i = j
  · rw [if_pos hij, if_pos hij]
  · rw [if_neg hij, if_neg hij]
    exact h.getElem? j (hj.resolve_left (Ne.symm hij))

/-- Vectors that agree everywhere but on the channel are one vector once it is set. -/
theorem set_zero (h : Agree S v w) (hall : ∀ i, 0 < i → i < v.length → S i) (c : Int) :
    v.set 0 c = w.set 0 c := by
  refine List.ext_getElem? fun i => ?_
  have hlen := h.length
  rw [List.getElem?_set, List.getElem?_set, hlen]
  by_cases hi : 0 = i
  · rw [if_pos hi, if_pos hi]
  · rw [if_neg hi, if_neg hi]
    by_cases hlt : i < v.length
    · exact h.getElem? i (hall i (by omega) hlt)
    · rw [List.getElem?_eq_none (Nat.le_of_not_lt hlt), List.getElem?_eq_none (by omega)]

end Agree

namespace AddrMapperBase

variable {b : AddrMapperBase} {S : Nat → Prop} {v w : AddrVec}

/-- Cutting fields off one address fills their positions alike. -/
theorem agree_foldl_cut (h : Agree S v w) (levels : List Nat) (addr : Int) :
    Agree (fun j => S j ∨ ∃ i ∈ levels, j = i + 1) (levels.foldl b.cut (v, addr)).1
        (levels.foldl b.cut (w, addr)).1 ∧
      (levels.foldl b.cut (v, addr)).2 = (levels.foldl b.cut (w, addr)).2 := by
  induction levels generalizing S v w addr with
  | nil => exact ⟨h.mono (by simp), rfl⟩
  | cons l levels ih =>
      obtain ⟨hagree, haddr⟩ := ih (h.set (l + 1) (sliceLowerBits addr (b.bits l)).1)
        (sliceLowerBits addr (b.bits l)).2
      refine ⟨hagree.mono fun j hj => ?_, haddr⟩
      rcases hj with hS | ⟨i, hi, rfl⟩
      · exact .inl (.inr hS)
      · rcases List.mem_cons.mp hi with rfl | hi
        · exact .inl (.inl rfl)
        · exact .inr ⟨i, hi, rfl⟩

/-- Mixing reads the column and the level that it writes. -/
theorem agree_foldl_mix (h : Agree S v w) (hcol : S (b.colIdx + 1)) (levels : List Nat)
    (hlevels : ∀ i ∈ levels, S (i + 1)) (shift : Nat) :
    Agree S (levels.foldl b.mix (v, shift)).1 (levels.foldl b.mix (w, shift)).1 := by
  induction levels generalizing v w shift with
  | nil => exact h
  | cons l levels ih =>
      have hl := hlevels l List.mem_cons_self
      have hrest : ∀ i ∈ levels, S (i + 1) := fun i hi => hlevels i (List.mem_cons_of_mem _ hi)
      rw [List.foldl_cons, List.foldl_cons]
      unfold mix
      dsimp only
      rw [h.coord hcol, h.coord hl]
      split_ifs
      · exact ih ((h.set _ _).mono fun _ hS => .inr hS) hrest _
      · exact ih h hrest _

variable {req req' : Request Command K}

/-- At the start only the lengths agree. -/
theorem agree_start (b : AddrMapperBase) (req req' : Request Command K) :
    Agree (fun _ => False) (b.start req).1 (b.start req').1 := by
  refine ⟨?_, fun _ hi => hi.elim⟩
  simp only [start, resize, List.length_append, List.length_take, List.length_replicate]
  omega

theorem length_foldl_cut (levels : List Nat) (acc : AddrVec × Int) :
    (levels.foldl b.cut acc).1.length = acc.1.length := by
  induction levels generalizing acc with
  | nil => rfl
  | cons l levels ih =>
      rw [List.foldl_cons, ih]
      exact List.length_set

theorem length_start (b : AddrMapperBase) (req : Request Command K) :
    (b.start req).1.length = b.rowIdx + 3 := by
  have hlen := b.addrBits_length
  simp only [start, resize, numMappedLevels, List.length_append, List.length_take,
    List.length_replicate]
  omega

theorem colIdx_eq (b : AddrMapperBase) : b.colIdx = b.rowIdx + 1 := by
  have hlen := b.addrBits_length
  unfold colIdx numMappedLevels
  omega

theorem start_addr (hintra : req'.intraChannelAddr = req.intraChannelAddr) :
    (b.start req').2 = (b.start req).2 := by
  unfold start
  rw [hintra]

/-- A mapper that cuts every level off the address does not depend on the vector it finds. -/
theorem foldl_cut_congr (hintra : req'.intraChannelAddr = req.intraChannelAddr) {levels : List Nat}
    (hall : ∀ i, i < b.rowIdx + 2 → i ∈ levels) (c : Int) :
    (levels.foldl b.cut (b.start req')).1.set 0 c = (levels.foldl b.cut (b.start req)).1.set 0 c := by
  have hstart : b.start req' = ((b.start req').1, (b.start req).2) := Prod.ext rfl (start_addr hintra)
  obtain ⟨hagree, -⟩ := agree_foldl_cut (b := b) (agree_start b req' req) levels (b.start req).2
  rw [← hstart] at hagree
  refine hagree.set_zero (fun i hpos hlt => ?_) c
  rw [length_foldl_cut, length_start] at hlt
  exact .inr ⟨i - 1, hall (i - 1) (by omega), by omega⟩

theorem roBaRaCoCh_congr (hintra : req'.intraChannelAddr = req.intraChannelAddr) (c : Int) :
    (b.roBaRaCoCh req').set 0 c = (b.roBaRaCoCh req).set 0 c := by
  refine foldl_cut_congr hintra (fun i hi => ?_) c
  rw [colIdx_eq, List.mem_cons, List.mem_range]
  omega

theorem chRaBaRoCo_congr (hintra : req'.intraChannelAddr = req.intraChannelAddr) (c : Int) :
    (b.chRaBaRoCo req').set 0 c = (b.chRaBaRoCo req).set 0 c := by
  refine foldl_cut_congr hintra (fun i hi => ?_) c
  have hlen := b.addrBits_length
  rw [List.mem_reverse, List.mem_range]
  unfold numMappedLevels
  omega

theorem length_foldl_mix (levels : List Nat) (acc : AddrVec × Nat) :
    (levels.foldl b.mix acc).1.length = acc.1.length := by
  induction levels generalizing acc with
  | nil => rfl
  | cons l levels ih =>
      rw [List.foldl_cons, ih]
      unfold mix
      split_ifs
      · exact List.length_set
      · rfl

/-- `MOP4CLXOR` writes every level before it mixes. -/
theorem mop4clxor_congr (hintra : req'.intraChannelAddr = req.intraChannelAddr) (c : Int) :
    (b.mop4clxor req').set 0 c = (b.mop4clxor req).set 0 c := by
  unfold mop4clxor
  rw [start_addr hintra]
  dsimp only
  have hlow := (agree_start b req' req).set (b.colIdx + 1) (sliceLowerBits (b.start req).2 2).1
  obtain ⟨hfields, haddr⟩ := agree_foldl_cut (b := b) hlow (List.range b.rowIdx)
    (sliceLowerBits (b.start req).2 2).2
  rw [haddr, hfields.coord (.inl (.inl rfl))]
  have hcol := b.colIdx_eq
  refine (agree_foldl_mix (S := fun j => 0 < j ∧ j < b.rowIdx + 3) ?_ (by omega)
    (List.range b.colIdx) (fun i hi => ?_) 0).set_zero (fun i hpos hlt => ⟨hpos, ?_⟩) c
  · -- the row, the column and the levels above the row
    refine ((hfields.set _ _).set _ _).mono fun j hj => ?_
    by_cases hrow : j = b.rowIdx + 1
    · exact .inl hrow
    · by_cases hj' : j = b.colIdx + 1
      · exact .inr (.inl hj')
      · exact .inr (.inr (.inr ⟨j - 1, List.mem_range.mpr (by omega), by omega⟩))
  · have hlt := List.mem_range.mp hi
    omega
  · rw [length_foldl_mix, List.length_set, List.length_set, length_foldl_cut, List.length_set,
      length_start] at hlt
    exact hlt

end AddrMapperBase

/-! ## The table does not read the channel -/

theorem coord_set_zero (v : AddrVec) (c : Int) {i : Nat} (hi : 0 < i) :
    AddrVec.coord (v.set 0 c) i = v.coord i := by
  unfold AddrVec.coord
  rw [List.getD_eq_getElem?_getD, List.getD_eq_getElem?_getD, List.getElem?_set_ne hi.ne]

theorem flatBankId_set_zero (spec : Standard) (v : AddrVec) (c : Int) :
    spec.flatBankId (v.set 0 c) = spec.flatBankId v := by
  unfold Standard.flatBankId
  congr 1
  funext id l
  rw [coord_set_zero v c l.succ_pos]

namespace RITAddrMapper

theorem swap_set_zero (t : RITAddrMapper) (v : AddrVec) (c : Int) :
    t.swap (v.set 0 c) = (t.swap v).set 0 c := by
  unfold swap
  rw [flatBankId_set_zero, coord_set_zero v c t.row_pos]
  split_ifs
  · cases (t.rit (t.spec.flatBankId v)).lookup (v.coord t.spec.rowLevel) with
    | none => rfl
    | some entry => exact List.set_comm _ _ t.row_pos.ne
  · rfl

theorem shift_set_zero (t : RITAddrMapper) (v : AddrVec) (c : Int) :
    t.shift (v.set 0 c) = (t.shift v).map (·.set 0 c) := by
  unfold shift
  rw [coord_set_zero v c t.row_pos]
  dsimp only
  split_ifs
  · rfl
  · exact congrArg Except.ok (List.set_comm _ _ t.row_pos.ne)
  · rfl

theorem redirect_set_zero (t : RITAddrMapper) (v : AddrVec) (c : Int) :
    t.redirect (v.set 0 c) = (t.redirect v).map (·.set 0 c) := by
  unfold redirect
  rw [swap_set_zero, shift_set_zero]

/-- The same for a computation that yields the vector. -/
theorem map_bind_redirect (t : RITAddrMapper) (x : Except String AddrVec) (c : Int) :
    (x >>= t.redirect).map (·.set 0 c) = x.map (·.set 0 c) >>= t.redirect := by
  cases x with
  | error e => rfl
  | ok v => exact (t.redirect_set_zero v c).symm

end RITAddrMapper

/-! ## Mapping a mapped request -/

namespace AddrMapper

variable {req req' : Request Command K} {m : AddrMapper}

/-- A mapper that decodes the address does not read the vector it finds. -/
theorem apply_congr (hflat : m.isFlat = true) (hintra : req'.intraChannelAddr = req.intraChannelAddr)
    (c : Int) : (m.apply req').map (·.set 0 c) = (m.apply req).map (·.set 0 c) := by
  induction m with
  | passThrough => cases hflat
  | roBaRaCoCh b => exact congrArg Except.ok (AddrMapperBase.roBaRaCoCh_congr hintra c)
  | chRaBaRoCo b => exact congrArg Except.ok (AddrMapperBase.chRaBaRoCo_congr hintra c)
  | mop4clxor b => exact congrArg Except.ok (AddrMapperBase.mop4clxor_congr hintra c)
  | rit t base ih =>
      show (base.apply req' >>= t.redirect).map _ = (base.apply req >>= t.redirect).map _
      rw [t.map_bind_redirect, t.map_bind_redirect, ih hflat]

/-- The mapper leaves a request alone that it has mapped: it decodes the address anew, or passes the
vector through, or redirects a row to itself. -/
def Settled : AddrMapper → Request Command K → Prop
  | passThrough, _ | roBaRaCoCh _, _ | chRaBaRoCo _, _ | mop4clxor _, _ => True
  | rit t base, req =>
      base.isFlat = true ∨
        (base.Settled req ∧ ∀ v, base.apply req = .ok v → t.redirect v = .ok v)

theorem apply_again {v : AddrVec} {c : Int} (hsettled : m.Settled req) (hv : m.apply req = .ok v)
    (hintra : req'.intraChannelAddr = req.intraChannelAddr) (hvec : req'.addrVec = v.set 0 c) :
    (m.apply req').map (·.set 0 c) = .ok (v.set 0 c) := by
  have hflat : m.isFlat = true → (m.apply req').map (·.set 0 c) = .ok (v.set 0 c) := by
    intro h
    rw [apply_congr h hintra c, hv]
    rfl
  induction m with
  | passThrough =>
      show Except.ok (req'.addrVec.set 0 c) = _
      rw [hvec, List.set_set]
  | roBaRaCoCh b => exact hflat rfl
  | chRaBaRoCo b => exact hflat rfl
  | mop4clxor b => exact hflat rfl
  | rit t base ih =>
      rcases hsettled with hbase | ⟨hbase, hself⟩
      · exact hflat hbase
      · obtain ⟨u, hu, huv⟩ := except_bind_eq_ok.mp hv
        rw [hself u hu] at huv
        cases huv
        show (base.apply req' >>= t.redirect).map _ = _
        rw [t.map_bind_redirect, ih hbase hu fun h => by rw [apply_congr h hintra c, hu]; rfl]
        show t.redirect (v.set 0 c) = _
        rw [t.redirect_set_zero, hself v hu]
        rfl

end AddrMapper

/-! ## Sending again -/

namespace ControllerBase

variable {cfg : Config} {m : AddrMapper} {req req' r : Request Command K} {s s' : ControllerBase K}

/-- Every way out of `send` sets the arrival. -/
theorem sendMapped_arrivedAt (cfg : Config) (req : Request Command K) (clk : Int)
    (s : ControllerBase K) : s.sendMapped cfg (req.arrivedAt clk) = s.sendMapped cfg req := by
  unfold sendMapped
  rfl

theorem sendVia_of_apply {vec : AddrVec}
    (htype : req.typeId = Request.read ∨ req.typeId = Request.write) (hvec : m.apply req = .ok vec)
    (s : ControllerBase K) :
    s.sendVia cfg m req = .ok (s.sendMapped cfg (mapped cfg (fun _ => vec) req)) := by
  unfold sendVia
  rw [if_pos htype, hvec]
  show s.send cfg (fun _ => vec) req = _
  unfold send
  rw [if_neg (not_and_or.mpr (htype.imp not_not_intro not_not_intro))]

/-- What a rejected attempt makes of a request: mapped, not arrived. -/
def rejected (cfg : Config) (vec : AddrVec) (req : Request Command K) : Request Command K :=
  (mapped cfg (fun _ => vec) req).arrivedAt (-1)

/-- A rejected request comes back mapped, and nothing else has changed. -/
theorem sendVia_rejected (hsend : s.sendVia cfg m req = .ok (false, req', s')) :
    s' = s ∧ (req.typeId = Request.read ∨ req.typeId = Request.write) ∧
      ∃ vec, m.apply req = .ok vec ∧ req' = rejected cfg vec req := by
  obtain ⟨vec, hvec, hsend⟩ := except_bind_eq_ok.mp hsend
  have htype := send_type hsend
  rw [if_pos htype] at hvec
  rcases send_cases hsend with
    ⟨-, -, heq⟩ | ⟨-, -, -, heq⟩ | ⟨-, -, heq⟩ | ⟨-, -, -, heq⟩ | ⟨-, heq⟩
  -- the first four accept the request
  all_goals
    obtain ⟨haccepted, heq⟩ := Prod.mk.inj heq
    try cases haccepted
  obtain ⟨rfl, rfl⟩ := Prod.mk.inj heq
  exact ⟨rfl, htype, vec, hvec, rfl⟩

/-- `send` does not write the admission ordinal. -/
theorem admissionOrdinal_sendVia {accepted : Bool}
    (hsend : s.sendVia cfg m req = .ok (accepted, req', s')) :
    req'.admissionOrdinal = req.admissionOrdinal := by
  obtain ⟨vec, -, hsend⟩ := except_bind_eq_ok.mp hsend
  exact (send_request hsend).2

/-- The request object after some rejected attempts, in whatever states of the controller they were
made, with the table of the mapper unchanged. -/
def Retried (cfg : Config) (m : AddrMapper) (req : Request Command K) : Request Command K → Prop :=
  Reachable req fun r (s : ControllerBase K) r' => ∃ s', s.sendVia cfg m r = .ok (false, r', s')

theorem apply_rejected {vec : AddrVec} (cfg : Config) (hsettled : m.Settled req)
    (hvec : m.apply req = .ok vec) :
    ∃ vec', m.apply (rejected cfg vec req) = .ok vec' ∧
      mapped cfg (fun _ => vec') (rejected cfg vec req) = rejected cfg vec req := by
  obtain ⟨vec', hvec', hset⟩ := except_map_eq_ok.mp
    (AddrMapper.apply_again (c := cfg.channelId) hsettled hvec
      (show (rejected cfg vec req).intraChannelAddr = req.intraChannelAddr from rfl) rfl)
  refine ⟨vec', hvec', ?_⟩
  unfold rejected mapped Request.arrivedAt
  rw [hset]

/-- One rejection maps the request, and further ones change nothing. -/
theorem Retried.eq_rejected (hr : Retried cfg m req r) (hsettled : m.Settled req) :
    r = req ∨ (req.typeId = Request.read ∨ req.typeId = Request.write) ∧
      ∃ vec, m.apply req = .ok vec ∧ r = rejected cfg vec req := by
  refine hr.invariant (fun r => r = req ∨ (req.typeId = Request.read ∨ req.typeId = Request.write) ∧
    ∃ vec, m.apply req = .ok vec ∧ r = rejected cfg vec req) (.inl rfl) ?_
  rintro r s r' h ⟨s', hsend⟩
  obtain ⟨-, htype, vec', hvec', rfl⟩ := sendVia_rejected hsend
  rcases h with rfl | ⟨htype', vec, hvec, rfl⟩
  · exact .inr ⟨htype, vec', hvec', rfl⟩
  · obtain ⟨vec'', hvec'', hmapped⟩ := apply_rejected cfg hsettled hvec
    cases hvec'.symm.trans hvec''
    refine .inr ⟨htype', vec, hvec, ?_⟩
    show (mapped cfg (fun _ => vec') (rejected cfg vec req)).arrivedAt (-1) = _
    rw [hmapped]
    rfl

/-- Sending a request again does what sending a fresh copy of it would do. -/
theorem Retried.sendVia_eq (hr : Retried cfg m req r) (hsettled : m.Settled req)
    (s : ControllerBase K) : s.sendVia cfg m r = s.sendVia cfg m req := by
  rcases hr.eq_rejected hsettled with rfl | ⟨htype, vec, hvec, rfl⟩
  · rfl
  · obtain ⟨vec', hvec', hmapped⟩ := apply_rejected cfg hsettled hvec
    have htype' : (rejected cfg vec req).typeId = Request.read ∨
        (rejected cfg vec req).typeId = Request.write := htype
    rw [sendVia_of_apply htype' hvec' s, sendVia_of_apply htype hvec s, hmapped]
    exact congrArg Except.ok (sendMapped_arrivedAt cfg _ (-1) s)

end ControllerBase

end Ramulator.Controller
