/-
# Ramulator.Controller.Quarantine — aggressor-row quarantine over the row indirection table.

The plugin `AQUA` (`controller/plugin/impl/aqua.cpp`) moves a row that reaches the activation threshold
to the next slot of the quarantine region, the low rows of its bank, and enters the pair into the table
of `RITAddrMapper`. Slots are reused in turn; whatever row a slot holds goes back first.

The plugin knows rows as they are activated, the table is asked for rows before the mapper shifts them
above the reserved ones. The two are the same only without reserved rows. And the plugin does not look
up whether a row that is activated at its own place is already in quarantine, nor whether a slot that is
activated holds anything. In runs that meet none of this, the two tables agree and every request finds
its row where it was moved. Whether a request stays out of the region is a question of the reservation
alone, which `setup` does not compare with the number of slots.
-/
import Ramulator.Controller.RowSwap

namespace Ramulator.Controller

open Ramulator.Base (Request)
open Ramulator.Dram Ramulator.Lib

variable {K : Type}

/-! ## The plugin -/

/-- The parameters of the plugin, and what it looks up in `setup`, which checks that the quarantine
region is a proper part of the bank. The capacity of the table is never asked for. -/
structure AQUAConfig where
  mapper : RITAddrMapper
  numArtEntries : Int
  numQrowsPerBank : Int
  artThreshold : Int
  resetPeriodClk : Int
  colLevel : Nat
  numCls : Nat
  prefetch : Int
  qrows_pos : 0 < numQrowsPerBank
  qrows_lt : numQrowsPerBank < mapper.spec.levelSize mapper.spec.rowLevel

namespace AQUAConfig

def rowLevel (cfg : AQUAConfig) : Nat := cfg.mapper.spec.rowLevel

/-- `m_num_rows_per_bank`. -/
def numRowsPerBank (cfg : AQUAConfig) : Nat := cfg.mapper.spec.levelSize cfg.rowLevel

end AQUAConfig

/-- The plugin with the table it drives: the aggressor row tracker, the reverse pointers from slots to
rows, and the slot to be used next. -/
structure AQUA where
  clk : Int := 0
  art : Int → List (Int × Int) := fun _ => []
  spilloverCounter : Int → Int := fun _ => 0
  rpt : Int → List (Int × Int) := fun _ => []
  rqaHead : Int := 0
  rit : RIT := fun _ => []
  numMigrations : Nat := 0
  numRMigrations : Nat := 0
  sent : List (AddrVec × Command) := []

namespace AQUA

/-- The mapper with the current table, after `init_rit`. -/
def mapper (cfg : AQUAConfig) (s : AQUA) : RITAddrMapper :=
  { cfg.mapper with rit := s.rit, initialized := true }

/-- `pre_schedule`: at the end of an epoch the tracker is cleared; the tables stay. -/
def preSchedule (cfg : AQUAConfig) (s : AQUA) : Except String AQUA :=
  let s := { s with clk := s.clk + 1 }
  if cfg.resetPeriodClk = 0 then .error "reset_period_ns is less than a cycle"
  else if s.clk % cfg.resetPeriodClk = 0 then
    .ok { s with art := fun _ => [], spilloverCounter := fun _ => 0 }
  else .ok s

/-- The tracker on an activation: the row's new count, unless the row only spills over. -/
def track (cfg : AQUAConfig) (order : List Int) (bank row : Int) (s : AQUA) : AQUA × Option Int :=
  let m := s.art bank
  match m.lookup row with
  | some c => ({ s with art := Function.update s.art bank (assign row (c + 1) m) }, some (c + 1))
  | none =>
      if m.length < cfg.numArtEntries then
        ({ s with art := Function.update s.art bank (assign row 1 m) }, some 1)
      else
        match (visit order m).find? (fun e => e.2 = s.spilloverCounter bank) with
        | some (toRemove, value) =>
            ({ s with art :=
                Function.update s.art bank (assign row (value + 1) (eraseKey toRemove m)) },
              some (value + 1))
        | none =>
            ({ s with spilloverCounter :=
                Function.update s.spilloverCounter bank (s.spilloverCounter bank + 1) }, none)

/-- `issue_row_copy`. -/
def issueRowCopy (cfg : AQUAConfig) (templateAddr : AddrVec) (row : Int) (isWrite : Bool) :
    List (AddrVec × Command) :=
  (List.range cfg.numCls).map fun cl =>
    ((templateAddr.set cfg.rowLevel row).set cfg.colLevel (cl * cfg.prefetch),
      if isWrite then Command.WR else Command.RD)

/-- `issue_migration`: read one row, write the other. -/
def issueMigration (cfg : AQUAConfig) (templateAddr : AddrVec) (srcRow dstRow : Int) (s : AQUA) :
    AQUA :=
  { s with sent :=
      s.sent ++ issueRowCopy cfg templateAddr srcRow false ++ issueRowCopy cfg templateAddr dstRow true }

/-- Slot `q` gives up the row `row` that it holds. -/
def vacate (bank q row : Int) (s : AQUA) : AQUA :=
  { s with
    rpt := Function.update s.rpt bank (eraseKey q (s.rpt bank))
    rit := s.rit.removeEntry bank row q }

/-- Slot `q` takes the row `row`. -/
def occupy (bank q row : Int) (s : AQUA) : AQUA :=
  { s with
    rpt := Function.update s.rpt bank (assign q row (s.rpt bank))
    rit := s.rit.insertEntry bank row q }

/-- The head is about to be used: a row that it holds goes back. -/
def reclaim (cfg : AQUAConfig) (addr : AddrVec) (bank q : Int) (s : AQUA) : AQUA :=
  match (s.rpt bank).lookup q with
  | some prev =>
      let s := (s.vacate bank q prev).issueMigration cfg addr q prev
      { s with numRMigrations := s.numRMigrations + 1 }
  | none => s

/-- The tables after the row `row` has moved to slot `q`: if it is a slot itself, then what it holds has
moved. -/
def place (cfg : AQUAConfig) (bank row q : Int) (s : AQUA) : AQUA :=
  if row < cfg.numQrowsPerBank then
    match (s.rpt bank).lookup row with
    | some original => (s.vacate bank row original).occupy bank q original
    | none => s
  else s.occupy bank q row

/-- The part of `on_issue` for a row that has reached the threshold. -/
def migrate (cfg : AQUAConfig) (addr : AddrVec) (bank row : Int) (s : AQUA) : AQUA :=
  let q := s.rqaHead
  let s := ((s.reclaim cfg addr bank q).place cfg bank row q).issueMigration cfg addr row q
  { s with
    numMigrations := s.numMigrations + 1
    rqaHead := (s.rqaHead + 1) % cfg.numQrowsPerBank }

/-- `on_issue`; `order` is the order in which the tracker's entries are visited. -/
def onIssue (cfg : AQUAConfig) (c : Command) (addr : AddrVec) (order : List Int) (s : AQUA) :
    Except String AQUA :=
  if c.commandMeta.isOpening = false ∨ c.bankTarget ≠ .single then .ok s
  else
    let bank := cfg.mapper.spec.flatBankId addr
    let row := addr.coord cfg.rowLevel
    match s.track cfg order bank row with
    | (s, none) => .ok s
    | (s, some count) =>
        if cfg.artThreshold = 0 then .error "art_threshold is zero"
        else if count % cfg.artThreshold ≠ 0 then .ok s
        else .ok (s.migrate cfg addr bank row)

/-! ## Runs -/

/-- The notifications of the controller. -/
inductive Call where
  | preSchedule
  | onIssue (c : Command) (addr : AddrVec) (order : List Int)

def call (cfg : AQUAConfig) (e : Call) (s : AQUA) : Except String AQUA :=
  match e with
  | .preSchedule => s.preSchedule cfg
  | .onIssue c addr order => s.onIssue cfg c addr order

/-- The bank and the row that a notification migrates, if it does. -/
def migrates (cfg : AQUAConfig) (s : AQUA) : Call → Option (Int × Int)
  | .preSchedule => none
  | .onIssue c addr order =>
      let bank := cfg.mapper.spec.flatBankId addr
      let row := addr.coord cfg.rowLevel
      if c.commandMeta.isOpening = true ∧ c.bankTarget = .single ∧
          (s.track cfg order bank row).2.any (fun count => count % cfg.artThreshold = 0) = true then
        some (bank, row)
      else none

/-- Activations are of rows of the bank. -/
def WellFormed (cfg : AQUAConfig) : Call → Prop
  | .preSchedule => True
  | .onIssue c addr _ => c.commandMeta.isOpening = true →
      0 ≤ addr.coord cfg.rowLevel ∧ addr.coord cfg.rowLevel < cfg.numRowsPerBank

instance (cfg : AQUAConfig) (e : Call) : Decidable (WellFormed cfg e) :=
  match e with
  | .preSchedule => inferInstanceAs (Decidable True)
  | .onIssue _ _ _ => inferInstanceAs (Decidable (_ → _ ∧ _))

/-- The states that notifications satisfying `allowed` lead to. -/
def ReachedIf (cfg : AQUAConfig) (allowed : AQUA → Call → Prop) (s : AQUA) : AQUA → Prop :=
  Reachable s fun s e s' => (WellFormed cfg e ∧ allowed s e) ∧ call cfg e s = .ok s'

/-- A row above the region is migrated only without reserved rows, and only if it is not in quarantine
already; a slot only if it holds a row, and is not the head. -/
def Sound (cfg : AQUAConfig) (s : AQUA) (e : Call) : Prop :=
  ∀ x ∈ migrates cfg s e,
    (cfg.numQrowsPerBank ≤ x.2 →
      cfg.mapper.reservedRowsPerBank = 0 ∧ x.2 ∉ (s.rpt x.1).map Prod.snd) ∧
    (x.2 < cfg.numQrowsPerBank → x.2 ≠ s.rqaHead ∧ (s.rpt x.1).lookup x.2 ≠ none)

instance (cfg : AQUAConfig) (s : AQUA) (e : Call) : Decidable (Sound cfg s e) :=
  inferInstanceAs (Decidable (∀ x ∈ migrates cfg s e, (_ → _ ∧ _) ∧ (_ → _ ∧ _)))

/-- The notification moves something out of slot `q` of the bank, or something else into it. -/
def Changes (cfg : AQUAConfig) (bank q : Int) (s : AQUA) (e : Call) : Prop :=
  ∃ row, migrates cfg s e = some (bank, row) ∧ (s.rqaHead = q ∨ row = q)

/-- The tables of a bank agree: the reverse pointers lead from slots to rows of the workload, and the
table of the mapper has these pairs, in both directions, and no others. -/
structure TablesAgree (cfg : AQUAConfig) (s : AQUA) (bank : Int) : Prop where
  slot : ∀ q row, (s.rpt bank).lookup q = some row → 0 ≤ q ∧ q < cfg.numQrowsPerBank
  forward : ∀ q row, (s.rpt bank).lookup q = some row ↔
    cfg.numQrowsPerBank ≤ row ∧ RRS.swapped (s.rit bank) row = some q
  backward : ∀ q row, (s.rpt bank).lookup q = some row ↔
    q < cfg.numQrowsPerBank ∧ RRS.swapped (s.rit bank) q = some row

/-- The wrapped mapper decodes the request to `v`, which has a row. -/
structure Decodes (cfg : AQUAConfig) (base : AddrMapper) (req : Request Command K) (v : AddrVec) :
    Prop where
  decoded : base.apply req = .ok v
  level : cfg.rowLevel < v.length

/-- The slot of the bank of `v` that has the number of the row of `v`, if there is one, is empty. -/
def SlotEmpty (cfg : AQUAConfig) (s : AQUA) (v : AddrVec) : Prop :=
  (s.rpt (cfg.mapper.spec.flatBankId v)).lookup (v.coord cfg.rowLevel) = none

/-- An ordinary request: its row is not in quarantine. -/
def Ordinary (cfg : AQUAConfig) (s : AQUA) (v : AddrVec) : Prop :=
  ∀ q, (s.rpt (cfg.mapper.spec.flatBankId v)).lookup q ≠ some (v.coord cfg.rowLevel)

/-- The controller's mapper takes the request to row `row`. -/
def MapsTo (cfg : AQUAConfig) (s : AQUA) (base : AddrMapper) (req : Request Command K) (row : Int) :
    Prop :=
  ∃ w, (AddrMapper.rit (s.mapper cfg) base).apply req = .ok w ∧ w.coord cfg.rowLevel = row

/-- What the plugin and the mapper are for, in a state `s`. A request of a row in quarantine goes to the
row's slot, one of a slot in use to the row that the slot holds, every other one to its own place; so an
ordinary request is taken into the region exactly if the reservation leaves its own place there and the
slot of its row is empty. And what a migration takes to a slot stays there while the slot is not touched,
and is back at its own place as soon as the slot is used again. -/
structure QuarantinePlaced (K : Type) (cfg : AQUAConfig) (s : AQUA) : Prop where
  tables : ∀ bank, TablesAgree cfg s bank
  requests : ∀ (base : AddrMapper) (req : Request Command K) (v : AddrVec) (row : Int),
    Decodes cfg base req v → MapsTo cfg s base req row →
      (s.rpt (cfg.mapper.spec.flatBankId v)).lookup row = some (v.coord cfg.rowLevel) ∨
      (s.rpt (cfg.mapper.spec.flatBankId v)).lookup (v.coord cfg.rowLevel) = some row ∨
        row = v.coord cfg.rowLevel + cfg.mapper.reservedRowsPerBank ∧ Ordinary cfg s v ∧
          SlotEmpty cfg s v
  region : ∀ (base : AddrMapper) (req : Request Command K) (v : AddrVec) (row : Int),
    Decodes cfg base req v → Ordinary cfg s v → MapsTo cfg s base req row →
      (row < cfg.numQrowsPerBank ↔
        v.coord cfg.rowLevel + cfg.mapper.reservedRowsPerBank < cfg.numQrowsPerBank ∧
          SlotEmpty cfg s v)
  moved : ∀ (bank row : Int) (e : Call) (s' t : AQUA), WellFormed cfg e → Sound cfg s e →
    migrates cfg s e = some (bank, row) → call cfg e s = .ok s' →
    ReachedIf cfg (fun t e => Sound cfg t e ∧ ¬Changes cfg bank s.rqaHead t e) s' t →
    ∀ (base : AddrMapper) (req : Request Command K) (v : AddrVec), Decodes cfg base req v →
      cfg.mapper.spec.flatBankId v = bank → MapsTo cfg s base req row →
      MapsTo cfg t base req s.rqaHead ∧
        ∀ (e : Call) (row' : Int) (t' : AQUA), WellFormed cfg e → Sound cfg t e →
          migrates cfg t e = some (bank, row') → t.rqaHead = s.rqaHead → call cfg e t = .ok t' →
          MapsTo cfg t' base req (v.coord cfg.rowLevel) ∧
            (cfg.numQrowsPerBank ≤ row → v.coord cfg.rowLevel = row)

/-! ## The tables -/

variable {cfg : AQUAConfig} {s s' : AQUA} {bank q row : Int} {v : AddrVec}

/-- The pointers of a slot, when the tables agree. -/
theorem TablesAgree.of_lookup (h : TablesAgree cfg s bank) (hq : (s.rpt bank).lookup q = some row) :
    0 ≤ q ∧ q < cfg.numQrowsPerBank ∧ cfg.numQrowsPerBank ≤ row ∧
      RRS.swapped (s.rit bank) row = some q ∧ RRS.swapped (s.rit bank) q = some row := by
  obtain ⟨hnonneg, hlt⟩ := h.slot q row hq
  obtain ⟨hle, hforward⟩ := (h.forward q row).mp hq
  exact ⟨hnonneg, hlt, hle, hforward, ((h.backward q row).mp hq).2⟩

/-- A row is in one slot only. -/
theorem TablesAgree.slot_unique (h : TablesAgree cfg s bank) {q' : Int}
    (hq : (s.rpt bank).lookup q = some row) (hq' : (s.rpt bank).lookup q' = some row) : q = q' := by
  have h₁ := ((h.forward q row).mp hq).2
  have h₂ := ((h.forward q' row).mp hq').2
  exact Option.some.inj (h₁.symm.trans h₂)

theorem TablesAgree.congr (h : TablesAgree cfg s bank) (hrpt : s'.rpt bank = s.rpt bank)
    (hrit : s'.rit bank = s.rit bank) : TablesAgree cfg s' bank := by
  constructor
  · rw [hrpt]
    exact h.slot
  · rw [hrpt, hrit]
    exact h.forward
  · rw [hrpt, hrit]
    exact h.backward

theorem lookup_vacate (q' : Int) : ((s.vacate bank q row).rpt bank).lookup q' =
    if q' = q then none else (s.rpt bank).lookup q' := by
  show ((Function.update s.rpt bank (eraseKey q (s.rpt bank))) bank).lookup q' = _
  rw [Function.update_self, lookup_eraseKey]
  simp only [beq_iff_eq]

theorem lookup_occupy (q' : Int) : ((s.occupy bank q row).rpt bank).lookup q' =
    if q' = q then some row else (s.rpt bank).lookup q' := by
  show ((Function.update s.rpt bank (assign q row (s.rpt bank))) bank).lookup q' = _
  rw [Function.update_self, lookup_assign]
  simp only [beq_iff_eq]

theorem swapped_vacate : RRS.swapped ((s.vacate bank q row).rit bank) =
    dropPair (RRS.swapped (s.rit bank)) row q := by
  rw [← RRS.swapped_remove]
  exact congrArg RRS.swapped (Function.update_self ..)

theorem swapped_occupy : RRS.swapped ((s.occupy bank q row).rit bank) =
    addPair (RRS.swapped (s.rit bank)) row q := by
  rw [← RRS.swapped_insert]
  exact congrArg RRS.swapped (Function.update_self ..)

theorem TablesAgree.vacate (h : ∀ b, TablesAgree cfg s b) (hq : (s.rpt bank).lookup q = some row)
    (b : Int) : TablesAgree cfg (s.vacate bank q row) b := by
  by_cases hb : b = bank
  · subst hb
    obtain ⟨-, hlt, hle, hrow, -⟩ := (h b).of_lookup hq
    refine ⟨fun q' r hr => ?_, fun q' r => ?_, fun q' r => ?_⟩
    · rw [lookup_vacate] at hr
      split_ifs at hr
      exact (h b).slot q' r hr
    · rw [lookup_vacate, swapped_vacate, dropPair]
      constructor
      · intro hr
        split_ifs at hr with hne
        obtain ⟨-, -, hle', hr', -⟩ := (h b).of_lookup hr
        refine ⟨hle', ?_⟩
        rw [if_neg, hr']
        rintro (rfl | rfl)
        · exact hne (Option.some.inj (hr'.symm.trans hrow))
        · omega
      · rintro ⟨hle', hr⟩
        split_ifs at hr with hnot
        have hr' := ((h b).forward q' r).mpr ⟨hle', hr⟩
        rw [if_neg, hr']
        rintro rfl
        exact hnot (.inl (Option.some.inj (hr'.symm.trans hq)))
    · rw [lookup_vacate, swapped_vacate, dropPair]
      constructor
      · intro hr
        split_ifs at hr with hne
        obtain ⟨-, hlt', -, -, hr'⟩ := (h b).of_lookup hr
        refine ⟨hlt', ?_⟩
        rw [if_neg, hr']
        rintro (rfl | rfl)
        · omega
        · exact hne rfl
      · rintro ⟨hlt', hr⟩
        split_ifs at hr with hnot
        rw [if_neg fun heq => hnot (.inr heq)]
        exact ((h b).backward q' r).mpr ⟨hlt', hr⟩
  · exact (h b).congr (Function.update_of_ne hb _ _) (Function.update_of_ne hb _ _)

theorem TablesAgree.occupy (h : ∀ b, TablesAgree cfg s b) (hq : (s.rpt bank).lookup q = none)
    (hslot : 0 ≤ q ∧ q < cfg.numQrowsPerBank) (hrow : cfg.numQrowsPerBank ≤ row)
    (hfree : ∀ q', (s.rpt bank).lookup q' ≠ some row) (b : Int) :
    TablesAgree cfg (s.occupy bank q row) b := by
  by_cases hb : b = bank
  · subst hb
    refine ⟨fun q' r hr => ?_, fun q' r => ?_, fun q' r => ?_⟩
    · rw [lookup_occupy] at hr
      split_ifs at hr with heq
      · exact heq ▸ hslot
      · exact (h b).slot q' r hr
    · rw [lookup_occupy, swapped_occupy, addPair]
      constructor
      · intro hr
        split_ifs at hr with heq
        · obtain rfl := Option.some.inj hr
          refine ⟨hrow, ?_⟩
          rw [if_neg (by omega), if_pos rfl, heq]
        · obtain ⟨-, -, hle', hr', -⟩ := (h b).of_lookup hr
          refine ⟨hle', ?_⟩
          -- the row was in no slot before
          have hne : r ≠ row := by
            rintro rfl
            exact hfree q' hr
          rw [if_neg (by omega), if_neg hne, hr']
      · rintro ⟨hle', hr⟩
        rw [if_neg (by omega)] at hr
        split_ifs at hr with heq
        · rw [if_pos (Option.some.inj hr).symm, heq]
        · have hr' := ((h b).forward q' r).mpr ⟨hle', hr⟩
          rw [if_neg, hr']
          rintro rfl
          rw [hq] at hr'
          cases hr'
    · rw [lookup_occupy, swapped_occupy, addPair]
      constructor
      · intro hr
        split_ifs at hr with heq
        · exact ⟨heq ▸ hslot.2, by rw [if_pos heq, hr]⟩
        · obtain ⟨-, hlt', -, -, hr'⟩ := (h b).of_lookup hr
          refine ⟨hlt', ?_⟩
          rw [if_neg heq, if_neg (by omega), hr']
      · rintro ⟨hlt', hr⟩
        split_ifs at hr ⊢ with heq heq'
        · exact hr
        · omega
        · exact ((h b).backward q' r).mpr ⟨hlt', hr⟩
  · exact (h b).congr (Function.update_of_ne hb _ _) (Function.update_of_ne hb _ _)

/-! ## One notification -/

/-- The tracker leaves the tables alone. -/
theorem track_frame (cfg : AQUAConfig) (order : List Int) (bank row : Int) (s : AQUA) :
    (s.track cfg order bank row).1.rpt = s.rpt ∧ (s.track cfg order bank row).1.rit = s.rit ∧
      (s.track cfg order bank row).1.rqaHead = s.rqaHead := by
  unfold track
  dsimp only
  cases (s.art bank).lookup row with
  | some c => exact ⟨rfl, rfl, rfl⟩
  | none =>
      dsimp only
      split_ifs
      · exact ⟨rfl, rfl, rfl⟩
      · cases (visit order (s.art bank)).find? (fun e => e.2 = s.spilloverCounter bank) with
        | some e => exact ⟨rfl, rfl, rfl⟩
        | none => exact ⟨rfl, rfl, rfl⟩

/-- What holds of every reachable state: the head is a slot, the tables agree, and with reserved rows
nothing is in quarantine. -/
structure Inv (cfg : AQUAConfig) (s : AQUA) : Prop where
  head : 0 ≤ s.rqaHead ∧ s.rqaHead < cfg.numQrowsPerBank
  tables : ∀ bank, TablesAgree cfg s bank
  reserved : cfg.mapper.reservedRowsPerBank ≠ 0 → ∀ bank q, (s.rpt bank).lookup q = none

/-- The reverse pointers after `row` has moved to the head. -/
def pointer (cfg : AQUAConfig) (s : AQUA) (bank row q : Int) : Option Int :=
  if q = s.rqaHead then
    if cfg.numQrowsPerBank ≤ row then some row
    else if row = s.rqaHead then none else (s.rpt bank).lookup row
  else if q = row then none
  else (s.rpt bank).lookup q

theorem lookup_ne_of_not_mem (hrow : row ∉ (s.rpt bank).map Prod.snd) (q : Int) :
    (s.rpt bank).lookup q ≠ some row :=
  fun hq => hrow (List.mem_map.mpr ⟨_, mem_of_lookup hq, rfl⟩)

/-- After `reclaim` the head is empty. -/
theorem reclaim_spec (h : ∀ b, TablesAgree cfg s b) (addr : AddrVec) :
    (∀ b, TablesAgree cfg (s.reclaim cfg addr bank q) b) ∧
      (∀ q', ((s.reclaim cfg addr bank q).rpt bank).lookup q' =
        if q' = q then none else (s.rpt bank).lookup q') ∧
      (∀ b, b ≠ bank → (s.reclaim cfg addr bank q).rpt b = s.rpt b) ∧
      (s.reclaim cfg addr bank q).rqaHead = s.rqaHead := by
  unfold reclaim
  cases hq : (s.rpt bank).lookup q with
  | some prev =>
      refine ⟨fun b => ?_, fun q' => ?_, fun b hb => ?_, rfl⟩
      · exact (TablesAgree.vacate h hq b).congr rfl rfl
      · show ((s.vacate bank q prev).rpt bank).lookup q' = _
        exact lookup_vacate q'
      · exact Function.update_of_ne hb _ _
  | none =>
      refine ⟨h, fun q' => ?_, fun _ _ => rfl, rfl⟩
      show (s.rpt bank).lookup q' = _
      split_ifs with heq
      · rw [heq, hq]
      · rfl

/-- A row moves to an empty slot, and a slot with what it holds. -/
theorem place_spec (h : ∀ b, TablesAgree cfg s b) (hq : (s.rpt bank).lookup q = none)
    (hslot : 0 ≤ q ∧ q < cfg.numQrowsPerBank)
    (hrow : cfg.numQrowsPerBank ≤ row → ∀ q', (s.rpt bank).lookup q' ≠ some row) :
    (∀ b, TablesAgree cfg (s.place cfg bank row q) b) ∧
      (∀ q', ((s.place cfg bank row q).rpt bank).lookup q' =
        if q' = q then (if cfg.numQrowsPerBank ≤ row then some row else (s.rpt bank).lookup row)
        else if q' = row then none else (s.rpt bank).lookup q') ∧
      (∀ b, b ≠ bank → (s.place cfg bank row q).rpt b = s.rpt b) ∧
      (s.place cfg bank row q).rqaHead = s.rqaHead := by
  unfold place
  by_cases hlt : row < cfg.numQrowsPerBank
  · rw [if_pos hlt, if_neg (Int.not_le.mpr hlt)]
    cases hheld : (s.rpt bank).lookup row with
    | some original =>
        have hvacated := TablesAgree.vacate h hheld
        have hempty : ((s.vacate bank row original).rpt bank).lookup q = none := by
          rw [lookup_vacate, hq, ite_self]
        have hfree : ∀ q', ((s.vacate bank row original).rpt bank).lookup q' ≠ some original := by
          intro q' hq'
          rw [lookup_vacate] at hq'
          split_ifs at hq' with hne
          exact hne ((h bank).slot_unique hq' hheld)
        have hle := ((h bank).of_lookup hheld).2.2.1
        refine ⟨TablesAgree.occupy hvacated hempty hslot hle hfree, fun q' => ?_, fun b hb => ?_, rfl⟩
        · show (((s.vacate bank row original).occupy bank q original).rpt bank).lookup q' = _
          rw [lookup_occupy, lookup_vacate]
        · show ((s.vacate bank row original).occupy bank q original).rpt b = _
          exact (Function.update_of_ne hb _ _).trans (Function.update_of_ne hb _ _)
    | none =>
        refine ⟨h, fun q' => ?_, fun _ _ => rfl, rfl⟩
        show (s.rpt bank).lookup q' = _
        split_ifs with heq heq'
        · rw [heq, hq]
        · rw [heq', hheld]
        · rfl
  · have hle := Int.not_lt.mp hlt
    rw [if_neg hlt]
    refine ⟨TablesAgree.occupy h hq hslot hle (hrow hle), fun q' => ?_, fun b hb => ?_, rfl⟩
    · rw [lookup_occupy]
      split_ifs with heq heq'
      · rfl
      · -- a row of the workload is no slot
        cases hq' : (s.rpt bank).lookup q' with
        | none => rfl
        | some r => exact absurd ((h bank).slot q' r hq').2 (by omega)
      · rfl
    · exact Function.update_of_ne hb _ _

/-- What a sound migration does. -/
theorem Inv.migrate (h : Inv cfg s) (addr : AddrVec)
    (hrow : cfg.numQrowsPerBank ≤ row →
      cfg.mapper.reservedRowsPerBank = 0 ∧ row ∉ (s.rpt bank).map Prod.snd) :
    Inv cfg (s.migrate cfg addr bank row) ∧
      (∀ q, ((s.migrate cfg addr bank row).rpt bank).lookup q = pointer cfg s bank row q) ∧
      ∀ b, b ≠ bank → (s.migrate cfg addr bank row).rpt b = s.rpt b := by
  obtain ⟨htables₁, hlookup₁, hother₁, hhead₁⟩ :=
    @reclaim_spec cfg s bank s.rqaHead h.tables addr
  have hempty : ((s.reclaim cfg addr bank s.rqaHead).rpt bank).lookup s.rqaHead = none := by
    rw [hlookup₁, if_pos rfl]
  have hfree : cfg.numQrowsPerBank ≤ row →
      ∀ q', ((s.reclaim cfg addr bank s.rqaHead).rpt bank).lookup q' ≠ some row := by
    intro hle q' hq'
    rw [hlookup₁] at hq'
    split_ifs at hq'
    exact lookup_ne_of_not_mem (hrow hle).2 q' hq'
  obtain ⟨htables₂, hlookup₂, hother₂, hhead₂⟩ := place_spec htables₁ hempty h.head hfree
  have hlookup : ∀ q, ((s.migrate cfg addr bank row).rpt bank).lookup q = pointer cfg s bank row q := by
    intro q
    refine (hlookup₂ q).trans ?_
    unfold pointer
    rw [hlookup₁, hlookup₁]
    split_ifs <;> rfl
  have hother : ∀ b, b ≠ bank → (s.migrate cfg addr bank row).rpt b = s.rpt b :=
    fun b hb => (hother₂ b hb).trans (hother₁ b hb)
  refine ⟨⟨?_, fun b => (htables₂ b).congr rfl rfl, fun hres b q => ?_⟩, hlookup, hother⟩
  · show 0 ≤ (((s.reclaim cfg addr bank s.rqaHead).place cfg bank row s.rqaHead).rqaHead + 1) %
        cfg.numQrowsPerBank ∧ _
    have hpos := cfg.qrows_pos
    exact ⟨Int.emod_nonneg _ (by omega), Int.emod_lt_of_pos _ hpos⟩
  · by_cases hb : b = bank
    · subst hb
      rw [hlookup, pointer, h.reserved hres, h.reserved hres, if_neg fun hle => hres (hrow hle).1]
      split_ifs <;> rfl
    · rw [hother b hb]
      exact h.reserved hres b q

theorem Inv.congr (h : Inv cfg s) (hrpt : s'.rpt = s.rpt) (hrit : s'.rit = s.rit)
    (hhead : s'.rqaHead = s.rqaHead) : Inv cfg s' := by
  refine ⟨hhead ▸ h.head, fun b => (h.tables b).congr (by rw [hrpt]) (by rw [hrit]), fun hres b q => ?_⟩
  rw [hrpt]
  exact h.reserved hres b q

/-- A sound notification keeps the invariant, and moves what `migrates` says and nothing else. -/
theorem Inv.call {e : Call} (h : Inv cfg s) (hsound : Sound cfg s e) (hcall : call cfg e s = .ok s') :
    Inv cfg s' ∧
      (migrates cfg s e = none → s'.rpt = s.rpt) ∧
      ∀ bank row, migrates cfg s e = some (bank, row) →
        (∀ q, (s'.rpt bank).lookup q = pointer cfg s bank row q) ∧
          ∀ b, b ≠ bank → s'.rpt b = s.rpt b := by
  cases e with
  | preSchedule =>
      have hcall : s.preSchedule cfg = .ok s' := hcall
      unfold preSchedule at hcall
      dsimp only at hcall
      split_ifs at hcall
      all_goals
        cases hcall
        exact ⟨h.congr rfl rfl rfl, fun _ => rfl, nofun⟩
  | onIssue c addr order =>
      have hcall : s.onIssue cfg c addr order = .ok s' := hcall
      unfold onIssue at hcall
      unfold Sound at hsound
      unfold migrates at hsound ⊢
      dsimp only at hcall hsound ⊢
      -- counting leaves the tables alone, and a migration follows it only at a multiple of the threshold
      obtain ⟨hrpt, hrit, hhead⟩ := track_frame cfg order (cfg.mapper.spec.flatBankId addr)
        (addr.coord cfg.rowLevel) s
      by_cases hopen : c.commandMeta.isOpening = false ∨ c.bankTarget ≠ .single
      · rw [if_pos hopen] at hcall
        cases hcall
        rw [if_neg]
        · exact ⟨h, fun _ => rfl, nofun⟩
        · rintro ⟨hisOpening, hsingle, -⟩
          rcases hopen with hclosed | hne
          · rw [hisOpening] at hclosed
            cases hclosed
          · exact hne hsingle
      · rw [if_neg hopen] at hcall
        obtain ⟨hisOpening, hsingle⟩ := not_or.mp hopen
        rw [Bool.not_eq_false] at hisOpening
        rw [not_not] at hsingle
        cases htrack : s.track cfg order (cfg.mapper.spec.flatBankId addr) (addr.coord cfg.rowLevel) with
        | mk s₁ count =>
            rw [htrack] at hrpt hrit hhead hcall hsound
            have h₁ : Inv cfg s₁ := h.congr hrpt hrit hhead
            cases count with
            | none =>
                cases hcall
                rw [if_neg (by simp)]
                exact ⟨h₁, fun _ => hrpt, nofun⟩
            | some count =>
                dsimp only at hcall
                split_ifs at hcall with hzero hcount
                · cases hcall
                  have hcount' : ¬(Option.any (fun x => decide (x % cfg.artThreshold = 0))
                      (some count) = true) := fun hany => hcount (of_decide_eq_true hany)
                  rw [if_neg fun hall => hcount' hall.2.2]
                  exact ⟨h₁, fun _ => hrpt, nofun⟩
                · cases hcall
                  have hreached : Option.any (fun x => decide (x % cfg.artThreshold = 0))
                      (some count) = true := decide_eq_true (not_not.mp hcount)
                  rw [if_pos ⟨hisOpening, hsingle, hreached⟩] at hsound ⊢
                  obtain ⟨hrow, -⟩ := hsound _ rfl
                  rw [← hrpt] at hrow
                  obtain ⟨hinv, hlookup, hother⟩ := h₁.migrate addr hrow
                  refine ⟨hinv, nofun, ?_⟩
                  rintro bank row heq
                  cases heq
                  refine ⟨fun q => (hlookup q).trans ?_, fun b hb => ?_⟩
                  · unfold pointer
                    rw [hrpt, hhead]
                  · rw [hother b hb, hrpt]

/-- A slot keeps its row through notifications that do not touch the slot. -/
theorem Inv.call_keeps {e : Call} (h : Inv cfg s) (hsound : Sound cfg s e)
    (hkeep : ¬Changes cfg bank q s e) (hcall : AQUA.call cfg e s = .ok s') :
    (s'.rpt bank).lookup q = (s.rpt bank).lookup q := by
  obtain ⟨-, hnone, hsome⟩ := h.call hsound hcall
  cases hmig : migrates cfg s e with
  | none => rw [hnone hmig]
  | some x =>
      obtain ⟨bank', row⟩ := x
      obtain ⟨hlookup, hother⟩ := hsome bank' row hmig
      by_cases hb : bank = bank'
      · subst hb
        have hne : ¬(s.rqaHead = q ∨ row = q) := fun hor => hkeep ⟨row, hmig, hor⟩
        rw [hlookup, pointer, if_neg fun heq => hne (.inl heq.symm), if_neg fun heq => hne (.inr heq.symm)]
      · rw [hother bank hb]

theorem inv_start (cfg : AQUAConfig) : Inv cfg {} where
  head := ⟨Int.le_refl 0, cfg.qrows_pos⟩
  tables _ := ⟨nofun, fun _ _ => ⟨nofun, fun h => nomatch h.2⟩, fun _ _ => ⟨nofun, fun h => nomatch h.2⟩⟩
  reserved _ _ _ := rfl

theorem Inv.reached (h : Inv cfg s) {allowed : AQUA → Call → Prop}
    (hallowed : ∀ s e, allowed s e → Sound cfg s e) (hs : ReachedIf cfg allowed s s') : Inv cfg s' :=
  hs.invariant (Inv cfg) h fun s e _ hinv ⟨⟨_, hok⟩, hcall⟩ => (hinv.call (hallowed s e hok) hcall).1

/-! ## Requests -/

theorem coord_set_self (hlen : cfg.rowLevel < v.length) (x : Int) :
    AddrVec.coord (v.set cfg.rowLevel x) cfg.rowLevel = x := by
  unfold AddrVec.coord
  rw [List.getD_eq_getElem?_getD, List.getElem?_set_self hlen]
  rfl

section Requests

variable {base : AddrMapper} {req : Request Command K}

theorem mapsTo_iff (hdec : Decodes cfg base req v) :
    MapsTo cfg s base req row ↔
      ∃ w, (s.mapper cfg).redirect v = .ok w ∧ w.coord cfg.rowLevel = row := by
  unfold MapsTo
  rw [show (AddrMapper.rit (s.mapper cfg) base).apply req = base.apply req >>= (s.mapper cfg).redirect
    from rfl, hdec.decoded]
  rfl

/-- Without reserved rows the table decides. -/
theorem mapsTo_iff_partner (hdec : Decodes cfg base req v)
    (hres : cfg.mapper.reservedRowsPerBank = 0) :
    MapsTo cfg s base req row ↔
      partner (RRS.swapped (s.rit (cfg.mapper.spec.flatBankId v))) (v.coord cfg.rowLevel) = row := by
  have hredirect : (s.mapper cfg).redirect v = .ok (v.set cfg.rowLevel
      (partner (RRS.swapped (s.rit (cfg.mapper.spec.flatBankId v))) (v.coord cfg.rowLevel))) :=
    RRS.redirect_of_table (s.mapper cfg) rfl hres v
  rw [mapsTo_iff hdec, hredirect]
  constructor
  · rintro ⟨w, hw, rfl⟩
    cases hw
    exact (coord_set_self hdec.level _).symm
  · intro hpartner
    exact ⟨_, rfl, (coord_set_self hdec.level _).trans hpartner⟩

/-- A request whose row is in quarantine goes to the row's slot. -/
theorem Inv.mapsTo_slot (h : Inv cfg s) (hdec : Decodes cfg base req v)
    (hq : (s.rpt (cfg.mapper.spec.flatBankId v)).lookup q = some (v.coord cfg.rowLevel)) :
    MapsTo cfg s base req q := by
  have hres : cfg.mapper.reservedRowsPerBank = 0 := by
    by_contra hres
    rw [h.reserved hres] at hq
    cases hq
  rw [mapsTo_iff_partner hdec hres, partner, (((h.tables _).forward _ _).mp hq).2]
  rfl

/-- A request whose row is in no slot, and is none itself, goes to its own place. -/
theorem Inv.mapsTo_home (h : Inv cfg s) (hdec : Decodes cfg base req v)
    (hres : cfg.mapper.reservedRowsPerBank = 0) (habove : cfg.numQrowsPerBank ≤ v.coord cfg.rowLevel)
    (hord : Ordinary cfg s v) : MapsTo cfg s base req (v.coord cfg.rowLevel) := by
  rw [mapsTo_iff_partner hdec hres, partner]
  cases hsw : RRS.swapped (s.rit (cfg.mapper.spec.flatBankId v)) (v.coord cfg.rowLevel) with
  | none => rfl
  | some q => exact absurd (((h.tables _).forward q _).mpr ⟨habove, hsw⟩) (hord q)

/-- With reserved rows the table is empty. -/
theorem Inv.mapsTo_shifted (h : Inv cfg s) (hdec : Decodes cfg base req v)
    (hres : cfg.mapper.reservedRowsPerBank ≠ 0) (hmaps : MapsTo cfg s base req row) :
    row = v.coord cfg.rowLevel + cfg.mapper.reservedRowsPerBank := by
  obtain ⟨w, hw, rfl⟩ := (mapsTo_iff hdec).mp hmaps
  have hsw : ∀ r, RRS.swapped (s.rit (cfg.mapper.spec.flatBankId v)) r = none := by
    intro r
    by_contra hne
    obtain ⟨r', hr'⟩ := Option.ne_none_iff_exists'.mp hne
    by_cases hr : cfg.numQrowsPerBank ≤ r
    · have hq := ((h.tables _).forward r' r).mpr ⟨hr, hr'⟩
      rw [h.reserved hres] at hq
      cases hq
    · have hq := ((h.tables _).backward r r').mpr ⟨Int.not_le.mp hr, hr'⟩
      rw [h.reserved hres] at hq
      cases hq
  have hswap : (s.mapper cfg).swap v = v := by
    have hlookup : ((s.mapper cfg).rit (cfg.mapper.spec.flatBankId v)).lookup (v.coord cfg.rowLevel) =
        none := RRS.lookup_eq_none_of_swapped (hsw _)
    have hinit : (s.mapper cfg).initialized = true := rfl
    have hkey : ((s.mapper cfg).rit ((s.mapper cfg).spec.flatBankId v)).lookup
        (v.coord (s.mapper cfg).spec.rowLevel) = none := hlookup
    unfold RITAddrMapper.swap
    rw [if_pos hinit]
    simp only [hkey]
  have hpos : (s.mapper cfg).reservedRowsPerBank > 0 := Nat.pos_of_ne_zero hres
  unfold RITAddrMapper.redirect RITAddrMapper.shift at hw
  rw [hswap, if_pos hpos] at hw
  dsimp only at hw
  split_ifs at hw
  cases hw
  exact coord_set_self hdec.level _

/-- Where requests go: to a slot that holds their row, to the row that their slot holds, or to their own
place. -/
theorem Inv.requests (h : Inv cfg s) (hdec : Decodes cfg base req v)
    (hmaps : MapsTo cfg s base req row) :
    (s.rpt (cfg.mapper.spec.flatBankId v)).lookup row = some (v.coord cfg.rowLevel) ∨
      (s.rpt (cfg.mapper.spec.flatBankId v)).lookup (v.coord cfg.rowLevel) = some row ∨
        row = v.coord cfg.rowLevel + cfg.mapper.reservedRowsPerBank ∧ Ordinary cfg s v ∧
          SlotEmpty cfg s v := by
  by_cases hres : cfg.mapper.reservedRowsPerBank = 0
  · have htables := h.tables (cfg.mapper.spec.flatBankId v)
    rw [mapsTo_iff_partner hdec hres, partner] at hmaps
    cases hsw : RRS.swapped (s.rit (cfg.mapper.spec.flatBankId v)) (v.coord cfg.rowLevel) with
    | none =>
        rw [hsw] at hmaps
        have hmaps : v.coord cfg.rowLevel = row := hmaps
        refine .inr (.inr ⟨by omega, fun q hq => ?_, ?_⟩)
        · rw [((htables.forward q _).mp hq).2] at hsw
          cases hsw
        · unfold SlotEmpty
          by_contra hheld
          obtain ⟨r, hr⟩ := Option.ne_none_iff_exists'.mp hheld
          rw [((htables.backward _ r).mp hr).2] at hsw
          cases hsw
    | some r =>
        rw [hsw] at hmaps
        have hmaps : r = row := hmaps
        rw [hmaps] at hsw
        by_cases habove : cfg.numQrowsPerBank ≤ v.coord cfg.rowLevel
        · exact .inl ((htables.forward row _).mpr ⟨habove, hsw⟩)
        · exact .inr (.inl ((htables.backward _ row).mpr ⟨Int.not_le.mp habove, hsw⟩))
  · refine .inr (.inr ⟨h.mapsTo_shifted hdec hres hmaps, fun q hq => ?_, h.reserved hres _ _⟩)
    rw [h.reserved hres] at hq
    cases hq

/-- An ordinary request is taken into the region only from its own place there. -/
theorem Inv.region (h : Inv cfg s) (hdec : Decodes cfg base req v) (hord : Ordinary cfg s v)
    (hmaps : MapsTo cfg s base req row) :
    row < cfg.numQrowsPerBank ↔
      v.coord cfg.rowLevel + cfg.mapper.reservedRowsPerBank < cfg.numQrowsPerBank ∧
        SlotEmpty cfg s v := by
  rcases h.requests hdec hmaps with hheld | hheld | ⟨heq, -, hempty⟩
  · exact absurd hheld (hord row)
  · -- a slot in use sends its requests to the row that it holds, above the region
    have hle := ((h.tables _).of_lookup hheld).2.2.1
    refine ⟨fun hlt => absurd hle (Int.not_le.mpr hlt), fun ⟨_, hempty⟩ => ?_⟩
    rw [hempty] at hheld
    cases hheld
  · rw [heq]
    exact ⟨fun hlt => ⟨hlt, hempty⟩, fun hlt => hlt.1⟩

/-- After a migration the head holds the row of every request that went to the migrated row. -/
theorem Inv.head_holds {e : Call} (h : Inv cfg s) (hsound : Sound cfg s e)
    (hmig : migrates cfg s e = some (cfg.mapper.spec.flatBankId v, row))
    (hcall : AQUA.call cfg e s = .ok s') (hdec : Decodes cfg base req v)
    (hmaps : MapsTo cfg s base req row) :
    (s'.rpt (cfg.mapper.spec.flatBankId v)).lookup s.rqaHead = some (v.coord cfg.rowLevel) ∧
      (cfg.numQrowsPerBank ≤ row → v.coord cfg.rowLevel = row) := by
  obtain ⟨hrow, hslot⟩ := hsound _ hmig
  obtain ⟨-, -, hsome⟩ := h.call hsound hcall
  have hrequests := h.requests hdec hmaps
  rw [(hsome _ _ hmig).1, pointer, if_pos rfl]
  by_cases hle : cfg.numQrowsPerBank ≤ row
  · -- a row above the region: it is in no slot, so the request is its own
    obtain ⟨hres, hfree⟩ := hrow hle
    have hown : v.coord cfg.rowLevel = row := by
      rcases hrequests with hheld | hheld | ⟨heq, -, -⟩
      · exact absurd ((h.tables _).slot _ _ hheld).2 (Int.not_lt.mpr hle)
      · exact absurd hheld (lookup_ne_of_not_mem hfree _)
      · rw [heq, hres]
        exact (Int.add_zero _).symm
    rw [if_pos hle, hown]
    exact ⟨rfl, fun _ => rfl⟩
  · -- a slot in use: the request is of the row that it holds
    obtain ⟨hne, hused⟩ := hslot (Int.not_le.mp hle)
    rw [if_neg hle, if_neg hne]
    refine ⟨?_, fun hle' => absurd hle' hle⟩
    rcases hrequests with hheld | hheld | ⟨heq, -, hempty⟩
    · exact hheld
    · exact absurd ((h.tables _).of_lookup hheld).2.2.1 hle
    · by_cases hres : cfg.mapper.reservedRowsPerBank = 0
      · rw [hres] at heq
        have heq : row = v.coord cfg.rowLevel := heq.trans (Int.add_zero _)
        rw [heq] at hused
        exact absurd hempty hused
      · exact absurd (h.reserved hres _ _) hused

/-- When the slot of a row is used again, the row is in no slot. -/
theorem Inv.reclaimed {e : Call} {row' : Int} (h : Inv cfg s) (hsound : Sound cfg s e)
    (hheld : (s.rpt bank).lookup s.rqaHead = some row) (hmig : migrates cfg s e = some (bank, row'))
    (hcall : AQUA.call cfg e s = .ok s') (q : Int) : (s'.rpt bank).lookup q ≠ some row := by
  obtain ⟨hrow, -⟩ := hsound _ hmig
  obtain ⟨-, -, hsome⟩ := h.call hsound hcall
  rw [(hsome _ _ hmig).1, pointer]
  intro hq
  split_ifs at hq with heq hle hself hmoved
  · obtain rfl := Option.some.inj hq
    exact lookup_ne_of_not_mem (hrow hle).2 _ hheld
  · exact hself ((h.tables bank).slot_unique hq hheld)
  · exact heq ((h.tables bank).slot_unique hq hheld)

end Requests

/-- In every run whose migrations are sound, rows in quarantine are where the mapper looks for them. -/
theorem quarantine_placed (hs : ReachedIf cfg (Sound cfg) {} s) : QuarantinePlaced K cfg s := by
  have h := (inv_start cfg).reached (fun _ _ hsound => hsound) hs
  refine ⟨h.tables, fun base req v row hdec hmaps => h.requests hdec hmaps,
    fun base req v row hdec hord hmaps => h.region hdec hord hmaps, ?_⟩
  rintro _ row e s' t - hsound hmig hcall hreached base req v hdec rfl hmaps
  obtain ⟨hheld, heq⟩ := h.head_holds hsound hmig hcall hdec hmaps
  have h' := (h.call hsound hcall).1
  have ht : Inv cfg t := h'.reached (fun _ _ hok => hok.1) hreached
  -- the slot is not touched on the way to `t`
  have hstill : (t.rpt (cfg.mapper.spec.flatBankId v)).lookup s.rqaHead = some (v.coord cfg.rowLevel) :=
    (hreached.invariant
      (fun u => Inv cfg u ∧
        (u.rpt (cfg.mapper.spec.flatBankId v)).lookup s.rqaHead = some (v.coord cfg.rowLevel))
      ⟨h', hheld⟩
      fun u e u' ⟨hu, hlookup⟩ ⟨⟨_, hok, hkeep⟩, hstep⟩ =>
        ⟨(hu.call hok hstep).1, (hu.call_keeps hok hkeep hstep).trans hlookup⟩).2
  refine ⟨ht.mapsTo_slot hdec hstill, ?_⟩
  rintro e row' t' - hsound' hmig' hhead hstep
  refine ⟨?_, heq⟩
  have hres : cfg.mapper.reservedRowsPerBank = 0 := by
    by_contra hres
    rw [ht.reserved hres] at hstill
    cases hstill
  exact (ht.call hsound' hstep).1.mapsTo_home hdec hres ((ht.tables _).of_lookup hstill).2.2.1
    (ht.reclaimed hsound' (hhead ▸ hstill) hmig' hstep)

/-! ### Concrete runs -/

theorem smallDDR_rowLevel_pos : 0 < smallDDR.rowLevel := Nat.succ_pos 3

theorem smallSlots_pos : (0 : Int) < 2 := Int.ofNat_lt.mpr (Nat.succ_pos 1)

theorem smallSlots_lt : (2 : Int) < smallDDR.levelSize smallDDR.rowLevel :=
  Int.ofNat_lt.mpr (Nat.lt_add_of_pos_right (Nat.succ_pos 13))

/-- A plugin that migrates on every activation, with two slots, on the small instance. -/
def smallAQUA (reserved : Nat) (hlt : reserved < 16) : AQUAConfig where
  mapper :=
    { spec := smallDDR, reservedRowsPerBank := reserved, row_pos := smallDDR_rowLevel_pos, reserved_lt := hlt }
  numArtEntries := 4
  numQrowsPerBank := 2
  artThreshold := 1
  resetPeriodClk := 64
  colLevel := 5
  numCls := 2
  prefetch := 8
  qrows_pos := smallSlots_pos
  qrows_lt := smallSlots_lt

/-- An activation of a row of the first bank. -/
def activate (row : Int) : Call := .onIssue .ACT [0, 0, 0, 0, row, 0] []

/-- What a run of a small plugin shows of the first bank. -/
def smallRun (cfg : AQUAConfig) (check : AQUA → Call → Bool) (calls : List Call) :
    Except String (List (Int × Int) × List (Int × RITEntry)) :=
  (runAll (guarded check "check failed" (call cfg)) calls {}).map fun s => (s.rpt 0, s.rit 0)

theorem reached_of_smallRun {q : AQUA → Call → Bool} {p : AQUA → Call → Prop}
    (hcheck : ∀ s e, q s e = true → WellFormed cfg e ∧ p s e) {calls : List Call}
    {o : List (Int × Int) × List (Int × RITEntry)} (h : smallRun cfg q calls = .ok o) :
    ∃ s, ReachedIf cfg p {} s ∧ s.rpt 0 = o.1 ∧ s.rit 0 = o.2 := by
  obtain ⟨s, hrun, rfl⟩ := except_map_eq_ok.mp h
  exact ⟨s, reachable_runAll hcheck .start hrun, rfl, rfl⟩

/-- Three rows are quarantined, the third in place of the first; then its slot is itself migrated, in
place of the second. -/
theorem quarantine_placed_small : ∃ s, ReachedIf (smallAQUA 0 (Nat.succ_pos 15))
      (Sound (smallAQUA 0 (Nat.succ_pos 15))) {} s ∧
    s.rpt 0 = [(1, 7)] ∧ QuarantinePlaced Unit (smallAQUA 0 (Nat.succ_pos 15)) s := by
  obtain ⟨s, hs, hrpt, -⟩ := reached_of_smallRun (p := Sound (smallAQUA 0 (Nat.succ_pos 15)))
    (q := fun s e => decide (WellFormed (smallAQUA 0 (Nat.succ_pos 15)) e ∧
      Sound (smallAQUA 0 (Nat.succ_pos 15)) s e))
    (fun s e h => of_decide_eq_true h)
    (show smallRun _ _ [activate 5, activate 6, activate 7, activate 0] =
      .ok ([(1, 7)], [(1, ⟨7, true⟩), (7, ⟨1, true⟩)]) from by decide +kernel)
  exact ⟨s, hs, hrpt, quarantine_placed hs⟩

/-- With as many reserved rows as slots, the request for row 3 of the workload goes to row 5 of the
device. When row 5 is migrated to slot 0, the pair is entered under row 5 of the workload, and the
request still goes to row 5. Without reserved rows, a row that is activated once more at its own place is
in two slots, and from the start the request for row 0 of the workload goes into the region. -/
theorem quarantine_misses_rows :
    (∃ s, ReachedIf (smallAQUA 2 (Nat.lt_add_of_pos_left (Nat.succ_pos 13))) (fun _ _ => True) {} s ∧
      call (smallAQUA 2 (Nat.lt_add_of_pos_left (Nat.succ_pos 13))) (activate 5) {} = .ok s ∧
      migrates (smallAQUA 2 (Nat.lt_add_of_pos_left (Nat.succ_pos 13))) {} (activate 5) = some (0, 5) ∧
      ∃ req : Request Command Unit,
        Decodes (smallAQUA 2 (Nat.lt_add_of_pos_left (Nat.succ_pos 13))) .passThrough req req.addrVec ∧
        MapsTo (smallAQUA 2 (Nat.lt_add_of_pos_left (Nat.succ_pos 13))) {} .passThrough req 5 ∧
        ¬MapsTo (smallAQUA 2 (Nat.lt_add_of_pos_left (Nat.succ_pos 13))) s .passThrough req 0) ∧
    (∃ s, ReachedIf (smallAQUA 0 (Nat.succ_pos 15)) (fun _ _ => True) {} s ∧
      s.rpt 0 = [(1, 5), (0, 5)] ∧ ¬TablesAgree (smallAQUA 0 (Nat.succ_pos 15)) s 0) ∧
    ∃ req : Request Command Unit,
      Decodes (smallAQUA 0 (Nat.succ_pos 15)) .passThrough req req.addrVec ∧
      Ordinary (smallAQUA 0 (Nat.succ_pos 15)) {} req.addrVec ∧
      MapsTo (smallAQUA 0 (Nat.succ_pos 15)) {} .passThrough req 0 := by
  refine ⟨?_, ?_, Request.ofAddrVec [0, 0, 0, 0, 0, 0] 0, ⟨rfl, by decide⟩, nofun, _, rfl, rfl⟩
  · refine ⟨_, .step (activate 5) .start ⟨⟨by decide, trivial⟩, rfl⟩, rfl, rfl,
      Request.ofAddrVec [0, 0, 0, 0, 3, 0] 0, ⟨rfl, by decide⟩, ⟨_, rfl, rfl⟩, ?_⟩
    rintro ⟨w, hw, hrow⟩
    have hsent : (Except.ok [0, 0, 0, 0, 5, 0] : Except String AddrVec) = .ok w := hw
    cases hsent
    exact absurd hrow (by decide)
  · obtain ⟨s, hs, hrpt, -⟩ := reached_of_smallRun (p := fun _ _ => True)
      (q := fun _ e => decide (WellFormed (smallAQUA 0 (Nat.succ_pos 15)) e))
      (fun s e h => ⟨of_decide_eq_true h, trivial⟩)
      (show smallRun _ _ [activate 5, activate 5] =
        .ok ([(1, 5), (0, 5)], [(1, ⟨5, true⟩), (5, ⟨1, true⟩), (0, ⟨5, true⟩)]) from by decide +kernel)
    refine ⟨s, hs, hrpt, fun hagree => ?_⟩
    have hheld₀ : (s.rpt 0).lookup 0 = some 5 := by rw [hrpt]; rfl
    have hheld₁ : (s.rpt 0).lookup 1 = some 5 := by rw [hrpt]; rfl
    have hslots : (0 : Int) = 1 := hagree.slot_unique hheld₀ hheld₁
    cases hslots

end AQUA

end Ramulator.Controller
