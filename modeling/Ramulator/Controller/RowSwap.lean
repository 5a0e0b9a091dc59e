/-
# Ramulator.Controller.RowSwap — randomized row swap over the row indirection table.

The plugin `RRS` (`controller/plugin/impl/rrs.cpp`) counts activations per row. When the count of a
row reaches a multiple of the threshold, it exchanges the row with a cold one, chosen at random, and
enters the pair into the table of `RITAddrMapper` (`addr_mapper/impl/rit_addr_mapper.cpp`), which then
redirects accesses to either row to the other.

What the table has to agree with are the exchanges: the plugin asks for each of them by four row copies
(`issue_swap`), and `exchanges` collects them per bank. The numbers drawn and the orders in which the
loops over hash maps visit their entries are inputs of a call.
-/
import Ramulator.Controller.AddrMapper
import Ramulator.Lib.SwapTable

namespace Ramulator.Controller

open Ramulator.Base (Request)
open Ramulator.Dram Ramulator.Lib

variable {K : Type}

/-! ## The operations of the table -/

/-- `m_rit`: one map per flat bank. -/
abbrev RIT := Int → List (Int × RITEntry)

namespace RIT

def checkRit (t : RIT) (bank row : Int) : Int :=
  match (t bank).lookup row with
  | none => -1
  | some entry => entry.swappedRow

def isRitLocked (t : RIT) (bank row : Int) : Bool := ((t bank).lookup row).any (·.locked)

/-- `is_rit_full`: the budget counts pairs, and each pair has two entries. -/
def isRitFull (maxEntriesPerBank : Int) (t : RIT) (bank : Int) : Bool :=
  maxEntriesPerBank * 2 ≤ (t bank).length

def insertEntry (bank srcRow dstRow : Int) (t : RIT) : RIT :=
  Function.update t bank
    (assign dstRow ⟨srcRow, true⟩ (assign srcRow ⟨dstRow, true⟩ (t bank)))

def removeEntry (bank srcRow dstRow : Int) (t : RIT) : RIT :=
  Function.update t bank (eraseKey dstRow (eraseKey srcRow (t bank)))

/-- `get_unswap_pair`: the first entry whose row is not hot, or else the first entry. The source reads
past the end of an empty table. -/
def getUnswapPair (order : List Int) (t : RIT) (bank : Int) (hrt : List (Int × Int)) :
    Except String (Int × Int) :=
  match (visit order (t bank)).find? (fun e => (hrt.lookup e.1).isNone), visit order (t bank) with
  | some (src, entry), _ => .ok (src, entry.swappedRow)
  | none, (src, entry) :: _ => .ok (src, entry.swappedRow)
  | none, [] => .error "get_unswap_pair: the table is empty"

def ritUnlock (t : RIT) : RIT := fun bank =>
  (t bank).map fun (row, entry) => (row, { entry with locked := false })

end RIT

/-! ## The plugin -/

/-- The parameters of the plugin, and what it looks up in `setup`: the mapper, the level and the number
of cache lines of a row. -/
structure RRSConfig where
  mapper : RITAddrMapper
  numHrtEntries : Int
  numRitEntries : Int
  rssThreshold : Int
  resetPeriodClk : Int
  colLevel : Nat
  numCls : Nat
  prefetch : Int

namespace RRSConfig

def rowLevel (cfg : RRSConfig) : Nat := cfg.mapper.spec.rowLevel

/-- `m_num_rows_per_bank`. -/
def numRowsPerBank (cfg : RRSConfig) : Nat := cfg.mapper.spec.levelSize cfg.rowLevel

end RRSConfig

/-- The plugin with the table it drives. `sent` has the priority requests, each with its address and
terminal command; `exchanges` is added for the sake of statements. -/
structure RRS where
  clk : Int := 0
  hrt : Int → List (Int × Int) := fun _ => []
  spilloverCounter : Int → Int := fun _ => 0
  rit : RIT := fun _ => []
  numSwaps : Nat := 0
  numUnswaps : Nat := 0
  numReswaps : Nat := 0
  sent : List (AddrVec × Command) := []
  exchanges : Int → List (Int × Int) := fun _ => []

/-- What a notification leaves open: the orders of the two maps of its bank, and the numbers drawn. -/
structure Choices where
  hrtOrder : List Int := []
  ritOrder : List Int := []
  draws : List Int := []

namespace RRS

/-- The mapper with the current table, after `init_rit`. -/
def mapper (cfg : RRSConfig) (s : RRS) : RITAddrMapper :=
  { cfg.mapper with rit := s.rit, initialized := true }

/-- `pre_schedule`: at the end of an epoch the tracker is cleared and the table unlocked. A period of
zero cycles is a division by zero. -/
def preSchedule (cfg : RRSConfig) (s : RRS) : Except String RRS :=
  let s := { s with clk := s.clk + 1 }
  if cfg.resetPeriodClk = 0 then .error "reset_period_ns is less than a cycle"
  else if s.clk % cfg.resetPeriodClk = 0 then
    .ok { s with hrt := fun _ => [], spilloverCounter := fun _ => 0, rit := s.rit.ritUnlock }
  else .ok s

/-- The hot-row tracker on an activation: the row's new count, unless the row only spills over. -/
def track (cfg : RRSConfig) (order : List Int) (bank row : Int) (s : RRS) : RRS × Option Int :=
  let m := s.hrt bank
  match m.lookup row with
  | some c => ({ s with hrt := Function.update s.hrt bank (assign row (c + 1) m) }, some (c + 1))
  | none =>
      if m.length < cfg.numHrtEntries then
        ({ s with hrt := Function.update s.hrt bank (assign row 1 m) }, some 1)
      else
        match (visit order m).find? (fun e => e.2 = s.spilloverCounter bank) with
        | some (toRemove, value) =>
            ({ s with hrt :=
                Function.update s.hrt bank (assign row (value + 1) (eraseKey toRemove m)) },
              some (value + 1))
        | none =>
            ({ s with spilloverCounter :=
                Function.update s.spilloverCounter bank (s.spilloverCounter bank + 1) }, none)

/-- `random_cold_row`: draw until the row is neither hot, nor in the table, nor the source. The second
component are the draws that are left; without any the loop is still running. -/
def randomColdRow (s : RRS) (bank src : Int) : List Int → Except String (Int × List Int)
  | [] => .error "random_cold_row has not returned"
  | d :: draws =>
      if ((s.hrt bank).lookup d).isNone && s.rit.checkRit bank d = -1 && d ≠ src then .ok (d, draws)
      else randomColdRow s bank src draws

/-- `issue_row_copy`. -/
def issueRowCopy (cfg : RRSConfig) (templateAddr : AddrVec) (row : Int) (isWrite : Bool) :
    List (AddrVec × Command) :=
  (List.range cfg.numCls).map fun cl =>
    ((templateAddr.set cfg.rowLevel row).set cfg.colLevel (cl * cfg.prefetch),
      if isWrite then Command.WR else Command.RD)

/-- `issue_swap`: read both rows, write both rows. -/
def issueSwap (cfg : RRSConfig) (templateAddr : AddrVec) (bank srcRow dstRow : Int) (s : RRS) : RRS :=
  { s with
    sent := s.sent ++ issueRowCopy cfg templateAddr srcRow false ++
      issueRowCopy cfg templateAddr dstRow false ++ issueRowCopy cfg templateAddr dstRow true ++
      issueRowCopy cfg templateAddr srcRow true
    exchanges := Function.update s.exchanges bank (s.exchanges bank ++ [(srcRow, dstRow)]) }

/-- Undo a pair: exchange the rows again and drop the entries. -/
def unswap (cfg : RRSConfig) (addr : AddrVec) (bank src dst : Int) (s : RRS) : RRS :=
  let s := s.issueSwap cfg addr bank src dst
  { s with rit := s.rit.removeEntry bank src dst, numUnswaps := s.numUnswaps + 1 }

/-- Exchange two rows and enter the pair. -/
def freshSwap (cfg : RRSConfig) (addr : AddrVec) (bank src dst : Int) (s : RRS) : RRS :=
  let s := s.issueSwap cfg addr bank src dst
  { s with rit := s.rit.insertEntry bank src dst, numSwaps := s.numSwaps + 1 }

/-- A full table loses a pair. -/
def makeRoom (cfg : RRSConfig) (order : List Int) (addr : AddrVec) (bank : Int) (s : RRS) :
    Except String RRS :=
  if s.rit.isRitFull cfg.numRitEntries bank then do
    let (src, dst) ← s.rit.getUnswapPair order bank (s.hrt bank)
    pure (s.unswap cfg addr bank src dst)
  else pure s

/-- The branch for a row that was swapped in the current epoch: both rows of the pair move on. -/
def reswap (cfg : RRSConfig) (ch : Choices) (addr : AddrVec) (bank row prevSwapped : Int) (s : RRS) :
    Except String (RRS × List Int) := do
  let s ← s.makeRoom cfg ch.ritOrder addr bank
  let (dst0, draws) ← s.randomColdRow bank row ch.draws
  let (dst1, draws) ← s.randomColdRow bank row draws
  let s := { s with rit := s.rit.removeEntry bank row prevSwapped }
  let s := (s.issueSwap cfg addr bank row dst0).issueSwap cfg addr bank prevSwapped dst1
  pure ({ s with
    rit := (s.rit.insertEntry bank row dst1).insertEntry bank prevSwapped dst0
    numSwaps := s.numSwaps + 2
    numReswaps := s.numReswaps + 1 }, draws)

/-- The swap logic of `on_issue`, for a row that has reached the threshold. -/
def swapRow (cfg : RRSConfig) (ch : Choices) (addr : AddrVec) (bank row : Int) (s : RRS) :
    Except String (RRS × List Int) :=
  let prevSwapped := s.rit.checkRit bank row
  if prevSwapped ≠ -1 then
    if s.rit.isRitLocked bank row then s.reswap cfg ch addr bank row prevSwapped
    else do
      let (dst, draws) ← s.randomColdRow bank row ch.draws
      pure ((s.unswap cfg addr bank row prevSwapped).freshSwap cfg addr bank row dst, draws)
  else do
    let s ← s.makeRoom cfg ch.ritOrder addr bank
    let (dst, draws) ← s.randomColdRow bank row ch.draws
    pure (s.freshSwap cfg addr bank row dst, draws)

/-- `on_issue`, with the draws that are left. -/
def onIssue (cfg : RRSConfig) (c : Command) (addr : AddrVec) (ch : Choices) (s : RRS) :
    Except String (RRS × List Int) :=
  if c.commandMeta.isOpening = false ∨ c.bankTarget ≠ .single then .ok (s, ch.draws)
  else
    let bank := cfg.mapper.spec.flatBankId addr
    let row := addr.coord cfg.rowLevel
    match s.track cfg ch.hrtOrder bank row with
    | (s, none) => .ok (s, ch.draws)
    | (s, some count) =>
        if cfg.rssThreshold = 0 then .error "rss_threshold is zero"
        else if count % cfg.rssThreshold ≠ 0 then .ok (s, ch.draws)
        else s.swapRow cfg ch addr bank row

/-! ## Runs -/

/-- The notifications of the controller. -/
inductive Call where
  | preSchedule
  | onIssue (c : Command) (addr : AddrVec) (ch : Choices)

/-- One notification; the choices of `on_issue` have the numbers that it draws and no others. -/
def call (cfg : RRSConfig) (e : Call) (s : RRS) : Except String RRS :=
  match e with
  | .preSchedule => s.preSchedule cfg
  | .onIssue c addr ch => do
      let (s, draws) ← s.onIssue cfg c addr ch
      if draws = [] then pure s else .error "these numbers are not drawn"

/-- Activations are of rows of the bank, and `m_dist` draws from `[0, m_num_rows_per_bank]`. -/
def WellFormed (cfg : RRSConfig) : Call → Prop
  | .preSchedule => True
  | .onIssue c addr ch =>
      (c.commandMeta.isOpening = true →
        0 ≤ addr.coord cfg.rowLevel ∧ addr.coord cfg.rowLevel < cfg.numRowsPerBank) ∧
      ∀ d ∈ ch.draws, 0 ≤ d ∧ d ≤ cfg.numRowsPerBank

instance (cfg : RRSConfig) (e : Call) : Decidable (WellFormed cfg e) :=
  match e with
  | .preSchedule => inferInstanceAs (Decidable True)
  | .onIssue _ _ _ => inferInstanceAs (Decidable (_ ∧ _))

/-- The states that notifications satisfying `allowed` lead to. -/
def ReachedIf (cfg : RRSConfig) (allowed : RRS → Call → Prop) : RRS → Prop :=
  Reachable {} fun s e s' => (WellFormed cfg e ∧ allowed s e) ∧ call cfg e s = .ok s'

/-- The notification is of an activation that brings its row to a multiple of the threshold, and the
row is in the table, locked in the current epoch. -/
def reswaps (cfg : RRSConfig) (s : RRS) (c : Command) (addr : AddrVec) (ch : Choices) : Bool :=
  let bank := cfg.mapper.spec.flatBankId addr
  let row := addr.coord cfg.rowLevel
  c.commandMeta.isOpening && c.bankTarget = .single &&
    (s.track cfg ch.hrtOrder bank row).2.any (fun count => count % cfg.rssThreshold = 0) &&
    s.rit.checkRit bank row ≠ -1 && s.rit.isRitLocked bank row

/-- No number drawn is past the last row, and no locked pair is swapped again. -/
def Sound (cfg : RRSConfig) (s : RRS) : Call → Prop
  | .preSchedule => True
  | .onIssue c addr ch =>
      (∀ d ∈ ch.draws, d ≠ cfg.numRowsPerBank) ∧ s.reswaps cfg c addr ch = false

instance (cfg : RRSConfig) (s : RRS) (e : Call) : Decidable (Sound cfg s e) :=
  match e with
  | .preSchedule => inferInstanceAs (Decidable True)
  | .onIssue _ _ _ => inferInstanceAs (Decidable (_ ∧ _))

/-- Where the rows of a bank are: the table is an involution on rows of the bank, without fixed points,
within its capacity, and the mapper sends each row to the one row that holds its data. -/
structure RowsPlaced (K : Type) (cfg : RRSConfig) (s : RRS) (bank : Int) : Prop where
  involution : ∀ row entry, (s.rit bank).lookup row = some entry →
    (0 ≤ row ∧ row < cfg.numRowsPerBank) ∧ entry.swappedRow ≠ row ∧
      ∃ entry', (s.rit bank).lookup entry.swappedRow = some entry' ∧ entry'.swappedRow = row
  capacity : KeysNodup (s.rit bank) ∧ (s.rit bank).length ≤ (cfg.numRitEntries * 2).toNat
  apply : ∀ (base : AddrMapper) (req : Request Command K) (v : AddrVec), base.apply req = .ok v →
    cfg.mapper.spec.flatBankId v = bank →
    (AddrMapper.rit (s.mapper cfg) base).apply req =
      .ok (v.set cfg.rowLevel ((contents (s.exchanges bank)).symm (v.coord cfg.rowLevel)))

/-! ## One bank's table

`swapped` forgets the locks; the lemmas below say what entering and dropping a pair does to a table that
agrees with its exchanges. -/

/-- Where the table sends a row. -/
def swapped (m : List (Int × RITEntry)) (row : Int) : Option Int := (m.lookup row).map (·.swappedRow)

/-- The table `m` of a bank agrees with the exchanges `l`. -/
structure TableOk (cfg : RRSConfig) (m : List (Int × RITEntry)) (l : List (Int × Int)) : Prop where
  nodup : KeysNodup m
  pairing : Pairing (swapped m)
  inRange : ∀ {row row'}, swapped m row = some row' → 0 ≤ row ∧ row < cfg.numRowsPerBank
  even : 2 ∣ m.length
  capacity : m.length ≤ (cfg.numRitEntries * 2).toNat
  placed : Placed (swapped m) l

variable {cfg : RRSConfig} {m : List (Int × RITEntry)} {l : List (Int × Int)} {src dst row : Int}

theorem swapped_insert (m : List (Int × RITEntry)) (src dst : Int) :
    swapped (assign dst ⟨src, true⟩ (assign src ⟨dst, true⟩ m)) = addPair (swapped m) src dst := by
  funext x
  unfold swapped addPair
  rw [lookup_assign, lookup_assign]
  by_cases hd : x = dst
  · simp [hd]
  · by_cases hs : x = src
    · simp [hs, hs ▸ hd]
    · simp [hd, hs]

theorem swapped_remove (m : List (Int × RITEntry)) (src dst : Int) :
    swapped (eraseKey dst (eraseKey src m)) = dropPair (swapped m) src dst := by
  funext x
  unfold swapped dropPair
  rw [lookup_eraseKey, lookup_eraseKey]
  by_cases hd : x = dst
  · simp [hd]
  · by_cases hs : x = src
    · simp [hs]
    · simp [hd, hs]

theorem swapped_unlock (m : List (Int × RITEntry)) :
    swapped (m.map fun (row, entry) => (row, { entry with locked := false })) = swapped m := by
  funext x
  unfold swapped
  induction m with
  | nil => rfl
  | cons e m ih =>
      rw [List.map_cons, List.lookup_cons, List.lookup_cons]
      cases x == e.1
      · exact ih
      · rfl

theorem lookup_eq_none_of_swapped (h : swapped m row = none) : m.lookup row = none :=
  Option.map_eq_none_iff.mp h

theorem exists_lookup_of_swapped (h : swapped m src = some dst) : ∃ entry, m.lookup src = some entry := by
  obtain ⟨entry, hentry, -⟩ := Option.map_eq_some_iff.mp h
  exact ⟨entry, hentry⟩

/-- In a table of rows, `-1` stands for a missing entry only. -/
theorem TableOk.checkRit_iff {t : RIT} {bank : Int} (h : TableOk cfg (t bank) l) :
    (t.checkRit bank row = -1 ↔ swapped (t bank) row = none) ∧
      (t.checkRit bank row ≠ -1 → swapped (t bank) row = some (t.checkRit bank row)) := by
  unfold RIT.checkRit
  cases hrow : (t bank).lookup row with
  | none =>
      refine ⟨iff_of_true rfl (by rw [swapped, hrow]; rfl), fun hne => absurd rfl hne⟩
  | some entry =>
      have hsw : swapped (t bank) row = some entry.swappedRow := by rw [swapped, hrow]; rfl
      have hpos := (h.inRange (h.pairing.symm hsw)).1
      refine ⟨iff_of_false ?_ (by rw [hsw]; nofun), fun _ => hsw⟩
      show ¬entry.swappedRow = -1
      omega

theorem tableOk_nil (cfg : RRSConfig) : TableOk cfg [] [] where
  nodup := List.nodup_nil
  pairing := ⟨nofun, nofun⟩
  inRange := nofun
  even := Nat.dvd_zero 2
  capacity := Nat.zero_le _
  placed := fun _ => rfl

theorem TableOk.unlock (h : TableOk cfg m l) :
    TableOk cfg (m.map fun (row, entry) => (row, { entry with locked := false })) l := by
  refine ⟨?_, ?_, ?_, ?_, ?_, ?_⟩
  · show (List.map Prod.fst (m.map _)).Nodup
    rw [List.map_map]
    exact h.nodup
  · rw [swapped_unlock]
    exact h.pairing
  · rw [swapped_unlock]
    exact h.inRange
  · rw [List.length_map]
    exact h.even
  · rw [List.length_map]
    exact h.capacity
  · rw [swapped_unlock]
    exact h.placed

/-- Dropping a pair after its rows have been exchanged back. -/
theorem TableOk.remove (h : TableOk cfg m l) (hpair : swapped m src = some dst) :
    TableOk cfg (eraseKey dst (eraseKey src m)) (l ++ [(src, dst)]) ∧
      (eraseKey dst (eraseKey src m)).length + 2 = m.length := by
  obtain ⟨entry, hsrc⟩ := exists_lookup_of_swapped hpair
  obtain ⟨entry', hdst⟩ := exists_lookup_of_swapped (h.pairing.symm hpair)
  have hne : dst ≠ src := by
    rintro rfl
    exact h.pairing.irrefl dst hpair
  have hlen₁ := h.nodup.length_eraseKey hsrc
  have hdst' : (eraseKey src m).lookup dst = some entry' := by
    rw [lookup_eraseKey, beq_eq_false_iff_ne.mpr hne]
    exact hdst
  have hlen₂ := (h.nodup.eraseKey src).length_eraseKey hdst'
  have hlen : (eraseKey dst (eraseKey src m)).length + 2 = m.length := by omega
  have heven := h.even
  have hcap := h.capacity
  refine ⟨⟨(h.nodup.eraseKey src).eraseKey dst, ?_, ?_, by omega, by omega, ?_⟩, hlen⟩
  · rw [swapped_remove]
    exact h.pairing.drop hpair
  · rw [swapped_remove]
    intro row row' hrow
    unfold dropPair at hrow
    split_ifs at hrow
    exact h.inRange hrow
  · rw [swapped_remove]
    exact h.placed.drop h.pairing hpair

/-- Entering a pair after its rows have been exchanged. -/
theorem TableOk.insert (h : TableOk cfg m l) (hsrc : swapped m src = none)
    (hdst : swapped m dst = none) (hne : src ≠ dst)
    (hsrcRange : 0 ≤ src ∧ src < cfg.numRowsPerBank)
    (hdstRange : 0 ≤ dst ∧ dst < cfg.numRowsPerBank)
    (hroom : m.length + 2 ≤ (cfg.numRitEntries * 2).toNat) :
    TableOk cfg (assign dst ⟨src, true⟩ (assign src ⟨dst, true⟩ m)) (l ++ [(src, dst)]) := by
  have hdst' : (assign src (⟨dst, true⟩ : RITEntry) m).lookup dst = none := by
    rw [lookup_assign, beq_eq_false_iff_ne.mpr hne.symm]
    exact lookup_eq_none_of_swapped hdst
  have hlen : (assign dst (⟨src, true⟩ : RITEntry) (assign src ⟨dst, true⟩ m)).length = m.length + 2 := by
    rw [assign, eraseKey_of_lookup_none hdst', assign,
      eraseKey_of_lookup_none (lookup_eq_none_of_swapped hsrc)]
    rfl
  have heven := h.even
  refine ⟨(h.nodup.assign src _).assign dst _, ?_, ?_, by omega, by omega, ?_⟩
  · rw [swapped_insert]
    exact h.pairing.add hsrc hdst hne
  · rw [swapped_insert]
    intro row row' hrow
    unfold addPair at hrow
    split_ifs at hrow with h₁ h₂
    · exact h₁ ▸ hdstRange
    · exact h₂ ▸ hsrcRange
    · exact h.inRange hrow
  · rw [swapped_insert]
    exact h.placed.add h.pairing hsrc hdst hne

/-! ## All tables -/

variable {s s' : RRS} {bank : Int} {addr : AddrVec} {ch : Choices}

/-- Every bank's table agrees with the exchanges asked for in that bank. -/
def Inv (cfg : RRSConfig) (s : RRS) : Prop := ∀ bank, TableOk cfg (s.rit bank) (s.exchanges bank)

/-- A change to one bank. -/
theorem Inv.update (h : Inv cfg s) {m : List (Int × RITEntry)} {l : List (Int × Int)}
    (hm : TableOk cfg m l) (hrit : s'.rit = Function.update s.rit bank m)
    (hex : s'.exchanges = Function.update s.exchanges bank l) : Inv cfg s' := by
  intro b
  rw [hrit, hex]
  by_cases hb : b = bank
  · subst hb
    rw [Function.update_self, Function.update_self]
    exact hm
  · rw [Function.update_of_ne hb, Function.update_of_ne hb]
    exact h b

theorem Inv.unswap (h : Inv cfg s) (addr : AddrVec) (hpair : swapped (s.rit bank) src = some dst) :
    Inv cfg (s.unswap cfg addr bank src dst) ∧
      ((s.unswap cfg addr bank src dst).rit bank).length + 2 = (s.rit bank).length ∧
      swapped ((s.unswap cfg addr bank src dst).rit bank) = dropPair (swapped (s.rit bank)) src dst := by
  obtain ⟨hok, hlen⟩ := (h bank).remove hpair
  have hrit : (s.unswap cfg addr bank src dst).rit bank =
      eraseKey dst (eraseKey src (s.rit bank)) := Function.update_self ..
  rw [hrit, swapped_remove]
  exact ⟨h.update hok rfl rfl, hlen, rfl⟩

theorem Inv.freshSwap (h : Inv cfg s) (hsrc : swapped (s.rit bank) src = none)
    (hdst : swapped (s.rit bank) dst = none) (hne : src ≠ dst)
    (hsrcRange : 0 ≤ src ∧ src < cfg.numRowsPerBank)
    (hdstRange : 0 ≤ dst ∧ dst < cfg.numRowsPerBank)
    (hroom : (s.rit bank).length + 2 ≤ (cfg.numRitEntries * 2).toNat) :
    Inv cfg (s.freshSwap cfg addr bank src dst) :=
  h.update ((h bank).insert hsrc hdst hne hsrcRange hdstRange hroom) rfl rfl

/-- The tracker leaves the table alone. -/
theorem track_frame (cfg : RRSConfig) (order : List Int) (bank row : Int) (s : RRS) :
    (s.track cfg order bank row).1.rit = s.rit ∧
      (s.track cfg order bank row).1.exchanges = s.exchanges := by
  unfold track
  dsimp only
  cases (s.hrt bank).lookup row with
  | some c => exact ⟨rfl, rfl⟩
  | none =>
      dsimp only
      split_ifs
      · exact ⟨rfl, rfl⟩
      · cases (visit order (s.hrt bank)).find? fun e => e.2 = s.spilloverCounter bank with
        | none => exact ⟨rfl, rfl⟩
        | some e => exact ⟨rfl, rfl⟩

/-- What `random_cold_row` returns was drawn, is not in the table and is not the source. -/
theorem randomColdRow_eq_ok {draws rest : List Int} {d : Int}
    (h : s.randomColdRow bank src draws = .ok (d, rest)) :
    d ∈ draws ∧ s.rit.checkRit bank d = -1 ∧ d ≠ src := by
  induction draws with
  | nil => cases h
  | cons x draws ih =>
      unfold randomColdRow at h
      split_ifs at h with hcold
      · cases h
        simp only [Bool.and_eq_true, decide_eq_true_eq] at hcold
        exact ⟨List.mem_cons_self, hcold.1.2, hcold.2⟩
      · obtain ⟨hmem, hrest⟩ := ih h
        exact ⟨List.mem_cons_of_mem _ hmem, hrest⟩

/-- The pair to undo is a pair of the table. -/
theorem getUnswapPair_eq_ok {order : List Int} {t : RIT} {hrt : List (Int × Int)}
    (hnodup : KeysNodup (t bank)) (h : t.getUnswapPair order bank hrt = .ok (src, dst)) :
    swapped (t bank) src = some dst := by
  have hvisit : ∀ e, e ∈ visit order (t bank) → swapped (t bank) e.1 = some e.2.swappedRow := by
    intro e he
    rw [swapped, lookup_of_mem_visit hnodup he]
    rfl
  unfold RIT.getUnswapPair at h
  split at h
  · rename_i hfind
    cases h
    exact hvisit _ (List.mem_of_find?_eq_some hfind)
  · rename_i hlist
    cases h
    exact hvisit _ (hlist ▸ List.mem_cons_self)
  · cases h

/-- Room for one more pair, made without entering any row. -/
theorem Inv.makeRoom {order : List Int} (h : Inv cfg s)
    (hroom : s.makeRoom cfg order addr bank = .ok s') :
    Inv cfg s' ∧ (s'.rit bank).length + 2 ≤ (cfg.numRitEntries * 2).toNat ∧
      ∀ row, swapped (s.rit bank) row = none → swapped (s'.rit bank) row = none := by
  unfold RRS.makeRoom at hroom
  split_ifs at hroom with hfull
  · obtain ⟨⟨src, dst⟩, hpair, heq⟩ := except_bind_eq_ok.mp hroom
    obtain rfl := Except.ok.inj heq
    obtain ⟨hinv, hlen, hswapped⟩ :=
      h.unswap addr (getUnswapPair_eq_ok (h bank).nodup hpair)
    have hcap := (h bank).capacity
    refine ⟨hinv, by omega, fun row hrow => ?_⟩
    show swapped ((s.unswap cfg addr bank src dst).rit bank) row = none
    rw [hswapped, dropPair, hrow, ite_self]
  · obtain rfl := Except.ok.inj hroom
    have heven := (h bank).even
    unfold RIT.isRitFull at hfull
    rw [decide_eq_true_eq] at hfull
    exact ⟨h, by omega, fun _ hrow => hrow⟩

/-- The swap logic, when it does not swap a locked pair again. -/
theorem Inv.swapRow {rest : List Int} (h : Inv cfg s) (hrow : 0 ≤ row ∧ row < cfg.numRowsPerBank)
    (hdraws : ∀ d ∈ ch.draws, 0 ≤ d ∧ d < cfg.numRowsPerBank)
    (hlocked : s.rit.checkRit bank row ≠ -1 → s.rit.isRitLocked bank row = false)
    (hswap : s.swapRow cfg ch addr bank row = .ok (s', rest)) : Inv cfg s' := by
  unfold RRS.swapRow at hswap
  dsimp only at hswap
  split_ifs at hswap with hprev hlock
  · rw [hlocked hprev] at hlock
    cases hlock
  · -- swapped in an earlier epoch: undo the pair, then swap
    obtain ⟨⟨dst, draws⟩, hdst, heq⟩ := except_bind_eq_ok.mp hswap
    obtain ⟨rfl, rfl⟩ := Prod.mk.inj (Except.ok.inj heq)
    obtain ⟨hmem, hcold, hne⟩ := randomColdRow_eq_ok hdst
    have hpair := (h bank).checkRit_iff.2 hprev
    have hfree : swapped (s.rit bank) dst = none := (h bank).checkRit_iff.1.mp hcold
    obtain ⟨hinv, hlen, hswapped⟩ := h.unswap addr hpair
    have hcap := (h bank).capacity
    refine hinv.freshSwap ?_ ?_ hne.symm hrow (hdraws dst hmem) (by omega)
    · rw [hswapped, dropPair, if_pos (.inl rfl)]
    · rw [hswapped, dropPair, hfree, ite_self]
  · -- not in the table
    obtain ⟨s₁, hroom, hswap⟩ := except_bind_eq_ok.mp hswap
    obtain ⟨⟨dst, draws⟩, hdst, heq⟩ := except_bind_eq_ok.mp hswap
    obtain ⟨rfl, rfl⟩ := Prod.mk.inj (Except.ok.inj heq)
    obtain ⟨hmem, hcold, hne⟩ := randomColdRow_eq_ok hdst
    obtain ⟨hinv, hlen, hkept⟩ := h.makeRoom hroom
    have hfree := (h bank).checkRit_iff.1.mp (not_not.mp hprev)
    exact hinv.freshSwap (hkept row hfree) ((hinv bank).checkRit_iff.1.mp hcold) hne.symm hrow
      (hdraws dst hmem) hlen

/-- One notification. -/
theorem Inv.call {e : Call} (h : Inv cfg s) (hwf : WellFormed cfg e) (hsound : Sound cfg s e)
    (hcall : call cfg e s = .ok s') : Inv cfg s' := by
  cases e with
  | preSchedule =>
      unfold RRS.call preSchedule at hcall
      dsimp only at hcall
      split_ifs at hcall
      · cases hcall
        exact fun b => (h b).unlock
      · cases hcall
        exact h
  | onIssue c addr ch =>
      obtain ⟨⟨s₁, rest⟩, hissue, hrest⟩ := except_bind_eq_ok.mp hcall
      dsimp only at hrest
      split_ifs at hrest
      obtain rfl := Except.ok.inj hrest
      unfold onIssue at hissue
      by_cases hact : c.commandMeta.isOpening = false ∨ c.bankTarget ≠ .single
      · rw [if_pos hact] at hissue
        cases hissue
        exact h
      · rw [if_neg hact] at hissue
        obtain ⟨hopen, hsingle⟩ := not_or.mp hact
        rw [Bool.not_eq_false] at hopen
        rw [not_not] at hsingle
        obtain ⟨hrit, hex⟩ := track_frame cfg ch.hrtOrder (cfg.mapper.spec.flatBankId addr)
          (addr.coord cfg.rowLevel) s
        dsimp only at hissue
        rcases htrack : s.track cfg ch.hrtOrder (cfg.mapper.spec.flatBankId addr)
          (addr.coord cfg.rowLevel) with ⟨s₂, count⟩
        rw [htrack] at hrit hex hissue
        have h₂ : Inv cfg s₂ := by
          intro b
          rw [show s₂.rit = s.rit from hrit, show s₂.exchanges = s.exchanges from hex]
          exact h b
        cases count with
        | none =>
            cases hissue
            exact h₂
        | some count =>
            dsimp only at hissue
            split_ifs at hissue with hzero hcount
            · cases hissue
              exact h₂
            · refine h₂.swapRow (hwf.1 hopen) (fun d hd => ?_) (fun hprev => ?_) hissue
              · have hrange := hwf.2 d hd
                have hne := hsound.1 d hd
                omega
              · -- a locked row would make this a re-swap
                rw [show s₂.rit = s.rit from hrit] at hprev ⊢
                have hnot := hsound.2
                have hreached : (some count).any (fun c => decide (c % cfg.rssThreshold = 0)) = true :=
                  decide_eq_true (not_not.mp hcount)
                unfold reswaps at hnot
                dsimp only at hnot
                rw [htrack, hreached] at hnot
                simpa [hopen, hsingle, hprev] using hnot

/-- Without reserved rows a mapper with a table sends a row where the table does. -/
theorem redirect_of_table (t : RITAddrMapper) (hinit : t.initialized = true)
    (hres : t.reservedRowsPerBank = 0) (addr : AddrVec) :
    t.redirect addr = .ok (addr.set t.spec.rowLevel
      (partner (swapped (t.rit (t.spec.flatBankId addr))) (addr.coord t.spec.rowLevel))) := by
  have hnoshift : ∀ v, t.shift v = .ok v := by
    intro v
    unfold RITAddrMapper.shift
    rw [if_neg (by simp [hres])]
  unfold RITAddrMapper.redirect
  rw [hnoshift]
  unfold RITAddrMapper.swap partner swapped
  rw [if_pos hinit]
  cases (t.rit (t.spec.flatBankId addr)).lookup (addr.coord t.spec.rowLevel) with
  | some entry => rfl
  | none =>
      show Except.ok addr = .ok (addr.set t.spec.rowLevel (addr.getD t.spec.rowLevel (-1)))
      congr 1
      refine List.ext_getElem? fun i => ?_
      rw [List.getElem?_set]
      split_ifs with hi hlt
      · subst hi
        rw [List.getD_eq_getElem?_getD, List.getElem?_eq_getElem hlt]
        rfl
      · subst hi
        exact List.getElem?_eq_none (Nat.le_of_not_lt hlt)
      · rfl

theorem redirect_eq (hres : cfg.mapper.reservedRowsPerBank = 0) (s : RRS) (addr : AddrVec) :
    (s.mapper cfg).redirect addr =
      .ok (addr.set cfg.rowLevel
        (partner (swapped (s.rit (cfg.mapper.spec.flatBankId addr))) (addr.coord cfg.rowLevel))) :=
  redirect_of_table (s.mapper cfg) rfl hres addr

/-- As long as no locked pair is swapped again and no number past the last row is drawn, the table of
every bank is an involution within its capacity, and the mapper finds the data of every row where the
exchanges have put it. -/
theorem rows_placed (hres : cfg.mapper.reservedRowsPerBank = 0)
    (hs : ReachedIf cfg (Sound cfg) s) (bank : Int) : RowsPlaced K cfg s bank := by
  have hinv : Inv cfg s := hs.invariant (Inv cfg) (fun _ => tableOk_nil cfg)
    fun s e s' h ⟨⟨hwf, hsound⟩, hcall⟩ => h.call hwf hsound hcall
  have h := hinv bank
  refine ⟨fun row entry hrow => ?_, ⟨h.nodup, h.capacity⟩, ?_⟩
  · have hsw : swapped (s.rit bank) row = some entry.swappedRow := by
      rw [swapped, hrow]
      rfl
    obtain ⟨entry', hentry', heq⟩ := Option.map_eq_some_iff.mp (h.pairing.symm hsw)
    refine ⟨h.inRange hsw, fun hfix => ?_, entry', hentry', heq⟩
    exact h.pairing.irrefl row (hfix ▸ hsw)
  · rintro base req v hv rfl
    show base.apply req >>= (s.mapper cfg).redirect = _
    rw [hv, h.placed.eq_symm]
    exact redirect_eq hres s v

/-! ### Concrete runs -/

/-- A plugin that swaps on every activation, with room for two pairs, on the small instance. -/
def smallRRS : RRSConfig where
  mapper := { spec := smallDDR, row_pos := Nat.succ_pos 3, reserved_lt := Nat.succ_pos 15 }
  numHrtEntries := 4
  numRitEntries := 2
  rssThreshold := 1
  resetPeriodClk := 1
  colLevel := 5
  numCls := 2
  prefetch := 8

/-- An activation of a row of the first bank, during which the given numbers are drawn. -/
def activate (row : Int) (draws : List Int) : Call :=
  .onIssue .ACT [0, 0, 0, 0, row, 0] { draws := draws }

/-- What a run of the small plugin shows of the first bank. -/
def smallRun (check : RRS → Call → Bool) (calls : List Call) :
    Except String (List (Int × RITEntry) × List (Int × Int)) :=
  (runAll (guarded check "check failed" (call smallRRS)) calls {}).map fun s =>
    (s.rit 0, s.exchanges 0)

theorem reached_of_smallRun {q : RRS → Call → Bool} {p : RRS → Call → Prop}
    (hcheck : ∀ s e, q s e = true → WellFormed smallRRS e ∧ p s e) {calls : List Call}
    {o : List (Int × RITEntry) × List (Int × Int)} (h : smallRun q calls = .ok o) :
    ∃ s, ReachedIf smallRRS p s ∧ s.rit 0 = o.1 ∧ s.exchanges 0 = o.2 := by
  obtain ⟨s, hrun, rfl⟩ := except_map_eq_ok.mp h
  exact ⟨s, reachable_runAll hcheck .start hrun, rfl, rfl⟩

/-- Three rows are swapped, with an epoch between, and the third swap undoes a pair. -/
theorem rows_placed_small : ∃ s, ReachedIf smallRRS (Sound smallRRS) s ∧
    s.exchanges 0 = [(0, 5), (1, 6), (0, 5), (0, 7), (7, 0), (2, 8)] ∧ RowsPlaced Unit smallRRS s 0 := by
  obtain ⟨s, hs, -, hex⟩ := reached_of_smallRun (p := Sound smallRRS)
    (q := fun s e => decide (WellFormed smallRRS e ∧ Sound smallRRS s e))
    (fun s e h => of_decide_eq_true h)
    (show smallRun _ [activate 0 [5], activate 1 [6], .preSchedule, activate 0 [7], activate 2 [8]] =
      .ok ([(8, ⟨2, true⟩), (2, ⟨8, true⟩), (6, ⟨1, false⟩), (1, ⟨6, false⟩)],
        [(0, 5), (1, 6), (0, 5), (0, 7), (7, 0), (2, 8)]) from by decide +kernel)
  exact ⟨s, hs, hex, rows_placed rfl hs 0⟩

/-- A row that is activated twice in an epoch is swapped again, and the two cold rows are entered with
the wrong partners: the data of row 6 is in row 0, and the mapper looks for it in row 5. And a number
past the last row may be drawn, so that data moves to a row that does not exist. -/
theorem reswap_misplaces_rows :
    (∃ s, ReachedIf smallRRS (fun _ _ => True) s ∧ (contents (s.exchanges 0)).symm 6 = 0 ∧
      s.rit.checkRit 0 6 = 5 ∧ ¬RowsPlaced Unit smallRRS s 0) ∧
    ∃ s, ReachedIf smallRRS (fun _ _ => True) s ∧ s.rit.checkRit 0 0 = 16 ∧
      smallRRS.numRowsPerBank = 16 ∧ ¬RowsPlaced Unit smallRRS s 0 := by
  constructor
  · obtain ⟨s, hs, hrit, hex⟩ := reached_of_smallRun (p := fun _ _ => True)
      (q := fun _ e => decide (WellFormed smallRRS e))
      (fun s e h => ⟨of_decide_eq_true h, trivial⟩)
      (show smallRun _ [activate 0 [5], activate 0 [6, 7]] =
        .ok ([(6, ⟨5, true⟩), (5, ⟨6, true⟩), (7, ⟨0, true⟩), (0, ⟨7, true⟩)],
          [(0, 5), (0, 6), (5, 7)]) from by decide +kernel)
    have hheld : (contents (s.exchanges 0)).symm 6 = 0 := by
      rw [hex, Equiv.symm_apply_eq]
      decide
    refine ⟨s, hs, hheld, ?_, fun hplaced => ?_⟩
    · unfold RIT.checkRit
      rw [hrit]
      rfl
    · have happly : (s.mapper smallRRS).redirect [0, 0, 0, 0, 6, 0] =
          .ok ([0, 0, 0, 0, 6, 0].set 4 ((contents (s.exchanges 0)).symm 6)) :=
        hplaced.apply .passThrough (Request.ofAddrVec [0, 0, 0, 0, 6, 0] 0) _ rfl rfl
      rw [hheld] at happly
      have hsent : (s.mapper smallRRS).redirect [0, 0, 0, 0, 6, 0] = .ok [0, 0, 0, 0, 5, 0] := by
        rw [redirect_eq rfl, show smallRRS.mapper.spec.flatBankId [0, 0, 0, 0, 6, 0] = 0 from rfl, hrit]
        rfl
      cases hsent.symm.trans happly
  · obtain ⟨s, hs, hrit, -⟩ := reached_of_smallRun (p := fun _ _ => True)
      (q := fun _ e => decide (WellFormed smallRRS e))
      (fun s e h => ⟨of_decide_eq_true h, trivial⟩)
      (show smallRun _ [activate 0 [16]] =
        .ok ([(16, ⟨0, true⟩), (0, ⟨16, true⟩)], [(0, 16)]) from by decide +kernel)
    refine ⟨s, hs, ?_, rfl, fun hplaced => ?_⟩
    · unfold RIT.checkRit
      rw [hrit]
      rfl
    · obtain ⟨⟨-, hlt⟩, -⟩ := hplaced.involution 16 ⟨0, true⟩ (by rw [hrit]; rfl)
      exact absurd hlt (by decide)

end RRS

end Ramulator.Controller
