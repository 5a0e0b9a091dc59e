/-
# Ramulator.Controller.IdealTRR — a row tracker that forgets nothing.

`IdealTRR` (`controller/plugin/impl/ideal_trr.cpp`) counts every activation of every row. On a
refresh-management command it requests a `VRR` for the rows with the highest counts of every bank that the
command targets, and zeroes these counts. It selects and addresses rows as `SamsungTRR` does.

`RFMManager` makes the refresh-management commands. Its requests wait in the priority buffer, so a bank may
see more activations before the command is issued; how many is a parameter of the last result.
-/
import Ramulator.Controller.RFMManager
import Ramulator.Controller.SamsungTRR
import Ramulator.Lib.TopCounts
import Mathlib.Data.Finset.Max

namespace Ramulator.Controller

open Ramulator.Base (Request)
open Ramulator.Dram Ramulator.Lib

variable {K : Type}

/-- The parameters, and what `setup` reads of the standard. -/
structure IdealTRRConfig where
  spec : Standard
  channelId : Int
  numRowsPerRfm : Nat := 1
  bankgroupLevel : Option Nat
  rows_pos : 1 ≤ numRowsPerRfm
  ranks_pos : 0 < spec.levelSize 1
  row_gt : spec.bankLevel < spec.rowLevel
  levels : bankgroupLevel = some 2 ∧ spec.bankLevel = 3 ∨ bankgroupLevel = none ∧ spec.bankLevel = 2

/-- What the selection of rows and the addresses of their refreshes depend on; neither reads the size of
a table. -/
def IdealTRRConfig.sampler (cfg : IdealTRRConfig) : SamsungTRRConfig :=
  { cfg with numTableEntries := 0 }

structure IdealTRR where
  counterTable : Int → List (Int × Int) := fun _ => []

namespace IdealTRR

/-- A notification: the tables afterwards, and the requests in order. -/
structure Served (K : Type) where
  state : IdealTRR
  sends : List (Request Command K) := []

def setTable (bank : Int) (m : List (Int × Int)) (s : IdealTRR) : IdealTRR :=
  { s with counterTable := Function.update s.counterTable bank m }

/-- `process_act`. -/
def processAct (cfg : IdealTRRConfig) (addr : AddrVec) (s : IdealTRR) : IdealTRR :=
  let bank := cfg.spec.flatBankId addr
  let row := addr.coord cfg.spec.rowLevel
  s.setTable bank (assign row (((s.counterTable bank).lookup row).getD 0 + 1) (s.counterTable bank))

/-- The rows that are refreshed, those with the highest counts first. -/
def chosen (cfg : IdealTRRConfig) (order : List Int) (table : List (Int × Int)) : List Int :=
  (SamsungTRR.selected cfg.sampler order table).map Prod.fst

/-- `process_rfm_for_bank`. -/
def processRfmForBank (cfg : IdealTRRConfig) (addr : AddrVec) (order : Int → List Int) (bank : Int)
    (out : Served K) : Served K :=
  let table := out.state.counterTable bank
  if table = [] then out
  else
    let rows := chosen cfg (order bank) table
    { state := out.state.setTable bank (rows.foldl (fun m row => assign row 0 m) table)
      sends := out.sends ++ rows.map fun row => vrrRequest (SamsungTRR.vrrAddr cfg.sampler addr bank row) }

/-- `on_issue`. The order in which hash maps are visited is an input. -/
def onIssue (cfg : IdealTRRConfig) (c : Command) (addr : AddrVec) (order : Int → List Int) (s : IdealTRR) :
    Served K :=
  if SamsungTRR.isRfm c then
    (cfg.spec.targetBanks cfg.channelId c addr).foldl (fun out bank => processRfmForBank cfg addr order bank out)
      { state := s }
  else if c ≠ .ACT then { state := s }
  else { state := processAct cfg addr s }

/-! ## One command -/

variable {cfg : IdealTRRConfig} {s : IdealTRR} {addr : AddrVec} {order : Int → List Int} {out out' : Served K}
  {banks : List Int} {bank b row : Int} {c : Command}

/-- A request is for a row of a bank. -/
def Refreshes (cfg : IdealTRRConfig) (bank row : Int) (r : Request Command K) : Prop :=
  cfg.spec.flatBankId r.addrVec = bank ∧ r.addrVec.coord cfg.spec.rowLevel = row

/-- The table of a bank after its refreshes. -/
def cleared (cfg : IdealTRRConfig) (order : List Int) (table : List (Int × Int)) : List (Int × Int) :=
  (chosen cfg order table).foldl (fun m row => assign row 0 m) table

@[simp] theorem chosen_nil (cfg : IdealTRRConfig) (order : List Int) : chosen cfg order [] = [] := by
  simp [chosen, SamsungTRR.selected]

/-- Empty tables need no case of their own. -/
theorem processRfmForBank_eq (cfg : IdealTRRConfig) (addr : AddrVec) (order : Int → List Int) (bank : Int)
    (out : Served K) :
    processRfmForBank cfg addr order bank out =
      { state := out.state.setTable bank (cleared cfg (order bank) (out.state.counterTable bank))
        sends := out.sends ++ (chosen cfg (order bank) (out.state.counterTable bank)).map fun row =>
          vrrRequest (SamsungTRR.vrrAddr cfg.sampler addr bank row) } := by
  unfold processRfmForBank
  dsimp only
  split
  · rename_i hempty
    have hsame : out.state.setTable bank [] = out.state := by
      unfold setTable
      rw [← hempty, Function.update_eq_self]
    rw [hempty, cleared, chosen_nil, List.foldl_nil, List.map_nil, List.append_nil, hsame]
  · rfl

/-- What the loop over the target banks does. -/
structure Processed (cfg : IdealTRRConfig) (addr : AddrVec) (order : Int → List Int) (banks : List Int)
    (out out' : Served K) : Prop where
  targets : ∀ b ∈ banks, out'.state.counterTable b = cleared cfg (order b) (out.state.counterTable b)
  others : ∀ b, b ∉ banks → out'.state.counterTable b = out.state.counterTable b
  sends : out'.sends = out.sends ++ banks.flatMap fun b =>
    (chosen cfg (order b) (out.state.counterTable b)).map fun row =>
      vrrRequest (SamsungTRR.vrrAddr cfg.sampler addr b row)

theorem processed (hbanks : banks.Nodup) (out : Served K) :
    Processed cfg addr order banks out
      (banks.foldl (fun out bank => processRfmForBank cfg addr order bank out) out) := by
  induction banks generalizing out with
  | nil => exact ⟨fun b hb => absurd hb List.not_mem_nil, fun _ _ => rfl, (List.append_nil _).symm⟩
  | cons bank banks ih =>
      obtain ⟨hbank, hbanks⟩ := List.nodup_cons.mp hbanks
      have hrest := ih hbanks (processRfmForBank cfg addr order bank out)
      rw [List.foldl_cons]
      rw [processRfmForBank_eq] at hrest ⊢
      -- the first bank is done with, and the others are as they were
      have hother : ∀ b, b ≠ bank → (out.state.setTable bank
          (cleared cfg (order bank) (out.state.counterTable bank))).counterTable b = out.state.counterTable b :=
        fun b hb => Function.update_of_ne hb ..
      refine ⟨?_, ?_, ?_⟩
      · intro b hb
        rcases List.mem_cons.mp hb with rfl | hb
        · rw [hrest.others b hbank]
          exact Function.update_self ..
        · rw [hrest.targets b hb]
          exact congrArg _ (hother b fun heq => hbank (heq ▸ hb))
      · intro b hb
        rw [List.mem_cons, not_or] at hb
        rw [hrest.others b hb.2]
        exact hother b hb.1
      · rw [hrest.sends, List.flatMap_cons, ← List.append_assoc]
        congr 1
        refine List.flatMap_congr fun b hb => ?_
        rw [hother b fun heq => hbank (heq ▸ hb)]

theorem onIssue_rfm (hc : SamsungTRR.isRfm c = true) (s : IdealTRR) :
    Processed cfg addr order (cfg.spec.targetBanks cfg.channelId c addr) { state := s }
      (onIssue (K := K) cfg c addr order s) := by
  rw [onIssue, if_pos hc]
  exact processed (Standard.nodup_targetBanks _ _ _ _) _

/-- The rows whose refreshes are requested are the chosen ones of the target banks. -/
theorem refreshes_iff (h : Processed cfg addr order banks { state := s } out')
    (haddr : cfg.spec.rowLevel < addr.length) (bank row : Int) :
    (∃ r ∈ out'.sends, Refreshes cfg bank row r) ↔
      bank ∈ banks ∧ row ∈ chosen cfg (order bank) (s.counterTable bank) := by
  rw [h.sends, List.nil_append]
  constructor
  · rintro ⟨r, hr, hbank, hrow⟩
    obtain ⟨b, hb, hr⟩ := List.mem_flatMap.mp hr
    obtain ⟨row', hrow', rfl⟩ := List.mem_map.mp hr
    obtain ⟨hflat, hcoord⟩ := SamsungTRR.vrrAddr_spec cfg.sampler haddr b row'
    obtain rfl : b = bank := hflat.symm.trans hbank
    obtain rfl : row' = row := hcoord.symm.trans hrow
    exact ⟨hb, hrow'⟩
  · rintro ⟨hb, hrow⟩
    obtain ⟨hflat, hcoord⟩ := SamsungTRR.vrrAddr_spec cfg.sampler haddr bank row
    exact ⟨_, List.mem_flatMap.mpr ⟨bank, hb, List.mem_map.mpr ⟨row, hrow, rfl⟩⟩, hflat, hcoord⟩

/-! ## Counts are exact -/

theorem lookup_zeroed (rows : List Int) (table : List (Int × Int)) (row : Int) :
    (rows.foldl (fun m r => assign r 0 m) table).lookup row = if row ∈ rows then some 0 else table.lookup row := by
  induction rows generalizing table with
  | nil => simp
  | cons r rows ih =>
      rw [List.foldl_cons, ih, lookup_assign]
      by_cases hr : row = r <;> by_cases hrest : row ∈ rows <;> simp [hr, hrest]

theorem keysNodup_zeroed {table : List (Int × Int)} (h : KeysNodup table) (rows : List Int) :
    KeysNodup (rows.foldl (fun m r => assign r 0 m) table) := by
  induction rows generalizing table with
  | nil => exact h
  | cons r rows ih => exact ih (h.assign r 0)

/-- A table that is not empty has a row with the highest count among the chosen ones. -/
theorem exists_top (cfg : IdealTRRConfig) {table : List (Int × Int)} (hkeys : KeysNodup table) (order : List Int) (hne : table ≠ []) :
    ∃ top ∈ chosen cfg order table, ∃ most, table.lookup top = some most ∧
      ∀ row count, table.lookup row = some count → count ≤ most := by
  have hselects : SamsungTRR.Selects table cfg.numRowsPerRfm (chosen cfg order table) :=
    SamsungTRR.selects_selected cfg.sampler hkeys order
  have hlength := hselects.length
  have hpos : 0 < table.length := List.length_pos_iff.mpr hne
  have hrows := cfg.rows_pos
  have hsome : (chosen cfg order table).toFinset.Nonempty := by
    rw [List.toFinset_nonempty_iff]
    intro hnil
    rw [hnil, List.length_nil] at hlength
    omega
  obtain ⟨top, htop, hmax⟩ := Finset.exists_max_image _ (fun row => (table.lookup row).getD 0) hsome
  rw [List.mem_toFinset] at htop
  obtain ⟨most, hmost⟩ := hselects.held top htop
  refine ⟨top, htop, most, hmost, fun row count hcount => ?_⟩
  by_cases hrow : row ∈ chosen cfg order table
  · have hle := hmax row (List.mem_toFinset.mpr hrow)
    rw [hcount, hmost] at hle
    exact hle
  · exact hselects.highest top htop most hmost row count hcount hrow

/-! ## Runs -/

/-- A command with its address, and the orders in which the tables of the banks are visited. -/
abbrev Event := Command × AddrVec × (Int → List Int)

instance (cfg : IdealTRRConfig) (bank row : Int) (r : Request Command K) : Decidable (Refreshes cfg bank row r) :=
  inferInstanceAs (Decidable (_ ∧ _))

/-- The command targets a bank with refresh management. -/
def manages (cfg : IdealTRRConfig) (bank : Int) (e : Event) : Bool :=
  SamsungTRR.isRfm e.1 && decide (bank ∈ cfg.spec.targetBanks cfg.channelId e.1 e.2.1)

/-- The command activates a row of the bank. -/
def activates (cfg : IdealTRRConfig) (bank : Int) (e : Event) : Bool :=
  e.1 == .ACT && cfg.spec.flatBankId e.2.1 == bank

/-- The activations of a bank since its last refresh management. -/
def recent (cfg : IdealTRRConfig) (bank : Int) (events : List Event) : Nat :=
  events.foldl (fun n e => if manages cfg bank e then 0 else if activates cfg bank e then n + 1 else n) 0

/-- A command, and how often each row has been activated since its refresh was last requested. -/
def observe (cfg : IdealTRRConfig) (p : IdealTRR × (Int → Int → Nat)) (e : Event) : IdealTRR × (Int → Int → Nat) :=
  let out := onIssue (K := Unit) cfg e.1 e.2.1 e.2.2 p.1
  let bank := cfg.spec.flatBankId e.2.1
  (out.state,
    if SamsungTRR.isRfm e.1 then fun bank row => if ∃ r ∈ out.sends, Refreshes cfg bank row r then 0 else p.2 bank row
    else if e.1 = .ACT then Function.update p.2 bank (see (e.2.1.coord cfg.spec.rowLevel) (p.2 bank))
    else p.2)

def run (cfg : IdealTRRConfig) (events : List Event) : IdealTRR × (Int → Int → Nat) :=
  events.foldl (observe cfg) ({}, fun _ _ => 0)

/-- The rows of a bank that are activated are among `rows`, and addresses reach to the row. -/
def Allowed (cfg : IdealTRRConfig) (bank : Int) (rows : Finset Int) (e : Event) : Prop :=
  (activates cfg bank e = true → e.2.1.coord cfg.spec.rowLevel ∈ rows) ∧ cfg.spec.rowLevel < e.2.1.length

/-- The table of a bank counts exactly, and its counts are spread. -/
structure Inv (pace : Nat) (rows : Finset Int) (recent : Nat) (s : IdealTRR) (since : Int → Int → Nat)
    (bank : Int) : Prop where
  keys : KeysNodup (s.counterTable bank)
  exact : ∀ row, (since bank row : Int) = ((s.counterTable bank).lookup row).getD 0
  held : ∀ row count, (s.counterTable bank).lookup row = some count → row ∈ rows
  within : TopCounts.Within rows pace recent (since bank)

variable {pace n : Nat} {rows : Finset Int} {since : Int → Int → Nat} {e : Event} {events : List Event}

theorem Inv.init (pace : Nat) (rows : Finset Int) (bank : Int) : Inv pace rows 0 {} (fun _ _ => 0) bank where
  keys := List.nodup_nil
  exact := fun _ => rfl
  held := nofun
  within := .zero rows pace fun _ _ => rfl

/-- Refresh management of the bank. -/
theorem Inv.manage (h : Inv pace rows n s since bank) (hpace : n ≤ pace) {since' : Int → Int → Nat} {s' : IdealTRR}
    (htable : s'.counterTable bank = cleared cfg (order bank) (s.counterTable bank))
    (hsince : ∀ row, since' bank row =
      if row ∈ chosen cfg (order bank) (s.counterTable bank) then 0 else since bank row) :
    Inv pace rows 0 s' since' bank := by
  have hlookup : ∀ row, (s'.counterTable bank).lookup row =
      if row ∈ chosen cfg (order bank) (s.counterTable bank) then some 0 else (s.counterTable bank).lookup row :=
    fun row => htable ▸ lookup_zeroed _ _ row
  refine ⟨htable ▸ keysNodup_zeroed h.keys _, ?_, ?_, ?_⟩
  · intro row
    rw [hsince, hlookup]
    split
    · rfl
    · exact h.exact row
  · intro row count hcount
    rw [hlookup] at hcount
    split at hcount
    · rename_i hrow
      obtain ⟨count', hcount'⟩ := (SamsungTRR.selects_selected cfg.sampler h.keys (order bank)).held row hrow
      exact h.held row count' hcount'
    · exact h.held row count hcount
  · by_cases hempty : s.counterTable bank = []
    · -- nothing has been counted
      refine .zero rows pace fun row _ => ?_
      rw [hsince, hempty, chosen_nil, if_neg List.not_mem_nil]
      have hcount := h.exact row
      rw [hempty] at hcount
      exact Int.ofNat.inj hcount
    · obtain ⟨top, htop, most, hmost, hhighest⟩ := exists_top cfg h.keys (order bank) hempty
      refine h.within.clear hpace (h.held top most hmost) ?_ (k := top) ?_ ?_
      · intro row _
        have htopcount := h.exact top
        have hcount := h.exact row
        rw [hmost] at htopcount
        cases hrow : (s.counterTable bank).lookup row with
        | none =>
            rw [hrow] at hcount
            rw [Int.ofNat.inj hcount]
            exact Nat.zero_le _
        | some count =>
            rw [hrow] at hcount
            have hle := hhighest row count hrow
            simp only [Option.getD_some] at hcount htopcount
            omega
      · rw [hsince, if_pos htop]
      · intro row
        rw [hsince]
        split
        · exact Nat.zero_le _
        · exact le_rfl

/-- An activation of the bank. -/
theorem Inv.activate (h : Inv pace rows n s since (cfg.spec.flatBankId addr))
    (hrow : addr.coord cfg.spec.rowLevel ∈ rows) :
    Inv pace rows (n + 1) (processAct cfg addr s)
      (Function.update since (cfg.spec.flatBankId addr)
        (see (addr.coord cfg.spec.rowLevel) (since (cfg.spec.flatBankId addr))))
      (cfg.spec.flatBankId addr) := by
  have htable : (processAct cfg addr s).counterTable (cfg.spec.flatBankId addr) =
      assign (addr.coord cfg.spec.rowLevel)
        (((s.counterTable (cfg.spec.flatBankId addr)).lookup (addr.coord cfg.spec.rowLevel)).getD 0 + 1)
        (s.counterTable (cfg.spec.flatBankId addr)) := Function.update_self ..
  refine ⟨?_, ?_, ?_, ?_⟩
  · rw [htable]
    exact h.keys.assign _ _
  · intro row
    rw [htable, Function.update_self, lookup_assign]
    by_cases heq : row = addr.coord cfg.spec.rowLevel
    · rw [if_pos (by simpa using heq), heq, see_self, Option.getD_some]
      push_cast
      rw [h.exact]
    · rw [if_neg (by simpa using heq), see_of_ne heq]
      exact h.exact row
  · intro row count hcount
    rw [htable, lookup_assign] at hcount
    split at hcount
    · rename_i heq
      rw [show row = addr.coord cfg.spec.rowLevel by simpa using heq]
      exact hrow
    · exact h.held row count hcount
  · rw [Function.update_self]
    exact h.within.see _

/-- What the bank does not see. -/
theorem Inv.congr (h : Inv pace rows n s since bank) {s' : IdealTRR} {since' : Int → Int → Nat}
    (htable : s'.counterTable bank = s.counterTable bank) (hsince : since' bank = since bank) :
    Inv pace rows n s' since' bank := by
  obtain ⟨hkeys, hexact, hheld, hwithin⟩ := h
  exact ⟨htable ▸ hkeys, fun row => by rw [hsince, htable]; exact hexact row, htable ▸ hheld, hsince ▸ hwithin⟩

theorem Inv.observe {p : IdealTRR × (Int → Int → Nat)} (h : Inv pace rows n p.1 p.2 bank) (hpace : n ≤ pace)
    (hallowed : Allowed cfg bank rows e) :
    Inv pace rows (if manages cfg bank e then 0 else if activates cfg bank e then n + 1 else n)
      (observe cfg p e).1 (observe cfg p e).2 bank := by
  obtain ⟨c, addr, order⟩ := e
  obtain ⟨hrow, hlength⟩ := hallowed
  unfold IdealTRR.observe manages
  dsimp only
  by_cases hrfm : SamsungTRR.isRfm c = true
  · have hprocessed : Processed cfg addr order (cfg.spec.targetBanks cfg.channelId c addr) { state := p.1 }
        (onIssue (K := Unit) cfg c addr order p.1) := onIssue_rfm hrfm p.1
    have hact : activates cfg bank (c, addr, order) = false := by
      cases c <;> first | rfl | cases hrfm
    rw [if_pos hrfm, hrfm, hact, Bool.true_and]
    simp only [refreshes_iff hprocessed hlength]
    by_cases hb : bank ∈ cfg.spec.targetBanks cfg.channelId c addr
    · rw [if_pos (decide_eq_true hb)]
      refine h.manage hpace (hprocessed.targets bank hb) fun row => ?_
      simp only [hb, true_and]
    · rw [if_neg (by simpa using hb), if_neg Bool.false_ne_true]
      refine h.congr (hprocessed.others bank hb) ?_
      funext row
      rw [if_neg fun hboth => hb hboth.1]
  · have hrfm' : SamsungTRR.isRfm c = false := by simpa using hrfm
    rw [if_neg hrfm, onIssue, if_neg hrfm, hrfm', Bool.false_and, if_neg Bool.false_ne_true]
    by_cases hact : c = .ACT
    · rw [if_pos hact, if_neg (not_not.mpr hact)]
      by_cases hb : cfg.spec.flatBankId addr = bank
      · have hseen : activates cfg bank (c, addr, order) = true := by simp [activates, hact, hb]
        rw [if_pos hseen]
        subst hb
        exact h.activate (hrow hseen)
      · have hseen : activates cfg bank (c, addr, order) = false := by simp [activates, hb]
        rw [hseen, if_neg Bool.false_ne_true]
        exact h.congr (Function.update_of_ne (Ne.symm hb) ..) (Function.update_of_ne (Ne.symm hb) ..)
    · have hseen : activates cfg bank (c, addr, order) = false := by simp [activates, hact]
      rw [if_neg hact, if_pos hact, hseen, if_neg Bool.false_ne_true]
      exact h

theorem recent_concat (cfg : IdealTRRConfig) (bank : Int) (events : List Event) (e : Event) :
    recent cfg bank (events ++ [e]) =
      if manages cfg bank e then 0 else if activates cfg bank e then recent cfg bank events + 1
      else recent cfg bank events := List.foldl_concat ..

theorem Inv.run (hallowed : ∀ e ∈ events, Allowed cfg bank rows e)
    (hpace : ∀ before after, events = before ++ after → recent cfg bank before ≤ pace) :
    Inv pace rows (recent cfg bank events) (run cfg events).1 (run cfg events).2 bank := by
  induction events using List.reverseRecOn with
  | nil => exact .init pace rows bank
  | append_singleton events e ih =>
      have hbefore := ih (fun e' he' => hallowed e' (List.mem_append_left _ he'))
        fun before after heq => hpace before (after ++ [e]) (by rw [heq, List.append_assoc])
      rw [recent_concat, IdealTRR.run, List.foldl_concat]
      exact hbefore.observe (hpace events [e] rfl) (hallowed e (List.mem_append_right _ List.mem_cons_self))

/-- What a count can be. -/
theorem Inv.le (h : Inv pace rows n s since bank) (row : Int) :
    (since bank row : ℚ) ≤ pace * harmonic (rows.card - 1) + n := by
  by_cases hrow : row ∈ rows
  · exact h.within.le_count hrow
  · have hzero : since bank row = 0 := by
      have hexact := h.exact row
      cases hlookup : (s.counterTable bank).lookup row with
      | none =>
          rw [hlookup] at hexact
          exact Int.ofNat.inj hexact
      | some count => exact absurd (h.held row count hlookup) hrow
    have hharmonic : (0 : ℚ) ≤ harmonic (rows.card - 1) := TopCounts.harmonic_mono (Nat.zero_le _)
    rw [hzero]
    positivity

/-- If a bank is activated at most `pace` times between two refresh-management commands that target it, and
`rows` are the rows of it that are activated at all, then after any commands the table holds for every row
how often it was activated since its refresh was last requested, and that is at most `pace` times a harmonic
number, and what came since the last command. -/
theorem exposure_bounded (cfg : IdealTRRConfig) (bank : Int) (pace : Nat) (rows : Finset Int) (events : List Event)
    (hallowed : ∀ e ∈ events, Allowed cfg bank rows e)
    (hpace : ∀ before after, events = before ++ after → recent cfg bank before ≤ pace) (row : Int) :
    let s := (run cfg events).1
    let since := (run cfg events).2
    (since bank row : Int) = ((s.counterTable bank).lookup row).getD 0 ∧
      (since bank row : ℚ) ≤ pace * harmonic (rows.card - 1) + recent cfg bank events ∧
      (since bank row : ℚ) ≤ pace * (1 + harmonic (rows.card - 1)) := by
  intro s since
  have hinv : Inv pace rows (recent cfg bank events) s since bank := Inv.run hallowed hpace
  refine ⟨hinv.exact row, hinv.le row, ?_⟩
  have hbound := hinv.le row
  have hrecent : (recent cfg bank events : ℚ) ≤ pace := by
    exact_mod_cast hpace events [] (List.append_nil _).symm
  linarith

def smallIdealTRR : IdealTRRConfig where
  spec := RFMManager.smallManaged
  channelId := 0
  bankgroupLevel := some 2
  rows_pos := SamsungTRR.oneRow_pos
  ranks_pos := SamsungTRR.smallRanks_pos
  row_gt := SamsungTRR.smallRow_gt
  levels := SamsungTRR.smallLevels

/-- Of two rows that are activated in turn, the one with the higher count is refreshed. -/
theorem exposure_bounded_small :
    let act (row : Int) : Event := (.ACT, RowTracker.smallAddr 1 row, fun _ => [])
    let events : List Event := [act 5, act 7, act 5, (.RFMsb, [0, 0, -1, 1, -1, -1], fun _ => []), act 5]
    (run smallIdealTRR events).2 1 5 = 1 ∧ ((run smallIdealTRR events).2 1 5 : ℚ) ≤ 3 * (1 + harmonic 1) := by
  intro act events
  have hallowed : ∀ e ∈ events, Allowed smallIdealTRR 1 {5, 7} e := by
    simp only [events, act, List.forall_mem_cons, List.not_mem_nil, false_implies, implies_true, and_true]
    unfold Allowed
    decide
  have hpace : ∀ before after, events = before ++ after → recent smallIdealTRR 1 before ≤ 3 := by
    have hall : ∀ k < events.length + 1, recent smallIdealTRR 1 (events.take k) ≤ 3 := by decide
    intro before after heq
    have htake := hall before.length (by rw [heq, List.length_append]; omega)
    rwa [heq, List.take_left] at htake
  obtain ⟨-, -, hbound⟩ := exposure_bounded smallIdealTRR 1 3 {5, 7} events hallowed hpace 5
  exact ⟨by decide, hbound⟩

/-! ## Under the manager -/

/-- What the plugins of a controller are notified of. -/
structure Notice where
  command : Command
  addr : AddrVec
  order : Int → List Int
  room : Bool

def Notice.tracked (n : Notice) : Event := (n.command, n.addr, n.order)

def Notice.managed (n : Notice) : RFMManager.Event := (n.command, n.addr, n.room)

variable {mgr : RFMManagerConfig} {notices : List Notice}

/-- The manager makes a request at `n`, after `before`. -/
def RequestedAt (mgr : RFMManagerConfig) (before : List Notice) (n : Notice) : Prop :=
  ∃ p p' : RFMManager × List (Request Command Unit),
    runAll (RFMManager.notify mgr) (before.map Notice.managed) ({}, []) = .ok p ∧
      RFMManager.notify mgr n.managed p = .ok p' ∧ p'.2 = p.2 ++ [RFMManager.rfmRequest mgr n.addr]

/-- No bank sees more than `delay` activations while a request that targets it waits. -/
def IssuedWithin (mgr : RFMManagerConfig) (cfg : IdealTRRConfig) (bank : Int) (delay : Nat) (notices : List Notice) :
    Prop :=
  ∀ before n waiting after, notices = before ++ n :: waiting ++ after → RequestedAt mgr before n →
    RFMManager.Covers mgr bank (RFMManager.rfmRequest (K := Unit) mgr n.addr) →
    delay < waiting.countP (fun m => activates cfg bank m.tracked) →
    ∃ m ∈ waiting, m.command = mgr.rfmMode.command ∧
      m.addr = (RFMManager.rfmRequest (K := Unit) mgr n.addr).addrVec

theorem recent_split (cfg : IdealTRRConfig) (bank : Int) (events : List Event) :
    ∃ before since, events = before ++ since ∧ (∀ e ∈ since, manages cfg bank e = false) ∧
      since.countP (activates cfg bank) = recent cfg bank events := by
  induction events using List.reverseRecOn with
  | nil => exact ⟨[], [], rfl, fun e he => absurd he List.not_mem_nil, rfl⟩
  | append_singleton events e ih =>
      obtain ⟨before, since, rfl, hnone, hcount⟩ := ih
      rw [recent_concat]
      cases hmanages : manages cfg bank e with
      | true =>
          refine ⟨before ++ since ++ [e], [], (List.append_nil _).symm, fun e he => absurd he List.not_mem_nil, ?_⟩
          rw [if_pos rfl]
          rfl
      | false =>
          refine ⟨before, since ++ [e], List.append_assoc .., ?_, ?_⟩
          · intro e' he'
            rcases List.mem_append.mp he' with he' | he'
            · exact hnone e' he'
            · rw [List.mem_singleton.mp he', hmanages]
          · rw [List.countP_append, hcount, List.countP_singleton, if_neg Bool.false_ne_true]
            split <;> rfl

theorem split_countP {α : Type} {p : α → Bool} {n : Nat} (l : List α) (h : n ≤ l.countP p) :
    ∃ l₁ l₂, l = l₁ ++ l₂ ∧ l₁.countP p = n := by
  induction l using List.reverseRecOn with
  | nil => exact ⟨[], [], rfl, (Nat.le_zero.mp h).symm⟩
  | append_singleton l a ih =>
      by_cases hn : n ≤ l.countP p
      · obtain ⟨l₁, l₂, rfl, hcount⟩ := ih hn
        exact ⟨l₁, l₂ ++ [a], List.append_assoc .., hcount⟩
      · refine ⟨l ++ [a], [], (List.append_nil _).symm, ?_⟩
        rw [List.countP_append, List.countP_singleton] at h ⊢
        by_cases ha : p a = true
        · simp only [ha, if_true] at h ⊢
          omega
        · simp only [ha, Bool.false_eq_true, if_false] at h
          omega

/-- The manager's threshold and the waiting time bound the activations between two commands. -/
theorem recent_le (hspec : mgr.spec = cfg.spec) (hchannel : mgr.channelId = cfg.channelId) {delay : Nat}
    {p : RFMManager × List (Request Command Unit)}
    (hrun : runAll (RFMManager.notify mgr) (notices.map Notice.managed) ({}, []) = .ok p)
    (hallowed : ∀ n ∈ notices, RFMManager.Allowed mgr n.managed)
    (hissued : IssuedWithin mgr cfg bank delay notices) :
    recent cfg bank (notices.map Notice.tracked) ≤ mgr.limit.toNat + delay := by
  by_contra hmore
  push Not at hmore
  obtain ⟨_, _, heq, hnone, hcount⟩ := recent_split cfg bank (notices.map Notice.tracked)
  obtain ⟨before, since, rfl, rfl, rfl⟩ := List.map_eq_append_iff.mp heq
  rw [List.countP_map] at hcount
  -- the first activations in `since` reach the limit of the manager, more than `delay` follow
  obtain ⟨early, late, rfl, hearly⟩ := split_countP (n := mgr.limit.toNat) since
    (p := activates cfg bank ∘ Notice.tracked) (by omega)
  rw [List.countP_append, hearly] at hcount
  rw [List.map_append, List.map_append, runAll_append] at hrun
  cases hbefore : runAll (RFMManager.notify mgr) (before.map Notice.managed)
      (({}, []) : RFMManager × List (Request Command Unit)) with
  | error what =>
      rw [hbefore] at hrun
      cases hrun
  | ok q =>
      simp only [hbefore, Except.bind] at hrun
      rw [runAll_append] at hrun
      cases hrest : runAll (RFMManager.notify mgr) (early.map Notice.managed) q with
      | error what =>
          rw [hrest] at hrun
          cases hrun
      | ok q' =>
          have hq : RFMManager.Bounded mgr q.1 := (RFMManager.Bounded.init mgr).run
            (fun e he => by
              obtain ⟨n, hn, rfl⟩ := List.mem_map.mp he
              exact hallowed n (List.mem_append_left _ hn)) hbefore
          obtain ⟨new, hnew, hcovered⟩ := RFMManager.covered_of_limit hq
            (fun e he => by
              obtain ⟨n, hn, rfl⟩ := List.mem_map.mp he
              exact hallowed n (List.mem_append_right _ (List.mem_append_left _ hn))) hrest
          have hlimit : mgr.limit ≤ ((early.map Notice.managed).countP (RFMManager.activates mgr bank) : Nat) := by
            have hle : early.countP (activates cfg bank ∘ Notice.tracked) ≤
                (early.map Notice.managed).countP (RFMManager.activates mgr bank) := by
              rw [List.countP_map]
              refine List.countP_mono_left fun n _ hn => ?_
              obtain ⟨hact, hbank⟩ := Bool.and_eq_true_iff.mp hn
              have hcommand : n.command = .ACT := beq_iff_eq.mp hact
              show (isActivation n.command && mgr.spec.flatBankId n.addr == bank) = true
              rw [hcommand, hspec]
              exact hbank
            omega
          obtain ⟨r, hr, hcovers⟩ := hcovered bank hlimit
          obtain ⟨_, _, _, hsplit, rfl, q₁, q₂, hfirst, hmade⟩ := RFMManager.exists_made hrest hnew hr
          obtain ⟨early, _, rfl, rfl, hlater⟩ := List.map_eq_append_iff.mp hsplit
          obtain ⟨n, waiting, rfl, rfl, rfl⟩ := List.map_eq_cons_iff.mp hlater
          have hat : RequestedAt mgr (before ++ early) n := by
            refine ⟨q₁, q₂, ?_, hmade⟩
            rw [List.map_append, runAll_append, hbefore]
            exact hfirst
          obtain ⟨m, hm, hcommand, haddr⟩ := hissued (before ++ early) n (waiting ++ late) [] (by simp) hat hcovers
            (by
              rw [List.countP_append]
              have hlate : List.countP (fun m : Notice => activates cfg bank m.tracked) late =
                  late.countP (activates cfg bank ∘ Notice.tracked) := rfl
              omega)
          -- which is refresh management of the bank
          have hmanages : manages cfg bank m.tracked = true := by
            have htarget : bank ∈ cfg.spec.targetBanks cfg.channelId m.command m.addr := by
              rw [hcommand, haddr, ← hspec, ← hchannel]
              exact hcovers
            have hrfm : SamsungTRR.isRfm m.command = true := by
              rw [hcommand]
              cases mgr.rfmMode <;> rfl
            exact Bool.and_eq_true_iff.mpr ⟨hrfm, decide_eq_true htarget⟩
          have hin : m.tracked ∈ ((early ++ n :: waiting) ++ late).map Notice.tracked :=
            List.mem_map_of_mem (by
              rcases List.mem_append.mp hm with hm | hm
              · exact List.mem_append_left _ (List.mem_append_right _ (List.mem_cons_of_mem _ hm))
              · exact List.mem_append_right _ hm)
          rw [hnone _ hin] at hmanages
          cases hmanages

/-- With the manager and the tracker on one controller: if no bank sees more than `delay` activations while
a request of the manager that targets it waits, no row is activated more often than a harmonic multiple of
the manager's limit and that delay before its refresh is requested. -/
theorem managed_exposure (mgr : RFMManagerConfig) (cfg : IdealTRRConfig) (hspec : mgr.spec = cfg.spec)
    (hchannel : mgr.channelId = cfg.channelId) (bank : Int) (delay : Nat) (rows : Finset Int)
    (notices : List Notice) (p : RFMManager × List (Request Command Unit))
    (hrun : runAll (RFMManager.notify mgr) (notices.map Notice.managed) ({}, []) = .ok p)
    (hlocal : ∀ n ∈ notices, RFMManager.Allowed mgr n.managed)
    (hallowed : ∀ n ∈ notices, Allowed cfg bank rows n.tracked)
    (hissued : IssuedWithin mgr cfg bank delay notices) (row : Int) :
    ((run cfg (notices.map Notice.tracked)).2 bank row : ℚ) ≤
      (mgr.limit.toNat + delay : Nat) * (1 + harmonic (rows.card - 1)) := by
  have hpace : ∀ before after, notices.map Notice.tracked = before ++ after →
      recent cfg bank before ≤ mgr.limit.toNat + delay := by
    intro _ _ heq
    obtain ⟨before, after, rfl, rfl, -⟩ := List.map_eq_append_iff.mp heq
    rw [List.map_append, runAll_append] at hrun
    cases hbefore : runAll (RFMManager.notify mgr) (before.map Notice.managed)
        (({}, []) : RFMManager × List (Request Command Unit)) with
    | error what =>
        rw [hbefore] at hrun
        cases hrun
    | ok q =>
        refine recent_le hspec hchannel hbefore (fun n hn => hlocal n (List.mem_append_left _ hn)) ?_
        rintro first n waiting rest rfl
        exact hissued first n waiting (rest ++ after) (by simp)
  have hinv : Inv (mgr.limit.toNat + delay) rows (recent cfg bank (notices.map Notice.tracked))
      (run cfg (notices.map Notice.tracked)).1 (run cfg (notices.map Notice.tracked)).2 bank := by
    refine Inv.run (fun e he => ?_) hpace
    obtain ⟨n, hn, rfl⟩ := List.mem_map.mp he
    exact hallowed n hn
  have hbound := hinv.le row
  have hrecent : (recent cfg bank (notices.map Notice.tracked) : ℚ) ≤ (mgr.limit.toNat + delay : Nat) := by
    exact_mod_cast hpace _ [] (List.append_nil _).symm
  linarith

/-- The manager makes its request on the second activation; it is issued one activation later. -/
theorem managed_exposure_small :
    let act (row : Int) : Notice := ⟨.ACT, RowTracker.smallAddr 1 row, fun _ => [], true⟩
    let notices : List Notice := [act 5, act 7, act 5, ⟨.RFMsb, [0, 0, -1, 1, 7, 0], fun _ => [], true⟩]
    ((run smallIdealTRR (notices.map Notice.tracked)).2 1 5 : ℚ) ≤
      (RFMManager.smallRFM.limit.toNat + 1 : Nat) * (1 + harmonic 1) := by
  intro act notices
  obtain ⟨p, hrun⟩ : ∃ p, runAll (RFMManager.notify RFMManager.smallRFM) (notices.map Notice.managed)
      (({}, []) : RFMManager × List (Request Command Unit)) = .ok p := ⟨_, rfl⟩
  have hlocal : ∀ n ∈ notices, RFMManager.Allowed RFMManager.smallRFM n.managed := by
    simp only [notices, act, List.forall_mem_cons, List.not_mem_nil, false_implies, implies_true, and_true]
    unfold RFMManager.Allowed RFMManager.Local Standard.Concrete
    decide
  have hallowed : ∀ n ∈ notices, Allowed smallIdealTRR 1 {5, 7} n.tracked := by
    simp only [notices, act, List.forall_mem_cons, List.not_mem_nil, false_implies, implies_true, and_true]
    unfold Allowed
    decide
  have hissued : IssuedWithin RFMManager.smallRFM smallIdealTRR 1 1 notices := by
    rintro before n waiting after heq ⟨q, q', hq, hq', hsends⟩ - hmore
    rcases before with _ | ⟨first, before⟩
    · -- the first activation is below the threshold
      obtain ⟨rfl, -⟩ := List.cons.inj heq
      cases hq
      cases hq'
      cases hsends
    · have hrest : notices.tail.tail = (before ++ [n]).tail ++ waiting ++ after := by
        rw [heq]
        cases before <;> simp
      have hcount : notices.tail.tail.countP (fun m : Notice => activates smallIdealTRR 1 m.tracked) = 1 := by decide
      rw [hrest, List.countP_append, List.countP_append] at hcount
      omega
  exact managed_exposure RFMManager.smallRFM smallIdealTRR rfl rfl 1 1 {5, 7} notices p hrun hlocal hallowed hissued 5

end IdealTRR

end Ramulator.Controller
