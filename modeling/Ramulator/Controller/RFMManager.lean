/-
# Ramulator.Controller.RFMManager — refresh management that a threshold drives.

`RFMManager` (`controller/plugin/impl/rfm_manager.cpp`) counts the activations of every bank. The one that
brings a count to `rfm_thresh` makes it request a refresh-management command through `priority_send`: for
all banks of the rank, for the same bank of every bank group, or for the one bank, by its mode. The counts
of the banks that the command targets start again. It throws when the request is not accepted.
-/
import Ramulator.Controller.VictimRefresh
import Ramulator.Dram.Dispatch
import Mathlib.Algebra.BigOperators.Group.Finset.Basic
import Mathlib.Algebra.Order.BigOperators.Group.Finset
import Mathlib.Tactic.Linarith

namespace Ramulator.Controller

open Ramulator.Base (Request)
open Ramulator.Dram Ramulator.Lib

/-! ## The plugin -/

/-- `rfm_mode`. -/
inductive RfmMode where
  | ab
  | sb
  | pb
  deriving DecidableEq, Repr

namespace RfmMode

/-- The check of `init`. -/
def parse (mode : String) : Except String RfmMode :=
  if mode = "ab" then .ok ab
  else if mode = "sb" then .ok sb
  else if mode = "pb" then .ok pb
  else .error ("RFMManager: rfm_mode must be 'ab' (all-bank), 'sb' (same-bank), or 'pb' (per-bank); got '" ++
    mode ++ "'")

def command : RfmMode → Command
  | ab => .RFMab
  | sb => .RFMsb
  | pb => .RFMpb

/-- `command_names` of that command. -/
def cmdName : RfmMode → String
  | ab => "RFMab"
  | sb => "RFMsb"
  | pb => "RFMpb"

end RfmMode

/-- The parameters, and what `setup` reads of the standard: the levels that it has, all of them above the
bank's or the bank's own. -/
structure RFMManagerConfig where
  spec : Standard
  channelId : Int
  rfmThresh : Int := 80
  rfmMode : RfmMode := .ab
  rankLevel : Option Nat
  pseudoChannelLevel : Option Nat
  bankgroupLevel : Option Nat
  supported : spec.supports rfmMode.command = true
  bank_pos : 0 < spec.bankLevel
  bankgroup_lt : ∀ g, bankgroupLevel = some g → 0 < g ∧ g < spec.bankLevel

namespace RFMManagerConfig

/-- `m_all_bank_scope_level`; the channel is level 0. -/
def allBankScopeLevel (cfg : RFMManagerConfig) : Nat := cfg.rankLevel.getD (cfg.pseudoChannelLevel.getD 0)

/-- The count at which a bank is due. -/
def limit (cfg : RFMManagerConfig) : Int := max 1 cfg.rfmThresh

end RFMManagerConfig

structure RFMManager where
  bankCtrs : Int → Int := fun _ => 0
  rfmCounter : Nat := 0

namespace RFMManager

variable {K : Type}

/-- Wildcards at some levels. -/
def widen (levels : List Nat) (addr : AddrVec) : AddrVec := levels.foldl (fun addr level => addr.set level (-1)) addr

/-- The levels at which `on_issue` puts a wildcard, in order. -/
def widened (cfg : RFMManagerConfig) : List Nat :=
  match cfg.rfmMode with
  | .ab => cfg.bankgroupLevel.toList ++
      List.range' (cfg.allBankScopeLevel + 1) (cfg.spec.bankLevel - cfg.allBankScopeLevel)
  | .sb => cfg.bankgroupLevel.toList
  | .pb => []

/-- The request for the bank of an activation. -/
def rfmRequest (cfg : RFMManagerConfig) (addr : AddrVec) : Request Command K :=
  Request.ofCommand (widen (widened cfg) addr) cfg.rfmMode.command

/-- The banks that the request targets. -/
def targets (cfg : RFMManagerConfig) (addr : AddrVec) : List Int :=
  cfg.spec.targetBanks cfg.channelId cfg.rfmMode.command (widen (widened cfg) addr)

/-- `on_issue`; `room` is what `priority_send` returns. -/
def onIssue (cfg : RFMManagerConfig) (c : Command) (addr : AddrVec) (room : Bool) (s : RFMManager) :
    Except String (RFMManager × List (Request Command K)) :=
  if isActivation c = false then .ok (s, [])
  else
    let bank := cfg.spec.flatBankId addr
    let s := { s with bankCtrs := Function.update s.bankCtrs bank (s.bankCtrs bank + 1) }
    if s.bankCtrs bank < cfg.rfmThresh then .ok (s, [])
    else if room = false then
      .error ("RFMManager: priority_send failed for " ++ cfg.rfmMode.cmdName ++ " (priority buffer full)")
    else
      .ok ({ bankCtrs := fun b => if b ∈ targets cfg addr then 0 else s.bankCtrs b
             rfmCounter := s.rfmCounter + 1 }, [rfmRequest cfg addr])

/-! ## Where a request goes -/

variable {cfg : RFMManagerConfig} {addr : AddrVec} {c : Command} {room : Bool}

theorem coord_set_wildcard (addr : AddrVec) (i j : Nat) :
    AddrVec.coord (addr.set i (-1)) j = if j = i then -1 else addr.coord j := by
  unfold AddrVec.coord
  rw [List.getD_eq_getElem?_getD, List.getElem?_set, List.getD_eq_getElem?_getD]
  by_cases hij : i = j
  · subst hij
    by_cases hlt : i < addr.length
    · simp [hlt]
    · simp [hlt]
  · rw [if_neg hij, if_neg (Ne.symm hij)]

theorem coord_widen (levels : List Nat) (addr : AddrVec) (j : Nat) :
    (widen levels addr).coord j = if j ∈ levels then -1 else addr.coord j := by
  induction levels generalizing addr with
  | nil => simp [widen]
  | cons l levels ih =>
      show AddrVec.coord (widen levels (addr.set l (-1))) j = _
      rw [ih, coord_set_wildcard]
      by_cases hl : j = l <;> by_cases hrest : j ∈ levels <;> simp [hl, hrest]

/-- The activation is of a bank of the channel. -/
def Local (cfg : RFMManagerConfig) (addr : AddrVec) : Prop :=
  cfg.spec.Concrete addr ∧ (addr.coord 0 = -1 ∨ addr.coord 0 = cfg.channelId)

/-- The address of a request has the form that its command expects. -/
theorem addresses_widen (h : Local cfg addr) :
    cfg.spec.Addresses cfg.rfmMode.command.bankTarget (widen (widened cfg) addr) := by
  cases hmode : cfg.rfmMode with
  | ab => exact trivial
  | sb =>
      -- the bank's own level keeps its coordinate
      show AddrVec.coord _ cfg.spec.bankLevel ≠ -1
      have hnot : cfg.spec.bankLevel ∉ widened cfg := by
        intro hmem
        unfold widened at hmem
        rw [hmode] at hmem
        have hlt := (cfg.bankgroup_lt _ (Option.mem_toList.mp hmem)).2
        exact lt_irrefl _ hlt
      rw [coord_widen, if_neg hnot]
      have hpos := cfg.bank_pos
      have hcoord := (h.1 (cfg.spec.bankLevel - 1) (by omega)).1
      rw [Nat.sub_add_cancel hpos] at hcoord
      omega
  | pb =>
      show cfg.spec.Concrete _
      have hsame : widen (widened cfg) addr = addr := by
        unfold widened
        rw [hmode]
        rfl
      rw [hsame]
      exact h.1

/-- The banks that a request targets: those that agree with the activated one wherever it has no wildcard. -/
theorem mem_targets_iff (h : Local cfg addr) {i : Nat} (hi : i < cfg.spec.bankCount) :
    (i : Int) ∈ targets cfg addr ↔ ∀ l < cfg.spec.bankLevel, l + 1 ∉ widened cfg →
      addr.coord (l + 1) = ((cfg.spec.bankNodes.getD i []).getD l 0 : Nat) := by
  have hchannel : (widen (widened cfg) addr).coord 0 = -1 ∨ (widen (widened cfg) addr).coord 0 = cfg.channelId := by
    rw [coord_widen]
    split
    · exact .inl rfl
    · exact h.2
  unfold targets
  rw [Standard.mem_targetBanks_iff cfg.bank_pos (addresses_widen h) hchannel hi, Standard.selected_iff hi]
  rw [and_iff_right hchannel]
  simp only [coord_widen]
  constructor
  · intro hall l hl hwide
    have hat := hall l hl
    rw [if_neg hwide] at hat
    have hpos := (h.1 l hl).1
    exact hat.resolve_left (by omega)
  · intro hall l hl
    by_cases hwide : l + 1 ∈ widened cfg
    · rw [if_pos hwide]
      exact .inl rfl
    · rw [if_neg hwide]
      exact .inr (hall l hl hwide)

/-- The activated bank is one of the channel. -/
theorem flatBankId_lt (h : Local cfg addr) : ∃ i < cfg.spec.bankCount, cfg.spec.flatBankId addr = (i : Nat) := by
  refine ⟨_, ?_, h.1.flatBankId_eq⟩
  rw [Standard.bankCount_eq]
  exact MixedRadix.position_lt h.1.within

/-- A request targets the bank that made it. -/
theorem flatBankId_mem_targets (h : Local cfg addr) : cfg.spec.flatBankId addr ∈ targets cfg addr := by
  obtain ⟨i, hi, hbank⟩ := flatBankId_lt h
  rw [hbank, mem_targets_iff h hi]
  have hselected := (Standard.Concrete.selected_iff h.1 h.2 hi).mpr hbank
  intro l hl _
  have hpos := (h.1 l hl).1
  exact (((Standard.selected_iff hi).mp hselected).2 l hl).resolve_left (by omega)

/-! ## Runs -/

/-- A command, its address, and whether the buffer of priority requests has room. -/
abbrev Event := Command × AddrVec × Bool

/-- A notification; the requests of the run so far come along. -/
def notify (cfg : RFMManagerConfig) (e : Event) (p : RFMManager × List (Request Command K)) :
    Except String (RFMManager × List (Request Command K)) :=
  (onIssue cfg e.1 e.2.1 e.2.2 p.1).map fun (s, sends) => (s, p.2 ++ sends)

/-- The activations of a bank. -/
def activates (cfg : RFMManagerConfig) (bank : Int) (e : Event) : Bool :=
  isActivation e.1 && cfg.spec.flatBankId e.2.1 == bank

/-- Activations are of banks of the channel. -/
def Allowed (cfg : RFMManagerConfig) (e : Event) : Prop := isActivation e.1 = true → Local cfg e.2.1

/-- The request targets a bank. -/
def Covers (cfg : RFMManagerConfig) (bank : Int) (r : Request Command K) : Prop :=
  bank ∈ cfg.spec.targetBanks cfg.channelId cfg.rfmMode.command r.addrVec

/-- What a notification does: nothing, count, or count and request. -/
inductive Effect (cfg : RFMManagerConfig) (e : Event) (s s' : RFMManager) (sends : List (Request Command K)) : Prop where
  | ignored (h : isActivation e.1 = false) (hs : s' = s) (hsends : sends = [])
  | counted (h : isActivation e.1 = true)
      (hlt : s.bankCtrs (cfg.spec.flatBankId e.2.1) + 1 < cfg.rfmThresh)
      (hctrs : s'.bankCtrs = Function.update s.bankCtrs (cfg.spec.flatBankId e.2.1)
        (s.bankCtrs (cfg.spec.flatBankId e.2.1) + 1))
      (hcounter : s'.rfmCounter = s.rfmCounter) (hsends : sends = [])
  | requested (h : isActivation e.1 = true)
      (hge : cfg.rfmThresh ≤ s.bankCtrs (cfg.spec.flatBankId e.2.1) + 1)
      (hctrs : ∀ b, s'.bankCtrs b = if b ∈ targets cfg e.2.1 then 0 else
        Function.update s.bankCtrs (cfg.spec.flatBankId e.2.1) (s.bankCtrs (cfg.spec.flatBankId e.2.1) + 1) b)
      (hcounter : s'.rfmCounter = s.rfmCounter + 1) (hsends : sends = [rfmRequest cfg e.2.1])

theorem onIssue_effect {e : Event} {s s' : RFMManager} {sends : List (Request Command K)}
    (h : onIssue cfg e.1 e.2.1 e.2.2 s = .ok (s', sends)) : Effect cfg e s s' sends := by
  unfold onIssue at h
  cases hact : isActivation e.1 with
  | false =>
      rw [if_pos hact] at h
      cases h
      exact .ignored hact rfl rfl
  | true =>
      rw [if_neg (by rw [hact]; decide)] at h
      simp only [Function.update_self] at h
      split at h
      · rename_i hlt
        cases h
        exact .counted hact hlt rfl rfl rfl
      · rename_i hge
        split at h
        · cases h
        · cases h
          exact .requested hact (not_lt.mp hge) (fun _ => rfl) rfl rfl

theorem notify_effect {e : Event} {p p' : RFMManager × List (Request Command K)} (h : notify cfg e p = .ok p') :
    ∃ sends, p'.2 = p.2 ++ sends ∧ Effect cfg e p.1 p'.1 sends := by
  obtain ⟨⟨s, sends⟩, hissue, rfl⟩ := except_map_eq_ok.mp h
  exact ⟨sends, rfl, onIssue_effect hissue⟩

/-- The counts stay below the limit. -/
def Bounded (cfg : RFMManagerConfig) (s : RFMManager) : Prop := ∀ b, 0 ≤ s.bankCtrs b ∧ s.bankCtrs b < cfg.limit

theorem Bounded.init (cfg : RFMManagerConfig) : Bounded cfg {} := fun _ =>
  ⟨le_rfl, lt_of_lt_of_le Int.one_pos (le_max_left 1 cfg.rfmThresh)⟩

theorem Bounded.effect {e : Event} {s s' : RFMManager} {sends : List (Request Command K)} (h : Bounded cfg s)
    (hallowed : Allowed cfg e) (heffect : Effect cfg e s s' sends) : Bounded cfg s' := by
  have hlimit : 1 ≤ cfg.limit := le_max_left 1 cfg.rfmThresh
  have hthresh : cfg.rfmThresh ≤ cfg.limit := le_max_right 1 cfg.rfmThresh
  intro b
  have hb := h b
  cases heffect with
  | ignored hact hs hsends =>
      rw [hs]
      exact hb
  | counted hact hlt hctrs hcounter hsends =>
      rw [hctrs]
      by_cases heq : b = cfg.spec.flatBankId e.2.1
      · rw [heq, Function.update_self]
        rw [heq] at hb
        omega
      · rw [Function.update_of_ne heq]
        exact hb
  | requested hact hge hctrs hcounter hsends =>
      rw [hctrs]
      by_cases hmem : b ∈ targets cfg e.2.1
      · rw [if_pos hmem]
        omega
      · have hne : b ≠ cfg.spec.flatBankId e.2.1 := by
          rintro rfl
          exact hmem (flatBankId_mem_targets (hallowed hact))
        rw [if_neg hmem, Function.update_of_ne hne]
        exact hb

variable {events : List Event} {p p' : RFMManager × List (Request Command K)}

theorem Bounded.run (h : Bounded cfg p.1) (hallowed : ∀ e ∈ events, Allowed cfg e)
    (hrun : runAll (notify cfg) events p = .ok p') : Bounded cfg p'.1 := by
  refine runAll_invariant (fun p : RFMManager × List (Request Command K) => Bounded cfg p.1) (Allowed cfg)
    ?_ h hallowed hrun
  intro p e p' hp he hstep
  obtain ⟨sends, -, heffect⟩ := notify_effect hstep
  exact hp.effect he heffect

/-- The requests of a run are for activations of the run. -/
theorem requests_run (hrun : runAll (notify cfg) events p = .ok p') :
    ∃ new, p'.2 = p.2 ++ new ∧ p'.1.rfmCounter = p.1.rfmCounter + new.length ∧
      ∀ r ∈ new, ∃ e ∈ events, isActivation e.1 = true ∧ r = rfmRequest cfg e.2.1 := by
  induction events generalizing p with
  | nil =>
      cases hrun
      exact ⟨[], (List.append_nil _).symm, rfl, fun r hr => absurd hr List.not_mem_nil⟩
  | cons e events ih =>
      unfold runAll at hrun
      split at hrun
      · rename_i q hstep
        obtain ⟨sends, hq, heffect⟩ := notify_effect hstep
        obtain ⟨new, hnew, hcounter, hfrom⟩ := ih hrun
        refine ⟨sends ++ new, by rw [hnew, hq, List.append_assoc], ?_, ?_⟩
        · cases heffect with
          | ignored hact hs hsends => rw [hcounter, hs, hsends, List.nil_append]
          | counted hact hlt hctrs hcount hsends => rw [hcounter, hcount, hsends, List.nil_append]
          | requested hact hge hctrs hcount hsends =>
              rw [hcounter, hcount, hsends, List.length_append, List.length_singleton]
              omega
        · intro r hr
          rcases List.mem_append.mp hr with hr | hr
          · cases heffect with
            | ignored hact hs hsends => simp [hsends] at hr
            | counted hact hlt hctrs hcount hsends => simp [hsends] at hr
            | requested hact hge hctrs hcount hsends =>
                rw [hsends, List.mem_singleton] at hr
                exact ⟨e, List.mem_cons_self, hact, hr⟩
          · obtain ⟨e', he', hact, heq⟩ := hfrom r hr
            exact ⟨e', List.mem_cons_of_mem _ he', hact, heq⟩
      · cases hrun

/-- Where a request was made. -/
theorem exists_made (hrun : runAll (notify cfg) events p = .ok p') {new : List (Request Command K)}
    (hnew : p'.2 = p.2 ++ new) {r : Request Command K} (hr : r ∈ new) :
    ∃ before e after, events = before ++ e :: after ∧ r = rfmRequest cfg e.2.1 ∧
      ∃ q q' : RFMManager × List (Request Command K), runAll (notify cfg) before p = .ok q ∧
        notify cfg e q = .ok q' ∧ q'.2 = q.2 ++ [rfmRequest cfg e.2.1] := by
  induction events generalizing p new with
  | nil =>
      cases hrun
      rw [List.self_eq_append_right.mp hnew] at hr
      exact absurd hr List.not_mem_nil
  | cons e events ih =>
      unfold runAll at hrun
      split at hrun
      · rename_i q hstep
        obtain ⟨sends, hq, heffect⟩ := notify_effect hstep
        obtain ⟨rest, hrest, -⟩ := requests_run hrun
        have hsplit : new = sends ++ rest := by
          rw [hrest, hq, List.append_assoc] at hnew
          exact (List.append_cancel_left hnew).symm
        rw [hsplit, List.mem_append] at hr
        rcases hr with hr | hr
        · cases heffect with
          | ignored hact hs hsends => simp [hsends] at hr
          | counted hact hlt hctrs hcount hsends => simp [hsends] at hr
          | requested hact hge hctrs hcount hsends =>
              rw [hsends] at hr hq
              exact ⟨[], e, events, rfl, List.mem_singleton.mp hr, p, q, rfl, hstep, hq⟩
        · obtain ⟨before, e', after, rfl, hfrom, q₁, q₂, hbefore, hmade⟩ := ih hrun hrest hr
          refine ⟨e :: before, e', after, rfl, hfrom, q₁, q₂, ?_, hmade⟩
          unfold runAll
          rw [hstep]
          exact hbefore
      · cases hrun

/-- While no request covers a bank, its count takes every activation. -/
theorem bankCtrs_run (bank : Int) (hrun : runAll (notify cfg) events p = .ok p') :
    ∃ new, p'.2 = p.2 ++ new ∧ ((∀ r ∈ new, ¬Covers cfg bank r) →
      p'.1.bankCtrs bank = p.1.bankCtrs bank + (events.countP (activates cfg bank) : Nat)) := by
  induction events generalizing p with
  | nil =>
      cases hrun
      exact ⟨[], (List.append_nil _).symm, fun _ => by simp⟩
  | cons e events ih =>
      unfold runAll at hrun
      split at hrun
      · rename_i q hstep
        obtain ⟨sends, hq, heffect⟩ := notify_effect hstep
        obtain ⟨new, hnew, hrest⟩ := ih hrun
        refine ⟨sends ++ new, by rw [hnew, hq, List.append_assoc], fun hno => ?_⟩
        have hfirst : q.1.bankCtrs bank = p.1.bankCtrs bank + if activates cfg bank e then 1 else 0 := by
          unfold activates
          cases heffect with
          | ignored hact hs hsends => simp [hs, hact]
          | counted hact hlt hctrs hcount hsends =>
              rw [hctrs, hact, Bool.true_and]
              by_cases heq : bank = cfg.spec.flatBankId e.2.1
              · rw [heq, Function.update_self, if_pos (beq_self_eq_true _)]
              · rw [Function.update_of_ne heq, if_neg (by simpa using Ne.symm heq), add_zero]
          | requested hact hge hctrs hcount hsends =>
              have hnot : bank ∉ targets cfg e.2.1 := hno (rfmRequest cfg e.2.1) (by simp [hsends])
              rw [hctrs, if_neg hnot, hact, Bool.true_and]
              by_cases heq : bank = cfg.spec.flatBankId e.2.1
              · rw [heq, Function.update_self, if_pos (beq_self_eq_true _)]
              · rw [Function.update_of_ne heq, if_neg (by simpa using Ne.symm heq), add_zero]
        rw [hrest fun r hr => hno r (List.mem_append_right _ hr), hfirst, List.countP_cons]
        split <;> push_cast <;> ring
      · cases hrun

/-- A bank with as many activations as the limit has had a request. -/
theorem covered_of_limit (hbounded : Bounded cfg p.1) (hallowed : ∀ e ∈ events, Allowed cfg e)
    (hrun : runAll (notify cfg) events p = .ok p') :
    ∃ new, p'.2 = p.2 ++ new ∧
      ∀ bank, cfg.limit ≤ (events.countP (activates cfg bank) : Nat) → ∃ r ∈ new, Covers cfg bank r := by
  obtain ⟨new, hnew, -⟩ := requests_run hrun
  refine ⟨new, hnew, fun bank hcount => ?_⟩
  by_contra hno
  push Not at hno
  obtain ⟨new', hnew', hctrs⟩ := bankCtrs_run bank hrun
  obtain rfl : new' = new := List.append_cancel_left (hnew'.symm.trans hnew)
  have hbefore := (hbounded bank).1
  have hafter := (hbounded.run hallowed hrun bank).2
  rw [hctrs hno] at hafter
  omega

/-- What all counts add up to. -/
def total (cfg : RFMManagerConfig) (s : RFMManager) : Int := ∑ i ∈ Finset.range cfg.spec.bankCount, s.bankCtrs i

/-- An activation counts once, and a request takes away at least the limit. -/
theorem total_effect {e : Event} {s s' : RFMManager} {sends : List (Request Command K)} (hbounded : Bounded cfg s)
    (hallowed : Allowed cfg e) (heffect : Effect cfg e s s' sends) :
    total cfg s' + sends.length * cfg.limit ≤ total cfg s + if isActivation e.1 then 1 else 0 := by
  cases heffect with
  | ignored hact hs hsends => simp [hs, hsends, hact]
  | counted hact hlt hctrs hcounter hsends =>
      obtain ⟨i, hi, hbank⟩ := flatBankId_lt (hallowed hact)
      have hmem : i ∈ Finset.range cfg.spec.bankCount := Finset.mem_range.mpr hi
      have hrest : ∑ x ∈ (Finset.range cfg.spec.bankCount).erase i, s'.bankCtrs x =
          ∑ x ∈ (Finset.range cfg.spec.bankCount).erase i, s.bankCtrs x := by
        refine Finset.sum_congr rfl fun x hx => ?_
        rw [hctrs, Function.update_of_ne]
        rw [hbank]
        exact fun heq => Finset.ne_of_mem_erase hx (Int.ofNat.inj heq)
      unfold total
      rw [← Finset.add_sum_erase _ _ hmem, ← Finset.add_sum_erase _ (fun x : Nat => s.bankCtrs x) hmem, hrest, hctrs,
        hbank, Function.update_self, hsends, if_pos hact, List.length_nil]
      push_cast
      omega
  | requested hact hge hctrs hcounter hsends =>
      obtain ⟨i, hi, hbank⟩ := flatBankId_lt (hallowed hact)
      have hmem : i ∈ Finset.range cfg.spec.bankCount := Finset.mem_range.mpr hi
      have htarget : (i : Int) ∈ targets cfg e.2.1 := hbank ▸ flatBankId_mem_targets (hallowed hact)
      have hrest : ∑ x ∈ (Finset.range cfg.spec.bankCount).erase i, s'.bankCtrs x ≤
          ∑ x ∈ (Finset.range cfg.spec.bankCount).erase i, s.bankCtrs x := by
        refine Finset.sum_le_sum fun x hx => ?_
        have hne : (x : Int) ≠ i := fun heq => Finset.ne_of_mem_erase hx (Int.ofNat.inj heq)
        rw [hctrs, hbank, Function.update_of_ne hne]
        split
        · exact (hbounded x).1
        · exact le_rfl
      have hcount := hbounded i
      have hlimit : cfg.limit ≤ s.bankCtrs i + 1 := by
        rw [hbank] at hge
        unfold RFMManagerConfig.limit
        omega
      unfold total
      rw [← Finset.add_sum_erase _ _ hmem, ← Finset.add_sum_erase _ (fun x : Nat => s.bankCtrs x) hmem, hctrs,
        if_pos htarget, hsends, if_pos hact, List.length_singleton]
      push_cast
      omega

theorem total_run (hbounded : Bounded cfg p.1) (hallowed : ∀ e ∈ events, Allowed cfg e)
    (hrun : runAll (notify cfg) events p = .ok p') :
    total cfg p'.1 + p'.2.length * cfg.limit ≤
      total cfg p.1 + p.2.length * cfg.limit + (events.countP fun e => isActivation e.1 : Nat) := by
  induction events generalizing p with
  | nil =>
      cases hrun
      simp
  | cons e events ih =>
      unfold runAll at hrun
      split at hrun
      · rename_i q hstep
        obtain ⟨sends, hq, heffect⟩ := notify_effect hstep
        have he := hallowed e List.mem_cons_self
        have hone := total_effect hbounded he heffect
        have hrest := ih (hbounded.effect he heffect) (fun e' he' => hallowed e' (List.mem_cons_of_mem _ he')) hrun
        rw [hq, List.length_append] at hrest
        rw [List.countP_cons]
        push_cast at hrest ⊢
        rw [add_mul] at hrest
        linarith
      · cases hrun

/-- In every run of notifications that no failed request ends: every count stays below the limit; the
requests are as many as the counter says, at most one for as many activations as the limit; each is for an
activation of the run and targets the banks that agree with the activated one at the levels that its mode
leaves alone; and in any part of the run, a bank that is activated as often as the limit is a target of a
request that is made in that part. -/
theorem rfm_managed (cfg : RFMManagerConfig) {events : List Event} {s : RFMManager}
    {sends : List (Request Command K)} (hallowed : ∀ e ∈ events, Allowed cfg e)
    (hrun : runAll (notify cfg) events ({}, []) = .ok (s, sends)) :
    (∀ b, 0 ≤ s.bankCtrs b ∧ s.bankCtrs b < cfg.limit) ∧
    s.rfmCounter = sends.length ∧
    sends.length * cfg.limit ≤ (events.countP fun e => isActivation e.1 : Nat) ∧
    (∀ r ∈ sends, ∃ e ∈ events, isActivation e.1 = true ∧ r = rfmRequest cfg e.2.1 ∧
      ∀ i < cfg.spec.bankCount, Covers cfg i r ↔ ∀ l < cfg.spec.bankLevel, l + 1 ∉ widened cfg →
        e.2.1.coord (l + 1) = ((cfg.spec.bankNodes.getD i []).getD l 0 : Nat)) ∧
    ∀ before part after, events = before ++ part ++ after → ∃ p p' : RFMManager × List (Request Command K),
      runAll (notify cfg) before ({}, []) = .ok p ∧ runAll (notify cfg) part p = .ok p' ∧
      ∃ new, p'.2 = p.2 ++ new ∧
        ∀ bank, cfg.limit ≤ (part.countP (activates cfg bank) : Nat) → ∃ r ∈ new, Covers cfg bank r := by
  have hbounded : Bounded cfg (({}, []) : RFMManager × List (Request Command K)).1 := Bounded.init cfg
  obtain ⟨new, hnew, hcounter, hfrom⟩ := requests_run hrun
  obtain rfl : sends = new := hnew
  refine ⟨hbounded.run hallowed hrun, ?_, ?_, ?_, ?_⟩
  · simpa using hcounter
  · have hzero : total cfg ({} : RFMManager) = 0 := Finset.sum_eq_zero fun _ _ => rfl
    have hnonneg : 0 ≤ total cfg s := Finset.sum_nonneg fun i _ => (hbounded.run hallowed hrun i).1
    have htotal := total_run hbounded hallowed hrun
    simp only [hzero, List.length_nil, Nat.cast_zero, zero_mul, add_zero, zero_add] at htotal
    omega
  · intro r hr
    obtain ⟨e, he, hact, rfl⟩ := hfrom r hr
    exact ⟨e, he, hact, rfl, fun i hi => mem_targets_iff (hallowed e he hact) hi⟩
  · rintro before part after rfl
    rw [runAll_append, runAll_append] at hrun
    cases hbefore : runAll (notify cfg) before (({}, []) : RFMManager × List (Request Command K)) with
    | error what =>
        rw [hbefore] at hrun
        cases hrun
    | ok p =>
        rw [hbefore] at hrun
        cases hpart : runAll (notify cfg) part p with
        | error what =>
            simp only [Except.bind, hpart] at hrun
            cases hrun
        | ok p' =>
            have hp : Bounded cfg p.1 := hbounded.run
              (fun e he => hallowed e (List.mem_append_left _ (List.mem_append_left _ he))) hbefore
            exact ⟨p, p', rfl, hpart, covered_of_limit hp
              (fun e he => hallowed e (List.mem_append_left _ (List.mem_append_right _ he))) hpart⟩

/-- Two banks of one bank group, with refresh management. -/
def smallManaged : Standard :=
  { RowTracker.smallVRR 16 with supports := fun c => (RowTracker.smallVRR 16).supports c || c == .RFMsb }

def smallRFM : RFMManagerConfig where
  spec := smallManaged
  channelId := 0
  rfmThresh := 2
  rfmMode := .sb
  rankLevel := some 1
  pseudoChannelLevel := none
  bankgroupLevel := some 2
  supported := by decide
  bank_pos := by decide
  bankgroup_lt := by decide

/-- Of three activations of a bank the second makes a request. -/
theorem rfm_managed_small :
    let act (row : Int) : Event := (.ACT, RowTracker.smallAddr 1 row, true)
    ∃ s sends, runAll (notify (K := Unit) smallRFM) [act 5, act 7, act 5] ({}, []) = .ok (s, sends) ∧
      sends.length = 1 ∧ s.bankCtrs 1 = 1 ∧ s.rfmCounter = sends.length := by
  intro act
  have hallowed : ∀ e ∈ [act 5, act 7, act 5], Allowed smallRFM e := by
    unfold Allowed Local Standard.Concrete
    decide
  obtain ⟨s, sends, hrun, hlength, hctr⟩ : ∃ s sends,
      runAll (notify (K := Unit) smallRFM) [act 5, act 7, act 5] ({}, []) = .ok (s, sends) ∧
        sends.length = 1 ∧ s.bankCtrs 1 = 1 := ⟨_, _, rfl, rfl, rfl⟩
  exact ⟨s, sends, hrun, hlength, hctr, (rfm_managed smallRFM hallowed hrun).2.1⟩

end RFMManager

end Ramulator.Controller
