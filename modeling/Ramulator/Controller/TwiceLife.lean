/-
# Ramulator.Controller.TwiceLife — whose refreshes TWiCe counts.

`TWiCeIdeal` prunes its tables, and ages what is left, on every refresh of all banks, whatever rank the
refresh is for. Its entries are compared here with the activations of their rows and with the refreshes of
their own rank.
-/
import Ramulator.Controller.VictimRefresh

namespace Ramulator.Controller.TWiCeIdeal

open Ramulator.Dram Ramulator.Lib

/-- What happened since a row's entry was inserted: activations of the row, and refreshes of its rank. -/
structure Lives where
  acts : Int → Int → Nat := fun _ _ => 0
  refreshes : Int → Int → Nat := fun _ _ => 0

/-- The address of a refresh covers the rank of a bank. -/
def covers (cfg : TWiCeConfig) (rankLevel : Nat) (addr : AddrVec) (bank : Int) : Bool :=
  addr.coord rankLevel == -1 ||
    addr.coord rankLevel == bank / (cfg.spec.bankCount / cfg.spec.levelSize rankLevel)

/-- A command, and what happens to the rows. -/
def observe (cfg : TWiCeConfig) (rankLevel : Nat) (c : Command) (addr : AddrVec) (p : TWiCeIdeal × Lives) :
    TWiCeIdeal × Lives :=
  let (s, x) := p
  let bank := cfg.spec.flatBankId addr
  let row := addr.coord cfg.spec.rowLevel
  ((s.onIssue (K := Unit) cfg c addr).state,
    if isAllBankRefresh c then
      { x with refreshes := fun b r =>
          if covers cfg rankLevel addr b then x.refreshes b r + 1 else x.refreshes b r }
    else if isActivation c then
      match (s.twiceTable bank).lookup row with
      | none =>
          { acts := Function.update x.acts bank (Function.update (x.acts bank) row 1)
            refreshes := Function.update x.refreshes bank (Function.update (x.refreshes bank) row 0) }
      | some _ =>
          { x with acts := Function.update x.acts bank (Function.update (x.acts bank) row (x.acts bank row + 1)) }
    else x)

/-- The tables after a sequence of commands, the last of them first. -/
def run (cfg : TWiCeConfig) (rankLevel : Nat) : List (Command × AddrVec) → TWiCeIdeal × Lives
  | [] => ({}, {})
  | (c, addr) :: log => observe cfg rankLevel c addr (run cfg rankLevel log)

variable {cfg : TWiCeConfig} {rankLevel : Nat} {s s' : TWiCeIdeal} {x : Lives} {c : Command} {addr : AddrVec}
  {log : List (Command × AddrVec)}

/-- Every live entry counts the activations of its row and the refreshes of its rank. -/
def Faithful (p : TWiCeIdeal × Lives) : Prop :=
  ∀ bank row entry, (p.1.twiceTable bank).lookup row = some entry →
    entry.actCount = p.2.acts bank row ∧ entry.life = p.2.refreshes bank row

/-- An entry goes only with a request for its victims, or pruned at a refresh of its rank. -/
def RemovesRightly (cfg : TWiCeConfig) (rankLevel : Nat) (c : Command) (addr : AddrVec) (s : TWiCeIdeal) : Prop :=
  ∀ bank row entry, (s.twiceTable bank).lookup row = some entry →
    ((s.onIssue (K := Unit) cfg c addr).state.twiceTable bank).lookup row = none →
    (isActivation c = true ∧ (bank, row) = rowOf cfg.spec addr ∧ cfg.twiceRhThreshold ≤ entry.actCount + 1 ∧
      (s.onIssue (K := Unit) cfg c addr).sends = [vrrRequest addr]) ∨
    (isAllBankRefresh c = true ∧ covers cfg rankLevel addr bank = true ∧ cfg.prunes entry.actCount entry.life = true)

/-- Throughout a sequence of commands, entries follow the refreshes of their own rank. -/
def FollowsRank (cfg : TWiCeConfig) (rankLevel : Nat) (log : List (Command × AddrVec)) : Prop :=
  (∀ log', log' <:+ log → Faithful (run cfg rankLevel log')) ∧
    ∀ c addr log', (c, addr) :: log' <:+ log → RemovesRightly cfg rankLevel c addr (run cfg rankLevel log').1

/-- Before a refresh of all banks: its rank is that of every live entry. -/
def OneRank (cfg : TWiCeConfig) (rankLevel : Nat) (c : Command) (addr : AddrVec) (s : TWiCeIdeal) : Prop :=
  isAllBankRefresh c = true →
    ∀ bank row entry, (s.twiceTable bank).lookup row = some entry → covers cfg rankLevel addr bank = true

/-! ## One command -/

theorem lookup_prune {m : List (Int × TwiCeEntry)} (hm : KeysNodup m) (row : Int) :
    (prune cfg m).lookup row = (m.lookup row).bind fun e =>
      if cfg.prunes e.actCount e.life then none else some { e with life := e.life + 1 } := by
  have hmap : (prune cfg m).lookup row = ((m.filter fun e => !cfg.prunes e.2.actCount e.2.life).lookup row).map
      fun e => { e with life := e.life + 1 } := by
    rw [prune]
    exact lookup_map_value (fun e : TwiCeEntry => { e with life := e.life + 1 })
      (m.filter fun e => !cfg.prunes e.2.actCount e.2.life) row
  rw [hmap, hm.lookup_filter]
  cases m.lookup row with
  | none => rfl
  | some e =>
      rw [Option.bind_some, Option.filter_some]
      cases cfg.prunes e.actCount e.life with
      | true => rfl
      | false => rfl

theorem isActivation_of_isAllBankRefresh (h : isAllBankRefresh c = true) : isActivation c = false := by
  cases c <;> first | rfl | cases h

/-- The tables after a refresh of all banks. -/
theorem onIssue_refresh (cfg : TWiCeConfig) (addr : AddrVec) (h : isAllBankRefresh c = true) (s : TWiCeIdeal) :
    (s.onIssue (K := Unit) cfg c addr).state.twiceTable = fun b => prune cfg (s.twiceTable b) := by
  rw [onIssue, if_pos h]

/-- The tables after an activation: the other rows are left alone. -/
theorem onIssue_activation (cfg : TWiCeConfig) (addr : AddrVec) (h : isActivation c = true) (s : TWiCeIdeal) :
    let bank := cfg.spec.flatBankId addr
    let row := addr.coord cfg.spec.rowLevel
    let out := s.onIssue (K := Unit) cfg c addr
    (∀ b r, (b, r) ≠ (bank, row) → (out.state.twiceTable b).lookup r = (s.twiceTable b).lookup r) ∧
      match (s.twiceTable bank).lookup row with
      | none => (out.state.twiceTable bank).lookup row = some ⟨1, 0⟩
      | some e =>
          if cfg.twiceRhThreshold ≤ e.actCount + 1 then
            (out.state.twiceTable bank).lookup row = none ∧ out.sends = [vrrRequest addr]
          else (out.state.twiceTable bank).lookup row = some { e with actCount := e.actCount + 1 } := by
  intro bank row out
  have hrefresh : ¬ isAllBankRefresh c = true := by
    intro hc
    rw [isActivation_of_isAllBankRefresh hc] at h
    cases h
  have hout : out = s.onIssue (K := Unit) cfg c addr := rfl
  rw [onIssue, if_neg hrefresh, h, if_neg Bool.noConfusion] at hout
  dsimp only at hout
  have hset : ∀ m, (s.setTable bank m).twiceTable bank = m := fun m => Function.update_self ..
  have hother : ∀ m, (∀ r, r ≠ row → m.lookup r = (s.twiceTable bank).lookup r) →
      ∀ b r, (b, r) ≠ (bank, row) → ((s.setTable bank m).twiceTable b).lookup r = (s.twiceTable b).lookup r := by
    intro m hm b r hne
    by_cases hb : b = bank
    · rw [hb, hset]
      exact hm r fun hr => hne (by rw [hb, hr])
    · have htable : (s.setTable bank m).twiceTable b = s.twiceTable b := Function.update_of_ne hb ..
      rw [htable]
  have hassign : ∀ e r, r ≠ row → (assign row e (s.twiceTable bank)).lookup r = (s.twiceTable bank).lookup r := by
    intro e r hr
    rw [lookup_assign, if_neg (by simpa using hr)]
  have hself : ∀ e, (assign row e (s.twiceTable bank)).lookup row = some e := by
    intro e
    rw [lookup_assign, beq_self_eq_true, if_pos rfl]
  cases hrow : (s.twiceTable bank).lookup row with
  | none =>
      rw [hrow] at hout
      dsimp only at hout ⊢
      rw [hout]
      exact ⟨hother _ (hassign _), by rw [hset, hself]⟩
  | some e =>
      rw [hrow] at hout
      dsimp only at hout ⊢
      by_cases hcount : e.actCount + 1 ≥ cfg.twiceRhThreshold
      · rw [if_pos hcount] at hout
        rw [if_pos hcount, hout]
        refine ⟨hother _ ?_, ?_, rfl⟩
        · intro r hr
          rw [lookup_eraseKey, if_neg (by simpa using hr)]
        · rw [hset, lookup_eraseKey, beq_self_eq_true, if_pos rfl]
      · rw [if_neg hcount] at hout
        rw [if_neg hcount, hout]
        exact ⟨hother _ (hassign _), by rw [hset, hself]⟩

/-- Each row has at most one entry. -/
theorem keysNodup_onIssue (h : ∀ b, KeysNodup (s.twiceTable b)) (b : Int) :
    KeysNodup ((s.onIssue (K := Unit) cfg c addr).state.twiceTable b) := by
  have hset : ∀ bank m, KeysNodup m → KeysNodup ((s.setTable bank m).twiceTable b) := by
    intro bank m hm
    by_cases hb : b = bank
    · have htable : (s.setTable bank m).twiceTable bank = m := Function.update_self ..
      rw [hb, htable]
      exact hm
    · have htable : (s.setTable bank m).twiceTable b = s.twiceTable b := Function.update_of_ne hb ..
      rw [htable]
      exact h b
  have hbank := h (cfg.spec.flatBankId addr)
  unfold onIssue
  dsimp only
  split_ifs with hrefresh hact
  · have hfilter : KeysNodup ((s.twiceTable b).filter fun e => !cfg.prunes e.2.actCount e.2.life) :=
      (h b).sublist (List.filter_sublist.map Prod.fst)
    dsimp only [prune]
    unfold KeysNodup at hfilter ⊢
    rw [List.map_map]
    exact hfilter
  · exact h b
  · cases (s.twiceTable (cfg.spec.flatBankId addr)).lookup (addr.coord cfg.spec.rowLevel) with
    | none => exact hset _ _ (hbank.assign _ _)
    | some e =>
        dsimp only
        split_ifs
        · exact hset _ _ (hbank.eraseKey _)
        · exact hset _ _ (hbank.assign _ _)

/-- A refresh keeps every entry right, and prunes rightly, exactly when it covers all of them. -/
theorem refresh_iff (hkeys : ∀ b, KeysNodup (s.twiceTable b)) (h : Faithful (s, x)) (hc : isAllBankRefresh c = true) :
    (Faithful (observe cfg rankLevel c addr (s, x)) ∧ RemovesRightly cfg rankLevel c addr s) ↔
      OneRank cfg rankLevel c addr s := by
  have htable := onIssue_refresh cfg addr hc s
  have hlookup : ∀ b r, ((s.onIssue (K := Unit) cfg c addr).state.twiceTable b).lookup r =
      ((s.twiceTable b).lookup r).bind fun e =>
        if cfg.prunes e.actCount e.life then none else some { e with life := e.life + 1 } := by
    intro b r
    rw [htable]
    exact lookup_prune (hkeys b) r
  have hact := isActivation_of_isAllBankRefresh hc
  unfold Faithful observe RemovesRightly OneRank
  simp only [hlookup, hc, hact, if_true]
  constructor
  · rintro ⟨hfaithful, hremoves⟩ - bank row entry hentry
    by_contra hnot
    have hnot' : covers cfg rankLevel addr bank = false := by simpa using hnot
    cases hprunes : cfg.prunes entry.actCount entry.life with
    | true =>
        -- it is forgotten on the refresh of another rank
        have hremoved := hremoves bank row entry hentry (by rw [hentry, Option.bind_some, hprunes, if_pos rfl])
        rcases hremoved with ⟨hfalse, -⟩ | ⟨-, hcovers, -⟩
        · cases hfalse
        · exact hnot hcovers
    | false =>
        -- it ages on the refresh of another rank
        have haged := (hfaithful bank row { entry with life := entry.life + 1 }
          (by rw [hentry, Option.bind_some, hprunes]; rfl)).2
        have hbefore := (h bank row entry hentry).2
        simp only [hnot', Bool.false_eq_true, if_false] at haged hbefore
        omega
  · intro hcovers
    constructor
    · intro bank row entry' hentry'
      obtain ⟨entry, hentry, hkept⟩ := Option.bind_eq_some_iff.mp hentry'
      split at hkept
      · cases hkept
      · obtain ⟨hacts, hlife⟩ := h bank row entry hentry
        rw [← Option.some.inj hkept, if_pos (hcovers trivial bank row entry hentry)]
        dsimp only
        refine ⟨hacts, ?_⟩
        rw [hlife]
        rfl
    · intro bank row entry hentry hgone
      rw [hentry, Option.bind_some] at hgone
      split at hgone
      · rename_i hprunes
        exact .inr ⟨trivial, hcovers trivial bank row entry hentry, hprunes⟩
      · cases hgone

/-- Any other command keeps every entry right, and removes rightly. -/
theorem other_keeps (h : Faithful (s, x)) (hc : isAllBankRefresh c = false) :
    Faithful (observe cfg rankLevel c addr (s, x)) ∧ RemovesRightly cfg rankLevel c addr s := by
  cases hact : isActivation c with
  | false =>
      have hstate : (s.onIssue (K := Unit) cfg c addr).state = s := by
        rw [onIssue, hc, hact]
        rfl
      constructor
      · unfold Faithful observe
        dsimp only
        rw [hstate, hc, hact]
        exact h
      · intro bank row entry hentry hgone
        rw [hstate, hentry] at hgone
        cases hgone
  | true =>
      obtain ⟨hothers, hown⟩ := onIssue_activation cfg addr hact s
      unfold Faithful observe RemovesRightly
      dsimp only
      rw [hc, hact, if_neg Bool.false_ne_true, if_pos rfl]
      cases hrow : (s.twiceTable (cfg.spec.flatBankId addr)).lookup (addr.coord cfg.spec.rowLevel) with
      | none =>
          rw [hrow] at hown
          dsimp only at hown ⊢
          constructor
          · intro b r e' he'
            by_cases hbr : (b, r) = (cfg.spec.flatBankId addr, addr.coord cfg.spec.rowLevel)
            · obtain ⟨rfl, rfl⟩ := Prod.mk.inj hbr
              rw [hown] at he'
              rw [← Option.some.inj he', update_update_self, update_update_self]
              exact ⟨rfl, rfl⟩
            · rw [hothers b r hbr] at he'
              rw [update_update_of_ne _ hbr, update_update_of_ne _ hbr]
              exact h b r e' he'
          · intro b r e' he' hgone
            by_cases hbr : (b, r) = (cfg.spec.flatBankId addr, addr.coord cfg.spec.rowLevel)
            · obtain ⟨rfl, rfl⟩ := Prod.mk.inj hbr
              rw [hrow] at he'
              cases he'
            · rw [hothers b r hbr, he'] at hgone
              cases hgone
      | some e =>
          rw [hrow] at hown
          dsimp only at hown ⊢
          constructor
          · intro b r e' he'
            by_cases hbr : (b, r) = (cfg.spec.flatBankId addr, addr.coord cfg.spec.rowLevel)
            · obtain ⟨rfl, rfl⟩ := Prod.mk.inj hbr
              obtain ⟨hacts, hlife⟩ := h _ _ e hrow
              split at hown
              · rw [hown.1] at he'
                cases he'
              · rw [hown] at he'
                rw [← Option.some.inj he', update_update_self]
                dsimp only at hacts hlife ⊢
                refine ⟨?_, hlife⟩
                rw [hacts]
                rfl
            · rw [hothers b r hbr] at he'
              rw [update_update_of_ne _ hbr]
              exact h b r e' he'
          · intro b r e' he' hgone
            by_cases hbr : (b, r) = (cfg.spec.flatBankId addr, addr.coord cfg.spec.rowLevel)
            · obtain ⟨rfl, rfl⟩ := Prod.mk.inj hbr
              rw [hrow] at he'
              rw [← Option.some.inj he']
              split at hown
              · rename_i hcount
                exact .inl ⟨rfl, rfl, hcount, hown.2⟩
              · rw [hown] at hgone
                cases hgone
            · rw [hothers b r hbr, he'] at hgone
              cases hgone

/-! ## Runs -/

theorem keysNodup_run (cfg : TWiCeConfig) (rankLevel : Nat) (log : List (Command × AddrVec)) (b : Int) :
    KeysNodup ((run cfg rankLevel log).1.twiceTable b) := by
  induction log generalizing b with
  | nil => exact List.nodup_nil
  | cons call log ih => exact keysNodup_onIssue ih b

/-- One more command, on a state whose entries are right. -/
theorem observe_iff (h : Faithful (run cfg rankLevel log)) (c : Command) (addr : AddrVec) :
    (Faithful (run cfg rankLevel ((c, addr) :: log)) ∧ RemovesRightly cfg rankLevel c addr (run cfg rankLevel log).1) ↔
      OneRank cfg rankLevel c addr (run cfg rankLevel log).1 := by
  cases hc : isAllBankRefresh c with
  | true => exact refresh_iff (keysNodup_run cfg rankLevel log) h hc
  | false =>
      refine ⟨fun _ hrefresh => ?_, fun _ => other_keeps h hc⟩
      rw [hc] at hrefresh
      cases hrefresh

theorem faithful_of_oneRank
    (h : ∀ c addr log', (c, addr) :: log' <:+ log → OneRank cfg rankLevel c addr (run cfg rankLevel log').1) :
    Faithful (run cfg rankLevel log) := by
  induction log with
  | nil =>
      intro bank row entry hentry
      cases hentry
  | cons call log ih =>
      obtain ⟨c, addr⟩ := call
      have hbefore := ih fun c' addr' log' hs => h c' addr' log' (hs.trans (List.suffix_cons _ _))
      exact ((observe_iff hbefore c addr).mpr (h c addr log (List.suffix_refl _))).1

/-- Throughout a sequence of commands, every entry follows the activations of its row and the refreshes of
its own rank, exactly when every refresh of all banks finds entries of its own rank only. -/
theorem followsRank_iff (cfg : TWiCeConfig) (rankLevel : Nat) (log : List (Command × AddrVec)) :
    FollowsRank cfg rankLevel log ↔
      ∀ c addr log', (c, addr) :: log' <:+ log → OneRank cfg rankLevel c addr (run cfg rankLevel log').1 := by
  constructor
  · rintro ⟨hfaithful, hremoves⟩ c addr log' hs
    have hbefore := hfaithful log' ((List.suffix_cons _ _).trans hs)
    exact (observe_iff hbefore c addr).mp ⟨hfaithful _ hs, hremoves c addr log' hs⟩
  · intro h
    have hfaithful : ∀ log', log' <:+ log → Faithful (run cfg rankLevel log') :=
      fun log' hs => faithful_of_oneRank fun c addr log'' hs' => h c addr log'' (hs'.trans hs)
    refine ⟨hfaithful, ?_⟩
    intro c addr log' hs
    have hbefore := hfaithful log' ((List.suffix_cons _ _).trans hs)
    exact ((observe_iff hbefore c addr).mpr (h c addr log' hs)).2

/-- The small instance with two ranks, where a row is pruned below two activations for each refresh. -/
def twoRanks : TWiCeConfig where
  spec := { RowTracker.smallVRR 16 with levelSizes := [1, 2, 1, 2, 16, 16] }
  twiceRhThreshold := 4
  prunes := fun actCount life => actCount < life * 2

/-- A row of rank 0 ages on a refresh of rank 1, and is pruned on the next one. -/
theorem not_followsRank_other :
    ¬ FollowsRank twoRanks 1 [(.REFab, [0, 1, -1, -1, -1, -1]), (.REFab, [0, 1, -1, -1, -1, -1]),
      (.ACT, [0, 0, 0, 0, 5, 0])] := by
  rintro ⟨-, hremoves⟩
  rcases hremoves .REFab [0, 1, -1, -1, -1, -1] _ (List.suffix_refl _) 0 5 ⟨1, 1⟩ rfl rfl with ⟨hact, -⟩ | ⟨-, hcovers, -⟩
  · cases hact
  · cases hcovers

end Ramulator.Controller.TWiCeIdeal
