/-
# Ramulator.ChiaLoop.CampaignChain — promotion is monotone over a whole campaign.

The incumbents of a campaign form a chain: the seed, then what each recorded iteration selected. A link of the
chain either keeps the incumbent or replaces it by one that dominates it; where validation is a gate the
replacement is no worse there. The invariant of the store says that every recorded iteration is such a link,
and carries what lets the next comparison go through: an incumbent's own report can be compared, and under a
gate so can its recorded validation.
-/
import Ramulator.ChiaLoop.Campaign

namespace Ramulator.ChiaLoop.Campaign

open Ramulator.Lib Ramulator.ChiaLoop.Scoring

variable {κ : Type} {candidateId : κ → String} {cfg : Config} {s s' : Store κ}

/-! ## Links of the chain -/

/-- The pair of objectives of a receipt. -/
def Receipt.objectives (r : Receipt κ) : Option (ℚ × ℚ) := r.measurement.bind Summary.objectives

/-- A receipt can be compared at a stage. -/
def Receipt.Valid (r : Receipt κ) (stage : Stage) (v : ℚ × ℚ) : Prop :=
  ∃ m, r.measurement = some m ∧ m.Valid stage v

theorem Receipt.Valid.objectives_eq {r : Receipt κ} {stage : Stage} {v : ℚ × ℚ} (h : r.Valid stage v) :
    r.objectives = some v := by
  obtain ⟨m, hm, hv⟩ := h
  rw [Receipt.objectives, hm]
  exact hv.objectives_eq

/-- The validation of a candidate is recorded, and can be compared. -/
def Validated (candidateId : κ → String) (s : Store κ) (candidate : κ) (v : ℚ × ℚ) : Prop :=
  ∃ r, s.measurements (.validation, candidateId candidate) = some (candidate, r) ∧ r.Valid .validation v

/-- What lets an incumbent be compared again. -/
structure Fit (candidateId : κ → String) (cfg : Config) (s : Store κ) (r : Receipt κ) : Prop where
  training : ∃ v, r.Valid .training v
  validation : cfg.validationNonWorsening = true → ∃ v, Validated candidateId s r.candidate v

/-- An iteration from the incumbent `r`. -/
structure Link (candidateId : κ → String) (cfg : Config) (s : Store κ) (r : Receipt κ) (o : Outcome κ) : Prop where
  parent : o.parent = r.candidate
  kept : o.promoted = false → o.selected = r
  replaced : o.promoted = true → o.training = some o.selected ∧ o.selected.candidate = o.candidate ∧
    o.check.candidate = o.candidate ∧ o.check.passed = true ∧
    ∃ new old, o.selected.Valid .training new ∧ r.Valid .training old ∧ new < old
  gate : cfg.validationNonWorsening = true → ∃ new old, Validated candidateId s o.selected.candidate new ∧
    Validated candidateId s r.candidate old ∧ new ≤ old

/-- `r` is the incumbent after `k` iterations. -/
inductive Chain (candidateId : κ → String) (cfg : Config) (s : Store κ) : Nat → Receipt κ → Prop where
  | seed {seed : κ} {r : Receipt κ} (hprepared : s.prepared () = some ((), seed))
      (htraining : s.measurements (.training, candidateId seed) = some (seed, r)) (hfit : Fit candidateId cfg s r) :
      Chain candidateId cfg s 0 r
  | round {k : Nat} {r : Receipt κ} {o : Outcome κ} (hchain : Chain candidateId cfg s k r)
      (hrecorded : s.iterations (k + 1) = some o) (hlink : Link candidateId cfg s r o)
      (hfit : Fit candidateId cfg s o.selected) : Chain candidateId cfg s (k + 1) o.selected

/-- Every recorded iteration is a link, and a selection is the end of the chain. -/
structure Inv (candidateId : κ → String) (cfg : Config) (s : Store κ) : Prop where
  iterations : ∀ n o, s.iterations n = some o → ∃ k r, n = k + 1 ∧ Chain candidateId cfg s k r ∧
    Link candidateId cfg s r o ∧ Fit candidateId cfg s o.selected
  selection : ∀ sel, s.selection () = some sel → Chain candidateId cfg s sel.iterations sel.training ∧
    sel.candidate = sel.training.candidate

theorem Validated.mono (hle : s ≤ s') {c : κ} {v : ℚ × ℚ} (h : Validated candidateId s c v) :
    Validated candidateId s' c v := by
  obtain ⟨r, hr, hv⟩ := h
  exact ⟨r, hle.2.2.1 _ _ hr, hv⟩

theorem Fit.mono (hle : s ≤ s') {r : Receipt κ} (h : Fit candidateId cfg s r) : Fit candidateId cfg s' r := by
  refine ⟨h.training, fun hgate => ?_⟩
  obtain ⟨v, hv⟩ := h.validation hgate
  exact ⟨v, hv.mono hle⟩

theorem Link.mono (hle : s ≤ s') {r : Receipt κ} {o : Outcome κ} (h : Link candidateId cfg s r o) :
    Link candidateId cfg s' r o := by
  refine ⟨h.parent, h.kept, h.replaced, fun hgate => ?_⟩
  obtain ⟨new, old, hnew, hold, hv⟩ := h.gate hgate
  exact ⟨new, old, hnew.mono hle, hold.mono hle, hv⟩

theorem Chain.mono (hle : s ≤ s') {k : Nat} {r : Receipt κ} (h : Chain candidateId cfg s k r) :
    Chain candidateId cfg s' k r := by
  induction h with
  | seed hprepared htraining hfit => exact .seed (hle.1 _ _ hprepared) (hle.2.2.1 _ _ htraining) (hfit.mono hle)
  | round _ hrecorded hlink hfit ih => exact .round ih (hle.2.2.2.2.1 _ _ hrecorded) (hlink.mono hle) (hfit.mono hle)

theorem Chain.fit {k : Nat} {r : Receipt κ} (h : Chain candidateId cfg s k r) : Fit candidateId cfg s r := by
  cases h with
  | seed _ _ hfit => exact hfit
  | round _ _ _ hfit => exact hfit

/-- A store has one incumbent after each number of iterations. -/
theorem Chain.unique {k : Nat} {r r' : Receipt κ} (h : Chain candidateId cfg s k r)
    (h' : Chain candidateId cfg s k r') : r = r' := by
  induction h generalizing r' with
  | seed hprepared htraining _ =>
      cases h' with
      | seed hprepared' htraining' _ =>
          rw [hprepared] at hprepared'
          obtain rfl := congrArg Prod.snd (Option.some.inj hprepared')
          rw [htraining] at htraining'
          exact congrArg Prod.snd (Option.some.inj htraining')
  | round _ hrecorded _ _ _ =>
      cases h' with
      | round _ hrecorded' _ _ =>
          rw [hrecorded] at hrecorded'
          exact congrArg Outcome.selected (Option.some.inj hrecorded')

/-- A store that has recorded more, but no iteration and no selection. -/
theorem Inv.mono (h : Inv candidateId cfg s) (hle : s ≤ s') (hiterations : s'.iterations = s.iterations)
    (hselection : s'.selection = s.selection) : Inv candidateId cfg s' := by
  constructor
  case iterations =>
    intro n o ho
    rw [hiterations] at ho
    obtain ⟨k, r, hn, hchain, hlink, hfit⟩ := h.iterations n o ho
    exact ⟨k, r, hn, hchain.mono hle, hlink.mono hle, hfit.mono hle⟩
  case selection =>
    intro sel hsel
    rw [hselection] at hsel
    exact ⟨(h.selection sel hsel).1.mono hle, (h.selection sel hsel).2⟩

/-! ## Along the chain -/

/-- The objectives only improve along the chain, and an incumbent that was replaced is left behind. -/
theorem Chain.improves {j k : Nat} {r r' : Receipt κ} (h : Chain candidateId cfg s k r')
    (hj : Chain candidateId cfg s j r) (hle : j ≤ k) :
    r' = r ∨ ∃ new old, r'.Valid .training new ∧ r.Valid .training old ∧ new < old := by
  induction h with
  | seed hprepared htraining hfit =>
      obtain rfl : j = 0 := by omega
      exact .inl ((Chain.seed hprepared htraining hfit).unique hj)
  | @round k q o hchain hrecorded hlink hfit ih =>
      by_cases hlast : j = k + 1
      · subst hlast
        exact .inl ((Chain.round hchain hrecorded hlink hfit).unique hj)
      have hbefore := ih (by omega)
      cases hpromoted : o.promoted with
      | false =>
          rw [hlink.kept hpromoted]
          exact hbefore
      | true =>
          right
          obtain ⟨-, -, -, -, new, old, hnew, hold, hlt⟩ := hlink.replaced hpromoted
          rcases hbefore with rfl | ⟨mid, first, hmid, hfirst, hlt'⟩
          · exact ⟨new, old, hnew, hold, hlt⟩
          · have hsame : mid = old := Option.some.inj (hmid.objectives_eq.symm.trans hold.objectives_eq)
            subst hsame
            exact ⟨new, first, hnew, hfirst, hlt.trans hlt'⟩

/-- Under a gate the recorded validation of the incumbents is never worse. -/
theorem Chain.gated (hgate : cfg.validationNonWorsening = true) {j k : Nat} {r r' : Receipt κ}
    (h : Chain candidateId cfg s k r') (hj : Chain candidateId cfg s j r) (hle : j ≤ k) :
    ∃ new old, Validated candidateId s r'.candidate new ∧ Validated candidateId s r.candidate old ∧ new ≤ old := by
  have hsame : ∀ {q : Receipt κ}, Fit candidateId cfg s q → ∃ new old, Validated candidateId s q.candidate new ∧
      Validated candidateId s q.candidate old ∧ new ≤ old := by
    intro q hq
    obtain ⟨v, hv⟩ := hq.validation hgate
    exact ⟨v, v, hv, hv, le_refl v⟩
  induction h with
  | seed hprepared htraining hfit =>
      obtain rfl : j = 0 := by omega
      obtain rfl := (Chain.seed hprepared htraining hfit).unique hj
      exact hsame hfit
  | @round k q o hchain hrecorded hlink hfit ih =>
      by_cases hlast : j = k + 1
      · subst hlast
        obtain rfl := (Chain.round hchain hrecorded hlink hfit).unique hj
        exact hsame hfit
      obtain ⟨mid, old, hmid, hold, hbefore⟩ := ih (by omega)
      obtain ⟨new, mid', hnew, hmid', hlast⟩ := hlink.gate hgate
      have heq : mid' = mid := by
        obtain ⟨a, ha, hva⟩ := hmid'
        obtain ⟨b, hb, hvb⟩ := hmid
        rw [ha] at hb
        obtain rfl := congrArg Prod.snd (Option.some.inj hb)
        exact Option.some.inj (hva.objectives_eq.symm.trans hvb.objectives_eq)
      subst heq
      exact ⟨new, old, hnew, hold, hlast.trans hbefore⟩

end Ramulator.ChiaLoop.Campaign
