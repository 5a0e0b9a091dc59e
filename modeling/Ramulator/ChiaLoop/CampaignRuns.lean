/-
# Ramulator.ChiaLoop.CampaignRuns — what holds of every campaign.

A campaign is resumed over its store as often as it fails, each time against other sessions, other measurements
and other failures. The statements are about what is recorded in any store that can come about so: who the
incumbent was after each iteration, and what was selected.
-/
import Ramulator.ChiaLoop.CampaignSearch
import Ramulator.Lib.Run

namespace Ramulator.ChiaLoop.Campaign

open Ramulator.Lib Ramulator.ChiaLoop.Scoring

variable {κ : Type} [DecidableEq κ] {candidateId : κ → String} {cfg : Config} {s : Store κ}

/-- The stores that resumed runs of the search leave, the last one included. -/
abbrev Recorded (candidateId : κ → String) (cfg : Config) : Store κ → Prop :=
  Reachable Store.empty fun s (ω : Research κ) s' => s' = ((runSearch candidateId cfg ω).run s).2

/-- A run from a recorded store leaves one. -/
theorem Recorded.run (h : Recorded candidateId cfg s) (ω : Research κ) :
    Recorded candidateId cfg ((runSearch candidateId cfg ω).run s).2 :=
  .step ω h rfl

omit [DecidableEq κ] in
theorem inv_empty (candidateId : κ → String) (cfg : Config) : Inv candidateId cfg (Store.empty : Store κ) := by
  constructor
  case iterations =>
    intro n o ho
    have hnone : (none : Option (Outcome κ)) = some o := ho
    cases hnone
  case selection =>
    intro sel hsel
    have hnone : (none : Option (Selection κ)) = some sel := hsel
    cases hnone

theorem Recorded.inv (h : Recorded candidateId cfg s) : Inv candidateId cfg s := by
  refine Reachable.invariant _ (inv_empty candidateId cfg) ?_ h
  rintro s ω _ hs rfl
  exact (runSearch_keeps hs).2.1

/-! ## The incumbents of a store -/

/-- The incumbent after `k` iterations. -/
def incumbent (candidateId : κ → String) (s : Store κ) : Nat → Option (Receipt κ)
  | 0 => (s.prepared ()).bind fun e => (s.measurements (.training, candidateId e.2)).map Prod.snd
  | k + 1 => (s.iterations (k + 1)).map Outcome.selected

/-- The recorded objectives of a candidate's validation. -/
def validationOf (candidateId : κ → String) (s : Store κ) (candidate : κ) : Option (ℚ × ℚ) :=
  (s.measurements (.validation, candidateId candidate)).bind fun e => e.2.objectives

/-- The pair of objectives of `r` strictly dominates that of `r'`. -/
def Receipt.Dominates (r r' : Receipt κ) : Prop :=
  ∃ new old, r.objectives = some new ∧ r'.objectives = some old ∧ dominates new old = true

omit [DecidableEq κ] in
theorem Receipt.Dominates.of_lt {r r' : Receipt κ}
    (h : ∃ new old, r.Valid .training new ∧ r'.Valid .training old ∧ new < old) : r.Dominates r' := by
  obtain ⟨new, old, hnew, hold, hlt⟩ := h
  exact ⟨new, old, hnew.objectives_eq, hold.objectives_eq, dominates_iff.mpr hlt⟩

omit [DecidableEq κ] in
theorem Receipt.Dominates.trans {r r' r'' : Receipt κ} (h : r.Dominates r') (h' : r'.Dominates r'') : r.Dominates r'' := by
  obtain ⟨new, mid, hnew, hmid, hlt⟩ := h
  obtain ⟨mid', old, hmid', hold, hlt'⟩ := h'
  obtain rfl := Option.some.inj (hmid.symm.trans hmid')
  exact ⟨new, old, hnew, hold, dominates_iff.mpr ((dominates_iff.mp hlt).trans (dominates_iff.mp hlt'))⟩

omit [DecidableEq κ] in
/-- What dominates has other objectives, and is not dominated. -/
theorem Receipt.Dominates.ne {r r' : Receipt κ} (h : r.Dominates r') : r.objectives ≠ r'.objectives := by
  obtain ⟨new, old, hnew, hold, hlt⟩ := h
  rw [hnew, hold]
  intro heq
  obtain rfl := Option.some.inj heq
  exact lt_irrefl _ (dominates_iff.mp hlt)

omit [DecidableEq κ] in
theorem Receipt.Dominates.asymm {r r' : Receipt κ} (h : r.Dominates r') : ¬ r'.Dominates r :=
  fun h' => (h.trans h').ne rfl

omit [DecidableEq κ] in
theorem Validated.validationOf_eq {c : κ} {v : ℚ × ℚ} (h : Validated candidateId s c v) :
    validationOf candidateId s c = some v := by
  obtain ⟨r, hr, hv⟩ := h
  rw [validationOf, hr]
  exact hv.objectives_eq

omit [DecidableEq κ] in
theorem Chain.incumbent_eq {k : Nat} {r : Receipt κ} (h : Chain candidateId cfg s k r) :
    incumbent candidateId s k = some r := by
  cases h with
  | seed hprepared htraining _ => rw [incumbent, hprepared, Option.bind_some, htraining, Option.map_some]
  | round _ hrecorded _ _ => rw [incumbent, hrecorded, Option.map_some]

omit [DecidableEq κ] in
/-- Before the end of a chain there is a chain to each iteration. -/
theorem Chain.before {j k : Nat} {r : Receipt κ} (h : Chain candidateId cfg s k r) (hle : j ≤ k) :
    ∃ q, Chain candidateId cfg s j q := by
  induction h with
  | seed hprepared htraining hfit =>
      obtain rfl : j = 0 := by omega
      exact ⟨_, .seed hprepared htraining hfit⟩
  | @round k r o hchain hrecorded hlink hfit ih =>
      by_cases hlast : j = k + 1
      · subst hlast
        exact ⟨_, .round hchain hrecorded hlink hfit⟩
      · exact ih (by omega)

omit [DecidableEq κ] in
/-- The incumbent after an iteration ends a chain, and so does each incumbent before it. -/
theorem Inv.chain_of_incumbent (hs : Inv candidateId cfg s) {j k : Nat} {r r' : Receipt κ} (hlt : j < k)
    (hr : incumbent candidateId s j = some r) (hr' : incumbent candidateId s k = some r') :
    Chain candidateId cfg s j r ∧ Chain candidateId cfg s k r' := by
  have hend : Chain candidateId cfg s k r' := by
    cases k with
    | zero => omega
    | succ k =>
        obtain ⟨o, ho, rfl⟩ := Option.map_eq_some_iff.mp hr'
        obtain ⟨i, q, hi, hchain, hlink, hfit⟩ := hs.iterations _ o ho
        obtain rfl : k = i := by omega
        exact .round hchain ho hlink hfit
  obtain ⟨q, hq⟩ := hend.before hlt.le
  obtain rfl := Option.some.inj (hq.incumbent_eq.symm.trans hr)
  exact ⟨hq, hend⟩

/-! ## Monotone promotion -/

/-- An iteration keeps the incumbent or promotes a candidate that passed its check and dominates it. -/
def Outcome.Promotes (o : Outcome κ) (r : Receipt κ) : Prop :=
  o.parent = r.candidate ∧ (o.promoted = false → o.selected = r) ∧
    (o.promoted = true → o.selected.Dominates r ∧ o.training = some o.selected ∧ o.selected.candidate = o.candidate ∧
      o.check.candidate = o.candidate ∧ o.check.passed = true)

omit [DecidableEq κ] in
theorem Link.promotes {r : Receipt κ} {o : Outcome κ} (h : Link candidateId cfg s r o) : o.Promotes r := by
  refine ⟨h.parent, h.kept, fun hpromoted => ?_⟩
  obtain ⟨htraining, hselected, hcheck, hpassed, hlt⟩ := h.replaced hpromoted
  exact ⟨.of_lt hlt, htraining, hselected, hcheck, hpassed⟩

/-- What a store records of the incumbents. -/
structure Monotone (candidateId : κ → String) (cfg : Config) (s : Store κ) : Prop where
  iterations : ∀ n o, s.iterations n = some o →
    ∃ k r, n = k + 1 ∧ incumbent candidateId s k = some r ∧ o.Promotes r
  improves : ∀ j k r r', j < k → incumbent candidateId s j = some r → incumbent candidateId s k = some r' →
    r' = r ∨ r'.Dominates r
  replaced : ∀ i j k r q r', i < j → j ≤ k → incumbent candidateId s i = some r → incumbent candidateId s j = some q →
    q ≠ r → incumbent candidateId s k = some r' → r'.objectives ≠ r.objectives
  validation : cfg.validationNonWorsening = true → ∀ j k r r', j < k → incumbent candidateId s j = some r →
    incumbent candidateId s k = some r' → ∃ new old, validationOf candidateId s r'.candidate = some new ∧
      validationOf candidateId s r.candidate = some old ∧ new.1 ≤ old.1 ∧ new.2 ≤ old.2
  selection : ∀ sel, s.selection () = some sel → sel.candidate = sel.training.candidate ∧
    incumbent candidateId s sel.iterations = some sel.training ∧
    ∀ j r, j ≤ sel.iterations → incumbent candidateId s j = some r → ¬ r.Dominates sel.training

omit [DecidableEq κ] in
/-- A later incumbent is an earlier one, or dominates it. -/
theorem Inv.improves (hs : Inv candidateId cfg s) {j k : Nat} {r r' : Receipt κ} (hlt : j < k)
    (hr : incumbent candidateId s j = some r) (hr' : incumbent candidateId s k = some r') :
    r' = r ∨ r'.Dominates r := by
  obtain ⟨hchain, hchain'⟩ := hs.chain_of_incumbent hlt hr hr'
  exact (hchain'.improves hchain hlt.le).imp_right .of_lt

omit [DecidableEq κ] in
/-- A replaced incumbent is left behind. -/
theorem Inv.replaced (hs : Inv candidateId cfg s) {i j k : Nat} {r q r' : Receipt κ} (hij : i < j) (hjk : j ≤ k)
    (hr : incumbent candidateId s i = some r) (hq : incumbent candidateId s j = some q) (hne : q ≠ r)
    (hr' : incumbent candidateId s k = some r') : r'.objectives ≠ r.objectives := by
  have hdominates : q.Dominates r := (hs.improves hij hr hq).resolve_left hne
  by_cases hlast : j = k
  · subst hlast
    obtain rfl := Option.some.inj (hq.symm.trans hr')
    exact hdominates.ne
  · rcases hs.improves (show j < k by omega) hq hr' with rfl | hlater
    · exact hdominates.ne
    · exact (hlater.trans hdominates).ne

omit [DecidableEq κ] in
theorem Inv.not_dominated (hs : Inv candidateId cfg s) {sel : Selection κ} (hsel : s.selection () = some sel) {j : Nat}
    {r : Receipt κ} (hle : j ≤ sel.iterations) (hr : incumbent candidateId s j = some r) :
    ¬ r.Dominates sel.training := by
  have hend := (hs.selection sel hsel).1.incumbent_eq
  by_cases hlast : j = sel.iterations
  · subst hlast
    obtain rfl := Option.some.inj (hend.symm.trans hr)
    exact fun h => h.ne rfl
  · rcases hs.improves (show j < sel.iterations by omega) hr hend with heq | hlater
    · rw [heq]
      exact fun h => h.ne rfl
    · exact hlater.asymm

omit [DecidableEq κ] in
theorem Inv.monotone (hs : Inv candidateId cfg s) : Monotone candidateId cfg s where
  iterations := by
    intro n o ho
    obtain ⟨k, r, hn, hchain, hlink, -⟩ := hs.iterations n o ho
    exact ⟨k, r, hn, hchain.incumbent_eq, hlink.promotes⟩
  improves := fun _ _ _ _ hlt hr hr' => hs.improves hlt hr hr'
  replaced := fun _ _ _ _ _ _ hij hjk hr hq hne hr' => hs.replaced hij hjk hr hq hne hr'
  validation := by
    intro hgate j k r r' hlt hr hr'
    obtain ⟨hchain, hchain'⟩ := hs.chain_of_incumbent hlt hr hr'
    obtain ⟨new, old, hnew, hold, hle⟩ := hchain'.gated hgate hchain hlt.le
    exact ⟨new, old, hnew.validationOf_eq, hold.validationOf_eq, hle.1, hle.2⟩
  selection := fun sel hsel =>
    ⟨(hs.selection sel hsel).2, (hs.selection sel hsel).1.incumbent_eq, fun _ _ hle hr => hs.not_dominated hsel hle hr⟩

/-- Over every campaign the incumbents only improve, and no comparison of the next run raises. -/
theorem promotion_monotone (h : Recorded candidateId cfg s) :
    Monotone candidateId cfg s ∧
      ∀ (ω : Research κ) m, ((runSearch candidateId cfg ω).run s).1 ≠ .error (.promotion m) := by
  refine ⟨h.inv.monotone, fun ω m herror => ?_⟩
  have hends := (runSearch_keeps (ω := ω) h.inv).2.2
  rw [herror] at hends
  exact hends m rfl

/-! ## A campaign of two promotions, resumed -/

/-- One read, of the trace of the oracle and of every model. -/
def oneRead : Scoring.Request where
  arrive := 0
  depart := 10
  type := 0
  src := 0
  addr := 64
  frontendId := 1
  frontendSubId := 0
  admissionOrdinal := 0

/-- The measurement of a model that takes `cycles` where the oracle takes a hundred. -/
def measured (cycles : ℚ) (stage : Stage) : Option Summary :=
  match matchFrames "oracle" "model" false ([oneRead], true) ([oneRead], true) with
  | .error _ => none
  | .ok r =>
      match scoreWorkload ⟨[100], some 1⟩ ⟨[cycles], some 1⟩ (.matched r) "scope" "cycles" 1 true false with
      | .error _ => none
      | .ok row =>
          match aggregate [("w", row)] ["w"] stage .completeStableId with
          | .error _ => none
          | .ok report => some ⟨report, unrounded⟩

/-- A campaign of three iterations, with validation as a gate. -/
def gatedConfig : Config where
  training := ["w"]
  validation := ["w"]
  minimumOracleOwnerReads := 1
  observation := ⟨"scope", "cycles"⟩
  requestObjective := .completeStableId
  validationNonWorsening := true
  maximumIterations := 3
  execution := "native"
  evaluationSha256 := "sha"
  gate := fun _ => List.cons_ne_nil _ _

/-- Candidates are called by the cycles that they take. The second one is worse than the first. -/
def climbing : Research Nat where
  prepare := .ok 130
  check c := .ok ⟨c, true⟩
  train c := .ok ⟨c, "native", "sha", none, measured c .training⟩
  validate c := .ok ⟨c, "native", "sha", none, measured c .validation⟩
  explore _ := .ok ()
  snapshot n := .ok (if n = 1 then 120 else if n = 2 then 125 else 110)
  reflect _ := .ok ()

/-- The session of the third iteration is lost. -/
def interrupted : Research Nat :=
  { climbing with explore := fun n => if n = 3 then .error "session" else .ok () }

def interruptedStore : Store Nat := ((runSearch toString gatedConfig interrupted).run Store.empty).2

def resumedStore : Store Nat := ((runSearch toString gatedConfig climbing).run interruptedStore).2

/-- Only the resumed run selects: the third candidate, after the second was kept out. -/
theorem promotion_monotone_climbing :
    (interruptedStore.selection ()).isNone ∧
      [1, 2, 3].map (fun n => (resumedStore.iterations n).map Outcome.promoted) = [some true, some false, some true] ∧
      [0, 1, 2, 3].map (fun k => (incumbent toString resumedStore k).map Receipt.candidate) =
        [some 130, some 120, some 120, some 110] ∧
      (∃ sel r, resumedStore.selection () = some sel ∧ sel.candidate = 110 ∧
        incumbent toString resumedStore 1 = some r ∧ sel.training.Dominates r) ∧
      Monotone toString gatedConfig resumedStore ∧
      ∀ (ω : Research Nat) m, ((runSearch toString gatedConfig ω).run resumedStore).1 ≠ .error (.promotion m) := by
  have hrecorded : Recorded toString gatedConfig resumedStore := (Recorded.run .start interrupted).run climbing
  obtain ⟨hmonotone, hpromotion⟩ := promotion_monotone hrecorded
  have hincumbents : [0, 1, 2, 3].map (fun k => (incumbent toString resumedStore k).map Receipt.candidate) =
      [some 130, some 120, some 120, some 110] := by decide +kernel
  have hselected : (resumedStore.selection ()).map (fun sel => (sel.candidate, sel.iterations)) = some (110, 3) := by
    decide +kernel
  have hfirst : (incumbent toString resumedStore 1).map Receipt.candidate = some 120 := by decide +kernel
  obtain ⟨sel, hsel, hlast⟩ := Option.map_eq_some_iff.mp hselected
  obtain ⟨r, hr, h120⟩ := Option.map_eq_some_iff.mp hfirst
  obtain ⟨hcandidate, hend, -⟩ := hmonotone.selection sel hsel
  have h110 : sel.candidate = 110 := congrArg Prod.fst hlast
  have hthree : sel.iterations = 3 := congrArg Prod.snd hlast
  rw [hthree] at hend
  refine ⟨by decide +kernel, by decide +kernel, hincumbents, ⟨sel, r, hsel, h110, hr, ?_⟩, hmonotone, hpromotion⟩
  -- the two incumbents differ, so that the later one dominates
  refine (hmonotone.improves 1 3 r sel.training (by decide) hr hend).resolve_left fun heq => ?_
  rw [hcandidate, heq, h120] at h110
  exact absurd h110 (by decide)

end Ramulator.ChiaLoop.Campaign
