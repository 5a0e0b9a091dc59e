/-
# Ramulator.ChiaLoop.ParetoArchive — the candidates that no other one dominates, and the choice among them.

`pareto` (`pareto.py`) keeps the candidates of a catalog whose pair of objectives no other candidate's dominates,
in the order of their names. `select_parent` (`framework/scoring.py`) takes them in turn.

Dominance is the strict product order on pairs of numbers, so that candidates with equal pairs stand beside each
other, and below each pair of a finite catalog there is a minimal one: the archive is not empty and covers the
catalog.
-/
import Ramulator.ChiaLoop.Promotion
import Mathlib.Data.List.Rotate
import Mathlib.Data.String.Basic
import Mathlib.Order.Preorder.Finite

namespace Ramulator.ChiaLoop.Scoring

open Ramulator.Lib

/-! ## The archive -/

/-- `dominates(objectives(left), objectives(right))`: the second objectives are compared only where the first ones
allow it, and one that is absent cannot be compared. -/
def dominatesMetrics (left right : Summary) : Except Message Bool :=
  if left.report.cycleMacroMaePct ≤ right.report.cycleMacroMaePct then
    match left.report.requestMacroMaeOverL, right.report.requestMacroMaeOverL with
    | some a, some b =>
        .ok (dominates (left.report.cycleMacroMaePct, a) (right.report.cycleMacroMaePct, b))
    | _, _ => .error "'<=' not supported between these objectives"
  else .ok false

/-- `any(dominates(...) for other in candidates.values())`. -/
def anyDominates (metrics : Summary) : List (String × Summary) → Except Message Bool
  | [] => .ok false
  | other :: others => do
      let found ← dominatesMetrics other.2 metrics
      if found then pure true else anyDominates metrics others

/-- The names of the candidates that are kept, in the order of the catalog. -/
def undominated (catalog : Dict String Summary) : List (String × Summary) → Except Message (List String)
  | [] => .ok []
  | e :: es => do
      let found ← anyDominates e.2 catalog
      let rest ← undominated catalog es
      pure (if found then rest else e.1 :: rest)

/-- `sorted`. -/
def sortedNames (names : List String) : List String := names.mergeSort fun a b => decide (a ≤ b)

/-- `pareto`. -/
def pareto (catalog : Dict String Summary) : Except Message (List String) :=
  (undominated catalog catalog).map sortedNames

/-- `select_parent`. -/
def selectParent (catalog : Dict String Summary) (incumbent : String) (iteration : Int) (policy : String) :
    Except Message String := do
  raiseIf (iteration < 1) "iteration must be positive"
  raiseIf (incumbent ∉ catalog.keys) "incumbent is absent from the candidate catalog"
  catalog.forM fun e => (validObjectives e.2 .training).map fun _ => ()
  if policy = "incumbent" then pure incumbent
  else if policy = "pareto_round_robin" then do
    let archive ← pareto catalog
    match archive[((iteration - 1) % archive.length).toNat]? with
    | some parent => pure parent
    | none => .error "integer modulo by zero"
  else .error ("unknown parent-selection policy: " ++ policy)

/-! ## Sorting -/

theorem sortedNames_perm (names : List String) : (sortedNames names).Perm names := List.mergeSort_perm _ _

/-- Sorting forgets the order in which the names came. -/
theorem sortedNames_eq {names names' : List String} (h : names.Perm names') : sortedNames names = sortedNames names' := by
  have htrans : ∀ a b c : String, decide (a ≤ b) = true → decide (b ≤ c) = true → decide (a ≤ c) = true := by
    intro a b c hab hbc
    rw [decide_eq_true_eq] at hab hbc ⊢
    exact hab.trans hbc
  have htotal : ∀ a b : String, (decide (a ≤ b) || decide (b ≤ a)) = true := by
    intro a b
    rw [Bool.or_eq_true, decide_eq_true_eq, decide_eq_true_eq]
    exact le_total a b
  refine List.Perm.eq_of_pairwise (fun a b _ _ hab hba => ?_) (List.pairwise_mergeSort htrans htotal names)
    (List.pairwise_mergeSort htrans htotal names') ((sortedNames_perm names).trans (h.trans (sortedNames_perm names').symm))
  rw [decide_eq_true_eq] at hab hba
  exact le_antisymm hab hba

/-! ## Catalogs that can be compared -/

/-- All candidates have objectives. -/
def Comparable (catalog : Dict String Summary) : Prop := ∀ e ∈ catalog, ∃ v, e.2.Valid .training v

/-- One summary's objectives dominate the other's. -/
def Summary.Dominates (left right : Summary) : Prop :=
  ∃ l r, left.objectives = some l ∧ right.objectives = some r ∧ l < r

variable {catalog : Dict String Summary} {left right : Summary} {l r : ℚ × ℚ}

theorem dominates_objectives (hl : left.objectives = some l) (hr : right.objectives = some r) :
    left.Dominates right ↔ l < r := by
  constructor
  · rintro ⟨l', r', hl', hr', hlt⟩
    rw [hl] at hl'
    rw [hr] at hr'
    cases hl'
    cases hr'
    exact hlt
  · exact fun hlt => ⟨l, r, hl, hr, hlt⟩

theorem dominatesMetrics_eq (hl : left.objectives = some l) (hr : right.objectives = some r) :
    ∃ found, dominatesMetrics left right = .ok found ∧ (found = true ↔ left.Dominates right) := by
  rw [dominates_objectives hl hr]
  obtain ⟨a, ha, rfl⟩ := Option.map_eq_some_iff.mp hl
  obtain ⟨b, hb, rfl⟩ := Option.map_eq_some_iff.mp hr
  unfold dominatesMetrics
  rw [ha, hb]
  split_ifs with hle
  · exact ⟨_, rfl, dominates_iff⟩
  · refine ⟨false, rfl, ?_⟩
    constructor
    · intro h
      cases h
    · exact fun hlt => absurd hlt.le.1 hle

theorem anyDominates_eq (hr : right.objectives = some r) {others : List (String × Summary)}
    (hothers : ∀ e ∈ others, ∃ l, e.2.objectives = some l) :
    ∃ found, anyDominates right others = .ok found ∧ (found = true ↔ ∃ e ∈ others, e.2.Dominates right) := by
  induction others with
  | nil => exact ⟨false, rfl, by simp⟩
  | cons e es ih =>
      obtain ⟨l, hl⟩ := hothers e List.mem_cons_self
      obtain ⟨first, hfirst, hfirst'⟩ := dominatesMetrics_eq hl hr
      obtain ⟨rest, hrest, hrest'⟩ := ih fun e' he' => hothers e' (List.mem_cons_of_mem _ he')
      rw [List.exists_mem_cons_iff]
      cases first with
      | true =>
          refine ⟨true, except_bind_eq_ok.mpr ⟨true, hfirst, rfl⟩, ?_⟩
          exact ⟨fun _ => .inl (hfirst'.mp rfl), fun _ => rfl⟩
      | false =>
          refine ⟨rest, except_bind_eq_ok.mpr ⟨false, hfirst, hrest⟩, hrest'.trans ?_⟩
          constructor
          · exact .inr
          · rintro (h | h)
            · cases hfirst'.mpr h
            · exact h

/-- The condition to be kept. -/
def Kept (catalog : Dict String Summary) (s : Summary) : Prop := ∀ e ∈ catalog, ¬ e.2.Dominates s

theorem Comparable.objectives (h : Comparable catalog) {e : String × Summary} (he : e ∈ catalog) :
    ∃ v, e.2.objectives = some v := (h e he).imp fun _ hv => hv.objectives_eq

open Classical in
/-- What is kept of a part of the catalog. -/
theorem undominated_eq (h : Comparable catalog) {es : List (String × Summary)} (hes : ∀ e ∈ es, e ∈ catalog) :
    undominated catalog es = .ok ((es.filter fun e => decide (Kept catalog e.2)).map Prod.fst) := by
  induction es with
  | nil => rfl
  | cons e es ih =>
      obtain ⟨r, hr⟩ := h.objectives (hes e List.mem_cons_self)
      obtain ⟨found, hfound, hiff⟩ := anyDominates_eq hr fun e' he' => h.objectives he'
      have hrest := ih fun e' he' => hes e' (List.mem_cons_of_mem _ he')
      refine except_bind_eq_ok.mpr ⟨found, hfound, except_bind_eq_ok.mpr ⟨_, hrest, ?_⟩⟩
      cases found with
      | true =>
          obtain ⟨e', he', hdom⟩ := hiff.mp rfl
          rw [List.filter_cons_of_neg (by rw [decide_eq_true_eq]; exact fun hkept => hkept e' he' hdom)]
          rfl
      | false =>
          have hkept : Kept catalog e.2 := fun e' he' hdom => by cases hiff.mpr ⟨e', he', hdom⟩
          rw [List.filter_cons_of_pos (by rw [decide_eq_true_eq]; exact hkept)]
          rfl

open Classical in
/-- The archive of a catalog that can be compared. -/
noncomputable def archiveOf (catalog : Dict String Summary) : List String :=
  sortedNames ((catalog.filter fun e => decide (Kept catalog e.2)).map Prod.fst)

theorem pareto_eq (h : Comparable catalog) : pareto catalog = .ok (archiveOf catalog) := by
  unfold pareto
  rw [undominated_eq h fun _ he => he]
  rfl

open Classical in
theorem mem_archiveOf {key : String} : key ∈ archiveOf catalog ↔ ∃ s, (key, s) ∈ catalog ∧ Kept catalog s := by
  unfold archiveOf
  rw [(sortedNames_perm _).mem_iff, List.mem_map]
  constructor
  · rintro ⟨⟨key', s⟩, he, rfl⟩
    rw [List.mem_filter, decide_eq_true_eq] at he
    exact ⟨s, he⟩
  · rintro ⟨s, he⟩
    exact ⟨(key, s), List.mem_filter.mpr ⟨he.1, by rw [decide_eq_true_eq]; exact he.2⟩, rfl⟩

open Classical in
theorem nodup_archiveOf (hkeys : KeysNodup catalog) : (archiveOf catalog).Nodup :=
  (sortedNames_perm _).nodup_iff.mpr (hkeys.sublist (List.filter_sublist.map _))

/-- Each candidate is kept, or dominated by one that is kept. -/
theorem covered (h : Comparable catalog) {e : String × Summary} (he : e ∈ catalog) :
    Kept catalog e.2 ∨ ∃ e' ∈ catalog, Kept catalog e'.2 ∧ e'.2.Dominates e.2 := by
  obtain ⟨v, hv⟩ := h.objectives he
  have hmem : v ∈ (catalog.filterMap fun e => e.2.objectives).toFinset :=
    List.mem_toFinset.mpr (List.mem_filterMap.mpr ⟨e, he, hv⟩)
  obtain ⟨low, hle, hmin⟩ := Finset.exists_le_minimal _ hmem
  obtain ⟨e', he', hlow⟩ := List.mem_filterMap.mp (List.mem_toFinset.mp hmin.prop)
  have hkept : Kept catalog e'.2 := by
    rintro f hf ⟨l, r, hl, hr, hlt⟩
    obtain rfl := Option.some.inj (hlow.symm.trans hr)
    exact hmin.not_lt (List.mem_toFinset.mpr (List.mem_filterMap.mpr ⟨f, hf, hl⟩)) hlt
  rcases hle.eq_or_lt with heq | hlt
  · left
    rintro f hf ⟨l, r, hl, hr, hdom⟩
    obtain rfl := Option.some.inj (hv.symm.trans hr)
    exact hkept f hf ⟨l, _, hl, hlow, heq ▸ hdom⟩
  · exact .inr ⟨e', he', hkept, low, v, hlow, hv, hlt⟩

theorem archiveOf_ne_nil (h : Comparable catalog) (hne : catalog ≠ []) : archiveOf catalog ≠ [] := by
  obtain ⟨e, es, rfl⟩ := List.exists_cons_of_ne_nil hne
  rcases covered h List.mem_cons_self with hkept | ⟨e', he', hkept, -⟩
  · exact List.ne_nil_of_mem (mem_archiveOf.mpr ⟨e.2, List.mem_cons_self, hkept⟩)
  · exact List.ne_nil_of_mem (mem_archiveOf.mpr ⟨e'.2, he', hkept⟩)

open Classical in
/-- What is kept depends on the members of the catalog only. -/
theorem filter_kept {catalog' : Dict String Summary} (h : ∀ s, Kept catalog' s ↔ Kept catalog s)
    (es : List (String × Summary)) :
    (es.filter fun e => decide (Kept catalog' e.2)) = es.filter fun e => decide (Kept catalog e.2) :=
  List.filter_congr fun e _ => decide_eq_decide.mpr (h e.2)

open Classical in
/-- The order of the catalog does not matter. -/
theorem archiveOf_perm {catalog' : Dict String Summary} (h : catalog'.Perm catalog) : archiveOf catalog' = archiveOf catalog := by
  have hkept : ∀ s, Kept catalog' s ↔ Kept catalog s := fun s => forall_congr' fun e => by rw [h.mem_iff]
  unfold archiveOf
  rw [filter_kept hkept]
  exact sortedNames_eq ((h.filter _).map _)

open Classical in
/-- A dominated candidate changes nothing. -/
theorem archiveOf_append {key : String} {s : Summary} {e : String × Summary} (he : e ∈ catalog)
    (hdom : e.2.Dominates s) : archiveOf (catalog ++ [(key, s)]) = archiveOf catalog := by
  have hkept : ∀ t, Kept (catalog ++ [(key, s)]) t ↔ Kept catalog t := by
    intro t
    constructor
    · exact fun ht f hf => ht f (List.mem_append_left _ hf)
    · intro ht f hf
      rcases List.mem_append.mp hf with hf | hf
      · exact ht f hf
      · rw [List.mem_singleton.mp hf]
        rintro ⟨l, r, hl, hr, hlt⟩
        obtain ⟨l', r', hl', hr', hlt'⟩ := hdom
        obtain rfl := Option.some.inj (hl.symm.trans hr')
        exact ht e he ⟨l', r, hl', hr, hlt'.trans hlt⟩
  have hnot : ¬ Kept catalog s := fun hs => hs e he hdom
  unfold archiveOf
  rw [filter_kept hkept, List.filter_append,
    List.filter_cons_of_neg (by rw [decide_eq_true_eq]; exact hnot), List.filter_nil, List.append_nil]

/-! ## Selection -/

/-- The member whose turn it is. -/
theorem selectParent_eq {incumbent : String} {iteration : Int} (h : Comparable catalog)
    (hincumbent : incumbent ∈ catalog.keys) (hiteration : 1 ≤ iteration) :
    selectParent catalog incumbent iteration "pareto_round_robin" =
      match (archiveOf catalog)[((iteration - 1) % (archiveOf catalog).length).toNat]? with
      | some parent => .ok parent
      | none => .error "integer modulo by zero" := by
  have hvalid : catalog.forM (fun e => (validObjectives e.2 .training).map fun _ => ()) = .ok () :=
    forM_ok.mpr fun e he => by
      obtain ⟨v, hv⟩ := h e he
      exact except_map_eq_ok.mpr ⟨v, hv, rfl⟩
  have hpositive : raiseIf (iteration < 1) "iteration must be positive" = .ok () :=
    raiseIf_eq_ok.mpr (not_lt.mpr hiteration)
  have hpresent : raiseIf (incumbent ∉ catalog.keys) "incumbent is absent from the candidate catalog" = .ok () :=
    raiseIf_eq_ok.mpr (not_not.mpr hincumbent)
  unfold selectParent
  rw [hpositive, hpresent, hvalid, if_neg (by decide), if_pos rfl, pareto_eq h]
  rfl

/-- A whole round, from any iteration on, takes the members in turn. -/
theorem round_eq {incumbent : String} {start : Nat} (h : Comparable catalog) (hne : catalog ≠ [])
    (hincumbent : incumbent ∈ catalog.keys) :
    (List.range (archiveOf catalog).length).mapM (fun i =>
      selectParent catalog incumbent ((start + 1 + i : Nat) : Int) "pareto_round_robin") =
      .ok ((archiveOf catalog).rotate start) := by
  have hpos : 0 < (archiveOf catalog).length := List.length_pos_iff.mpr (archiveOf_ne_nil h hne)
  refine mapM_ok.mpr (List.forall₂_iff_get.mpr ⟨by rw [List.length_range, List.length_rotate], fun i hi hi' => ?_⟩)
  rw [List.get_eq_getElem, List.get_eq_getElem, List.getElem_range, List.getElem_rotate,
    selectParent_eq h hincumbent (by omega)]
  have hindex : ((((start + 1 + i : Nat) : Int) - 1) % (archiveOf catalog).length).toNat =
      (i + start) % (archiveOf catalog).length := by
    have hshift : ((start + 1 + i : Nat) : Int) - 1 = ((i + start : Nat) : Int) := by omega
    rw [hshift, ← Int.natCast_mod, Int.toNat_natCast]
  rw [hindex, List.getElem?_eq_getElem (Nat.mod_lt _ hpos)]

/-- The archive of a catalog whose candidates have valid objectives: what is in it, that it covers the catalog, what it
does not depend on, and that the selection goes round in it. -/
theorem pareto_selection (catalog : Dict String Summary) (hkeys : KeysNodup catalog) (hne : catalog ≠ [])
    (h : ∀ e ∈ catalog, ∃ v, validObjectives e.2 .training = .ok v) :
    ∃ archive, pareto catalog = .ok archive ∧ archive ≠ [] ∧ archive.Nodup ∧
      (∀ key, key ∈ archive ↔ ∃ s, (key, s) ∈ catalog ∧ ∀ e ∈ catalog, ¬ e.2.Dominates s) ∧
      (∀ e ∈ catalog, e.1 ∈ archive ∨ ∃ e' ∈ catalog, e'.1 ∈ archive ∧ e'.2.Dominates e.2) ∧
      (∀ catalog' : Dict String Summary, catalog'.Perm catalog → pareto catalog' = .ok archive) ∧
      (∀ (key : String) (s : Summary), key ∉ catalog.keys → (∃ v, validObjectives s .training = .ok v) →
        (∃ e ∈ catalog, e.2.Dominates s) → pareto (catalog ++ [(key, s)]) = .ok archive) ∧
      ∀ incumbent ∈ catalog.keys,
        (∀ iteration : Int, 1 ≤ iteration →
          ∃ parent, selectParent catalog incumbent iteration "pareto_round_robin" = .ok parent) ∧
        ∀ start : Nat, ∃ chosen, (List.range archive.length).mapM (fun i =>
            selectParent catalog incumbent ((start + 1 + i : Nat) : Int) "pareto_round_robin") = .ok chosen ∧
          chosen.Perm archive := by
  have hcomparable : Comparable catalog := h
  refine ⟨archiveOf catalog, pareto_eq h, archiveOf_ne_nil h hne, nodup_archiveOf hkeys, fun key => mem_archiveOf,
    fun e he => ?_, fun catalog' hperm => ?_, fun key s _ hs hdom => ?_, fun incumbent hincumbent => ⟨?_, ?_⟩⟩
  · rcases covered h he with hkept | ⟨e', he', hkept, hdom⟩
    · exact .inl (mem_archiveOf.mpr ⟨e.2, he, hkept⟩)
    · exact .inr ⟨e', he', mem_archiveOf.mpr ⟨e'.2, he', hkept⟩, hdom⟩
  · rw [pareto_eq fun e he => h e (hperm.mem_iff.mp he), archiveOf_perm hperm]
  · obtain ⟨e, he, hdom⟩ := hdom
    have happend : Comparable (catalog ++ [(key, s)]) := by
      intro f hf
      rcases List.mem_append.mp hf with hf | hf
      · exact h f hf
      · rw [List.mem_singleton.mp hf]
        exact hs
    rw [pareto_eq happend, archiveOf_append he hdom]
  · intro iteration hiteration
    have hpos : 0 < (archiveOf catalog).length := List.length_pos_iff.mpr (archiveOf_ne_nil h hne)
    have hindex : ((iteration - 1) % (archiveOf catalog).length).toNat < (archiveOf catalog).length := by
      have hlt := Int.emod_lt_of_pos (iteration - 1) (Int.natCast_pos.mpr hpos)
      have hnonneg := Int.emod_nonneg (iteration - 1) (Int.natCast_pos.mpr hpos).ne'
      omega
    rw [selectParent_eq h hincumbent hiteration, List.getElem?_eq_getElem hindex]
    exact ⟨_, rfl⟩
  · exact fun start => ⟨_, round_eq h hne hincumbent, List.rotate_perm _ _⟩

/-- A summary with the given objectives. -/
def plainSummary (cycles requests : ℚ) : Summary where
  report :=
    { stage := .training, eligibleForPromotion := true, cycleMacroMaePct := cycles,
      requestMacroMaeOverL := some requests, requestMacroAbsoluteSignedDriftOverL := none, requestSummary := none,
      workloads := [], requestObjective := .completeStableId, matchedRequestDiagnostics := none }
  precision := unrounded

theorem plainSummary_valid {cycles requests : ℚ} (hcycles : 0 ≤ cycles) (hrequests : 0 ≤ requests) :
    ∃ v, validObjectives (plainSummary cycles requests) .training = .ok v :=
  ⟨(cycles, requests), valid_of_report rfl rfl rfl rfl hcycles hrequests⟩

/-- Two candidates that tie, and one behind them. -/
def tiedCatalog : Dict String Summary := [("b", plainSummary 1 1), ("a", plainSummary 1 1), ("c", plainSummary 1 2)]

theorem pareto_selection_tied :
    ∃ archive, pareto tiedCatalog = .ok archive ∧ archive ≠ [] ∧ archive.Nodup ∧
      (∀ key, key ∈ archive ↔ ∃ s, (key, s) ∈ tiedCatalog ∧ ∀ e ∈ tiedCatalog, ¬ e.2.Dominates s) ∧
      (∀ e ∈ tiedCatalog, e.1 ∈ archive ∨ ∃ e' ∈ tiedCatalog, e'.1 ∈ archive ∧ e'.2.Dominates e.2) ∧
      (∀ catalog' : Dict String Summary, catalog'.Perm tiedCatalog → pareto catalog' = .ok archive) ∧
      (∀ (key : String) (s : Summary), key ∉ tiedCatalog.keys → (∃ v, validObjectives s .training = .ok v) →
        (∃ e ∈ tiedCatalog, e.2.Dominates s) → pareto (tiedCatalog ++ [(key, s)]) = .ok archive) ∧
      ∀ incumbent ∈ tiedCatalog.keys,
        (∀ iteration : Int, 1 ≤ iteration →
          ∃ parent, selectParent tiedCatalog incumbent iteration "pareto_round_robin" = .ok parent) ∧
        ∀ start : Nat, ∃ chosen, (List.range archive.length).mapM (fun i =>
            selectParent tiedCatalog incumbent ((start + 1 + i : Nat) : Int) "pareto_round_robin") = .ok chosen ∧
          chosen.Perm archive := by
  refine pareto_selection tiedCatalog ?_ (List.cons_ne_nil _ _) fun e he => ?_
  · show ["b", "a", "c"].Nodup
    decide
  · rcases List.mem_cons.mp he with rfl | he
    · exact plainSummary_valid zero_le_one zero_le_one
    · rcases List.mem_cons.mp he with rfl | he
      · exact plainSummary_valid zero_le_one zero_le_one
      · rw [List.mem_singleton.mp he]
        exact plainSummary_valid zero_le_one zero_le_two

end Ramulator.ChiaLoop.Scoring
