/-
# Ramulator.ChiaLoop.Anonymity — what an anonymous view tells of the workloads.

Two receipts that have the same scores, in the same order, under names that correspond, give the same
view: `scoreView_eq` and `validationView_eq`. Whatever else the receipts hold does not matter, and so
renaming the workloads of a receipt changes nothing, `agree_rename`.

What a view holds is numbers and `None` under fixed keys, the aliases, the truth value `available` and, in a
score view, the keys of the receipt's groups, `scoreView_shape`. `score_view` checks the numbers that it
copies; `validation_view` copies what it finds, `validationView_plain`.
-/
import Ramulator.ChiaLoop.ScoreViews
import Mathlib.Logic.Equiv.Basic

namespace Ramulator.ChiaLoop.Review

open Ramulator.Lib

/-! ## Receipts with the same scores -/

/-- Two computations fail alike, or both give results that are related. -/
def Alike {α β : Type} (R : α → β → Prop) : Except Fault α → Except Fault β → Prop
  | .ok a, .ok b => R a b
  | .error e, .error f => e = f
  | _, _ => False

/-- Dictionaries whose keys correspond under `ρ`, in one order, and whose values are related. -/
def Renamed (ρ : String → String) (R : Json → Json → Prop) (ms ms' : List (String × Json)) : Prop :=
  List.Forall₂ (fun e e' => e'.1 = ρ e.1 ∧ R e.2 e'.2) ms ms'

/-- The numbers that `case_view` reads are the same. -/
structure SameCase (row row' : Json) : Prop where
  cycles : ∀ key ∈ ["per_core_dev_pct", "mean_abs_per_core_pct", "makespan_dev_pct"],
    dig row' ["cycles", key] = dig row ["cycles", key]
  absent : isNull <$> get row' "request" .null = isNull <$> get row "request" .null
  request : ∀ key ∈ requestFields, dig row' ["request", key] = dig row ["request", key]
  tails : ∀ t ∈ thresholds, ∀ key ∈ tailFields,
    dig row' ["request", "tail_thresholds", t, key] = dig row ["request", "tail_thresholds", t, key]
  populations : ∀ label ∈ populationLabels, ∀ key ∈ populationFields,
    population row' label key = population row label key

/-- The workloads of a group correspond. -/
def SameGroup (ρ : String → String) (group group' : Json) : Prop :=
  Alike (Renamed ρ SameCase) (itemsOf group "workloads") (itemsOf group' "workloads")

def SameGroups (ρ : String → String) (m m' : Json) : Prop :=
  isNull m' = isNull m ∧
    (isNull m = false → Alike (Renamed id (SameGroup ρ)) (itemsOf m "groups") (itemsOf m' "groups"))

/-- The receipts have the same scores, up to `ρ`, where `score_view` looks for them. -/
def SameScores (ρ : String → String) (receipt receipt' : Json) : Prop :=
  Alike (SameGroups ρ) (get receipt "measurement" .null) (get receipt' "measurement" .null)

/-- The two errors that `validation_view` reads are the same. -/
structure SameErrors (row row' : Json) : Prop where
  cycle : dig row' ["cycles", "mean_abs_per_core_pct"] = dig row ["cycles", "mean_abs_per_core_pct"]
  shown : Json.truthy <$> index row' "request" = Json.truthy <$> index row "request"
  mae : dig row' ["request", "mae"] = dig row ["request", "mae"]

def SameReport (ρ : String → String) (m m' : Json) : Prop :=
  Alike (fun a a' => ∀ key ∈ ["cycle_macro_mae_pct", "request_macro_mae_over_L"],
    get a' key .null = get a key .null) (reported m "aggregate") (reported m' "aggregate") ∧
  Alike (Renamed ρ SameErrors) (reportedItems m "workloads") (reportedItems m' "workloads")

/-- The receipts have the same errors, up to `ρ`, where `validation_view` looks for them. -/
def SameReports (ρ : String → String) (receipt receipt' : Json) : Prop :=
  Alike (SameReport ρ) (get receipt "measurement" .null) (get receipt' "measurement" .null)

/-! ## Two runs -/

section Runs

variable {α β γ : Type} {R : α → β → Prop}

/-- Computations that go on alike from related results. -/
theorem Alike.bind_eq {x : Except Fault α} {y : Except Fault β} (h : Alike R x y) {f : α → Except Fault γ}
    {g : β → Except Fault γ} (hfg : ∀ a b, R a b → g b = f a) : y >>= g = x >>= f := by
  cases x with
  | error e =>
      cases y with
      | error e' =>
          cases (show e = e' from h)
          rfl
      | ok b => exact h.elim
  | ok a =>
      cases y with
      | error e' => exact h.elim
      | ok b => exact hfg a b h

theorem mapM_eq_of_forall₂ {xs : List α} {ys : List β} (h : List.Forall₂ R xs ys) {f : α → Except Fault γ}
    {g : β → Except Fault γ} (hfg : ∀ a b, R a b → g b = f a) : ys.mapM g = xs.mapM f := by
  induction h with
  | nil => rfl
  | cons hab _ ih => rw [List.mapM_cons, List.mapM_cons, hfg _ _ hab, ih]

theorem mapM_congr {xs : List α} {f g : α → Except Fault γ} (h : ∀ x ∈ xs, g x = f x) : xs.mapM g = xs.mapM f := by
  induction xs with
  | nil => rfl
  | cons x xs ih =>
      rw [List.mapM_cons, List.mapM_cons, h x List.mem_cons_self, ih fun y hy => h y (List.mem_cons_of_mem _ hy)]

theorem project_congr {keys : List String} {read read' : String → Except Fault Json}
    (h : ∀ key ∈ keys, read' key = read key) : project keys read' = project keys read := by
  unfold project
  refine mapM_congr fun key hkey => ?_
  rw [h key hkey]

end Runs

variable {ρ : String → String} {py : Arithmetic} {row row' receipt receipt' : Json} {names : List String}

theorem SameCase.requestView (h : SameCase row row') : requestView row' = Review.requestView row := by
  unfold Review.requestView
  have hnumbers := project_congr h.request
  have htails : (thresholds.mapM fun threshold => do
      pure (threshold, ← project tailFields fun key => dig row' ["request", "tail_thresholds", threshold, key])) =
      thresholds.mapM fun threshold => (do
        pure (threshold, ← project tailFields fun key => dig row ["request", "tail_thresholds", threshold, key]) :
          Except Fault (String × Numbers)) := by
    refine mapM_congr fun t ht => ?_
    rw [project_congr (h.tails t ht)]
  rw [hnumbers, htails, h.request "sgn" (by decide)]

theorem SameCase.requestPart (h : SameCase row row') (absent : Bool) :
    requestPart row' absent = Review.requestPart row absent := by
  unfold Review.requestPart
  rw [h.requestView]

/-- Rows with the same numbers have the same view. -/
theorem SameCase.caseView (h : SameCase row row') : caseView py row' = Review.caseView py row := by
  unfold Review.caseView
  have hpopulations : (populationLabels.mapM fun label => do
      pure (label, ← project populationFields (population row' label))) =
      populationLabels.mapM fun label => (do
        pure (label, ← project populationFields (population row label)) : Except Fault (String × Numbers)) := by
    refine mapM_congr fun label hlabel => ?_
    rw [project_congr (h.populations label hlabel)]
  rw [h.cycles "per_core_dev_pct" (by decide), h.cycles "mean_abs_per_core_pct" (by decide),
    h.cycles "makespan_dev_pct" (by decide), h.absent, hpopulations]
  simp only [h.requestPart]

/-- A name and its new name have the same alias. -/
theorem aliasOf_map (hρ : Function.Injective ρ) (names : List String) (name : String) :
    aliasOf (names.map ρ) true (ρ name) = aliasOf names true name := by
  have hzip : (names.map ρ).zipIdx 1 = (names.zipIdx 1).map (Prod.map ρ id) := List.zipIdx_map
  have hfilter : ((names.map ρ).zipIdx 1).filter (fun e => e.1 == ρ name) =
      ((names.zipIdx 1).filter fun e => e.1 == name).map (Prod.map ρ id) := by
    rw [hzip, List.filter_map]
    congr 1
    refine List.filter_congr fun e _ => ?_
    change (ρ e.1 == ρ name) = (e.1 == name)
    rw [Bool.eq_iff_iff, beq_iff_eq, beq_iff_eq]
    exact hρ.eq_iff
  have hlookup : (aliases (names.map ρ) true).lookup (ρ name) = (aliases names true).lookup name := by
    unfold aliases
    rw [Dict.lookup_accumulate, Dict.lookup_accumulate, hfilter]
    simp only [List.map_eq_nil_iff, List.foldl_map]
    rfl
  unfold aliasOf
  rw [hlookup]

theorem groupView_eq (hρ : Function.Injective ρ) {group group' : Json} (h : SameGroup ρ group group') :
    groupView py (names.map ρ) true group' = groupView py names true group := by
  unfold groupView
  refine Alike.bind_eq h fun ms ms' hms => ?_
  have hentries : (ms'.mapM fun e => do
      pure (← aliasOf (names.map ρ) true e.1, ← caseView py e.2)) =
      ms.mapM fun e => (do
        pure (← aliasOf names true e.1, ← caseView py e.2) : Except Fault (String × CaseView)) := by
    refine mapM_eq_of_forall₂ hms fun e e' he => ?_
    rw [he.1, aliasOf_map hρ, he.2.caseView]
  rw [hentries]

/-- **Receipts with the same scores have the same score view.** -/
theorem scoreView_eq (hρ : Function.Injective ρ) (names : List String) (h : SameScores ρ receipt receipt') :
    scoreView py receipt' (names.map ρ) true = scoreView py receipt names true := by
  unfold scoreView
  refine Alike.bind_eq h fun m m' hm => ?_
  rw [hm.1]
  cases hnull : isNull m with
  | true => rfl
  | false =>
      have hgroups := hm.2 hnull
      rw [if_neg Bool.false_ne_true, if_neg Bool.false_ne_true]
      refine Alike.bind_eq hgroups fun gs gs' hgs => ?_
      have hviews : (gs'.mapM fun e => do pure (e.1, ← groupView py (names.map ρ) true e.2)) =
          gs.mapM fun e => (do pure (e.1, ← groupView py names true e.2) : Except Fault (String × Json)) := by
        refine mapM_eq_of_forall₂ hgs fun e e' he => ?_
        rw [groupView_eq hρ he.2]
        rw [show e'.1 = e.1 from he.1]
      rw [hviews]

/-- A workload is found under its new name. -/
theorem lookup_renamed (hρ : Function.Injective ρ) {R : Json → Json → Prop} {ms ms' : List (String × Json)}
    (h : Renamed ρ R ms ms') (name : String) :
    (ms.lookup name = none ∧ ms'.lookup (ρ name) = none) ∨
      ∃ v v', ms.lookup name = some v ∧ ms'.lookup (ρ name) = some v' ∧ R v v' := by
  induction h with
  | nil => exact .inl ⟨rfl, rfl⟩
  | @cons e e' ms ms' he _ ih =>
      obtain ⟨k, v⟩ := e
      obtain ⟨k', v'⟩ := e'
      obtain ⟨rfl, hv⟩ := he
      rw [List.lookup_cons, List.lookup_cons]
      by_cases hk : name = k
      · subst hk
        rw [beq_self_eq_true, beq_self_eq_true]
        exact .inr ⟨v, v', rfl, rfl, hv⟩
      · rw [beq_eq_false_iff_ne.mpr hk, beq_eq_false_iff_ne.mpr fun heq => hk (hρ heq)]
        exact ih

theorem workloadErrors_eq (hρ : Function.Injective ρ) {ms ms' : List (String × Json)}
    (h : Renamed ρ SameErrors ms ms') (name : String) :
    workloadErrors ms' (ρ name) = workloadErrors ms name := by
  unfold workloadErrors
  rcases lookup_renamed hρ h name with ⟨hnone, hnone'⟩ | ⟨v, v', hsome, hsome', hsame⟩
  · rw [hnone, hnone']
  · rw [hsome, hsome']
    dsimp only
    rw [hsame.cycle, hsame.shown, hsame.mae]

/-- The workloads of a validation view. -/
theorem eachErrors_eq (hρ : Function.Injective ρ) {ms ms' : List (String × Json)} (h : Renamed ρ SameErrors ms ms')
    (names : List String) :
    (((names.map ρ).zipIdx 1).mapM fun e => do pure (valAlias e.2, ← workloadErrors ms' e.1)) =
      (names.zipIdx 1).mapM fun e => (do
        pure (valAlias e.2, ← workloadErrors ms e.1) : Except Fault (String × Json)) := by
  have hzip : List.Forall₂ (fun e e' => e' = (ρ e.1, e.2)) (names.zipIdx 1) ((names.map ρ).zipIdx 1) := by
    rw [List.zipIdx_map, List.forall₂_map_right_iff]
    exact List.forall₂_same.mpr fun e _ => rfl
  refine mapM_eq_of_forall₂ hzip fun e e' he => ?_
  rw [he, workloadErrors_eq hρ h]

/-- **Receipts with the same errors have the same validation view.** -/
theorem validationView_eq (hρ : Function.Injective ρ) (names : List String) (h : SameReports ρ receipt receipt') :
    validationView receipt' (names.map ρ) = validationView receipt names := by
  unfold validationView
  refine Alike.bind_eq h fun m m' hm => ?_
  refine Alike.bind_eq hm.1 fun a a' ha => ?_
  refine Alike.bind_eq hm.2 fun ms ms' hms => ?_
  rw [ha "cycle_macro_mae_pct" (by decide), ha "request_macro_mae_over_L" (by decide), eachErrors_eq hρ hms]

/-! ## Renaming the workloads of a receipt -/

/-- Change the member `key`. -/
def mapMember (key : String) (f : Json → Json) : Json → Json
  | .obj ms => .obj (ms.map fun m => (m.1, if m.1 = key then f m.2 else m.2))
  | v => v

def mapValues (f : Json → Json) : Json → Json
  | .obj ms => .obj (ms.map fun m => (m.1, f m.2))
  | v => v

def mapKeys (ρ : String → String) : Json → Json
  | .obj ms => .obj (ms.map fun m => (ρ m.1, m.2))
  | v => v

/-- New names in the dictionaries of workloads, in the report and in each of its groups. -/
def renameWorkloads (ρ : String → String) : Json → Json :=
  mapMember "measurement" fun m =>
    mapMember "groups" (mapValues (mapMember "workloads" (mapKeys ρ))) (mapMember "workloads" (mapKeys ρ) m)

section Renaming

variable {key key' : String} {f : Json → Json} {v d : Json}

theorem lookup_mapMember (key key' : String) (f : Json → Json) (ms : List (String × Json)) :
    (ms.map fun m => (m.1, if m.1 = key then f m.2 else m.2)).lookup key' =
      (ms.lookup key').map fun w => if key' = key then f w else w := by
  induction ms with
  | nil => rfl
  | cons m ms ih =>
      obtain ⟨k, w⟩ := m
      rw [List.map_cons, List.lookup_cons, List.lookup_cons, ih]
      by_cases hk : key' = k
      · subst hk
        rw [beq_self_eq_true]
        rfl
      · rw [beq_eq_false_iff_ne.mpr hk]

theorem index_mapMember : index (mapMember key f v) key = f <$> index v key := by
  cases v with
  | obj ms =>
      unfold mapMember index
      dsimp only
      rw [lookup_mapMember]
      cases ms.lookup key with
      | none => rfl
      | some w => exact congrArg Except.ok (if_pos rfl)
  | _ => rfl

theorem index_mapMember_of_ne (h : key' ≠ key) : index (mapMember key f v) key' = index v key' := by
  cases v with
  | obj ms =>
      unfold mapMember index
      dsimp only
      rw [lookup_mapMember]
      cases ms.lookup key' with
      | none => rfl
      | some w => exact congrArg Except.ok (if_neg h)
  | _ => rfl

theorem truthy_mapMember : (mapMember key f v).truthy = v.truthy := by
  cases v with
  | obj ms => cases ms <;> rfl
  | _ => rfl

theorem isNull_mapMember : isNull (mapMember key f v) = isNull v := by
  cases v <;> rfl

/-- The workloads of a dictionary, before and after. -/
theorem itemsOf_renamed {R : Json → Json → Prop} (hR : ∀ v, R v v) (ρ : String → String) (v : Json) :
    Alike (Renamed ρ R) (itemsOf v "workloads") (itemsOf (mapMember "workloads" (mapKeys ρ) v) "workloads") := by
  unfold itemsOf
  rw [index_mapMember]
  cases index v "workloads" with
  | error e => exact (rfl : e = e)
  | ok w =>
      cases w with
      | obj ms =>
          refine List.forall₂_map_right_iff.mpr (List.forall₂_same.mpr fun m _ => ⟨rfl, hR m.2⟩)
      | _ => exact (rfl : Fault.attributeError = Fault.attributeError)

theorem sameCase_refl (row : Json) : SameCase row row :=
  ⟨fun _ _ => rfl, rfl, fun _ _ => rfl, fun _ _ _ _ => rfl, fun _ _ _ _ => rfl⟩

theorem sameGroups_rename (ρ : String → String) (m : Json) :
    SameGroups ρ m (mapMember "groups" (mapValues (mapMember "workloads" (mapKeys ρ)))
      (mapMember "workloads" (mapKeys ρ) m)) := by
  refine ⟨isNull_mapMember.trans isNull_mapMember, fun _ => ?_⟩
  unfold itemsOf
  rw [index_mapMember, index_mapMember_of_ne (by decide)]
  cases index m "groups" with
  | error e => exact (rfl : e = e)
  | ok w =>
      cases w with
      | obj ms =>
          refine List.forall₂_map_right_iff.mpr (List.forall₂_same.mpr fun g _ => ⟨rfl, ?_⟩)
          exact itemsOf_renamed sameCase_refl ρ g.2
      | _ => exact (rfl : Fault.attributeError = Fault.attributeError)

theorem reported_mapMember_of_ne (h : key' ≠ key) : reported (mapMember key f v) key' = reported v key' := by
  unfold reported
  rw [truthy_mapMember, index_mapMember_of_ne h]

theorem sameReport_rename (ρ : String → String) (m : Json) :
    SameReport ρ m (mapMember "groups" (mapValues (mapMember "workloads" (mapKeys ρ)))
      (mapMember "workloads" (mapKeys ρ) m)) := by
  unfold SameReport reportedItems
  rw [reported_mapMember_of_ne (by decide), reported_mapMember_of_ne (by decide), reported_mapMember_of_ne (by decide)]
  constructor
  · cases reported m "aggregate" with
    | error e => exact (rfl : e = e)
    | ok a => exact fun _ _ => rfl
  · unfold reported
    rw [truthy_mapMember]
    cases m.truthy with
    | false => exact List.Forall₂.nil
    | true => exact itemsOf_renamed (fun _ => ⟨rfl, rfl, rfl⟩) ρ m

/-- The measurement of a receipt, before and after. -/
theorem alike_measurement {R : Json → Json → Prop} (f : Json → Json) (hR : ∀ m, R m (f m)) (hnull : f .null = .null)
    (receipt : Json) :
    Alike R (get receipt "measurement" .null) (get (mapMember "measurement" f receipt) "measurement" .null) := by
  cases receipt with
  | obj ms =>
      unfold mapMember get
      dsimp only
      rw [lookup_mapMember]
      cases ms.lookup "measurement" with
      | none =>
          have hself := hR .null
          rw [hnull] at hself
          exact hself
      | some m =>
          rw [Option.map_some, if_pos rfl]
          exact hR m
  | _ => exact (rfl : Fault.attributeError = Fault.attributeError)

/-- **A receipt with new names has the same scores and errors.** -/
theorem agree_rename (ρ : String → String) (receipt : Json) :
    SameScores ρ receipt (renameWorkloads ρ receipt) ∧ SameReports ρ receipt (renameWorkloads ρ receipt) :=
  ⟨alike_measurement _ (sameGroups_rename ρ) rfl receipt, alike_measurement _ (sameReport_rename ρ) rfl receipt⟩

end Renaming

/-! ## What a view holds -/

/-- Numbers and `None`, in lists and in dictionaries whose keys satisfy `key`. -/
inductive Plain (key : String → Prop) : Json → Prop where
  | null : Plain key .null
  | int (n : Int) : Plain key (.int n)
  | float (x : binary64.Value) : Plain key (.float x)
  | arr {vs : List Json} (h : ∀ v ∈ vs, Plain key v) : Plain key (.arr vs)
  | obj {ms : List (String × Json)} (hkeys : ∀ m ∈ ms, key m.1) (h : ∀ m ∈ ms, Plain key m.2) : Plain key (.obj ms)

/-- The aliases of a cohort of `n`. -/
def IsAlias (n : Nat) (key : String) : Prop := ∃ i, 1 ≤ i ∧ i ≤ n ∧ key = valAlias i

/-- The fixed keys of a score view. -/
def scoreKeys : List String :=
  ["available", "groups", "means", "cases", "core_error_pct", "signed_core_error_pct", "per_core_signed_error_pct",
    "worst_core_error_pct", "makespan_signed_error_pct", "request", "absolute_drift_over_L", "tail_thresholds",
    "populations"] ++ requestFields ++ thresholds ++ tailFields ++ populationLabels ++ populationFields

def ScoreKey (n : Nat) (key : String) : Prop := key ∈ scoreKeys ∨ IsAlias n key

/-- The fixed keys of a validation view. -/
def errorKeys : List String := ["aggregate", "workloads", "core_error_pct", "request_mae_over_L"]

def ErrorKey (n : Nat) (key : String) : Prop := key ∈ errorKeys ∨ IsAlias n key

/-- The keys of the groups in a receipt: its core counts. -/
def GroupKey (receipt : Json) (key : String) : Prop :=
  ∃ m groups, get receipt "measurement" .null = .ok m ∧ itemsOf m "groups" = .ok groups ∧ key ∈ groups.map Prod.fst

/-- A score view: whether there are scores, and plain values for each group of the receipt. -/
def ScoreShape (receipt : Json) (n : Nat) (view : Json) : Prop :=
  ∃ available groups, view = .obj [("available", .bool available), ("groups", .obj groups)] ∧
    ∀ g ∈ groups, GroupKey receipt g.1 ∧ Plain (ScoreKey n) g.2

/-- A number or `None`. -/
def Numeric : Json → Prop
  | .null => True
  | .int _ => True
  | .float _ => True
  | _ => False

/-- The errors that `validation_view` copies, of the cohort as a whole and of each name, are numbers or
`None`. -/
def NumericErrors (names : List String) (receipt : Json) : Prop :=
  ∀ m, get receipt "measurement" .null = .ok m →
    (∀ a, reported m "aggregate" = .ok a → ∀ key ∈ ["cycle_macro_mae_pct", "request_macro_mae_over_L"],
      ∀ v, get a key .null = .ok v → Numeric v) ∧
    ∀ ws, reportedItems m "workloads" = .ok ws → ∀ name ∈ names, ∀ row, ws.lookup name = some row →
      (∀ v, dig row ["cycles", "mean_abs_per_core_pct"] = .ok v → Numeric v) ∧
      ∀ v, dig row ["request", "mae"] = .ok v → Numeric v

section Contents

variable {n : Nat} {key : String → Prop} {view : Json}

theorem plain_number (x : Number) : Plain key x.toJson := by
  cases x with
  | int n => exact .int n
  | float x => exact .float x

theorem plain_optional (x : Option Number) : Plain key (optional x) := by
  cases x with
  | none => exact .null
  | some x => exact plain_number x

theorem plain_numeric {v : Json} (h : Numeric v) : Plain key v := by
  cases v with
  | null => exact .null
  | int n => exact .int n
  | float x => exact .float x
  | _ => exact h.elim

theorem project_keys {keys : List String} {read : String → Except Fault Json} {ns : Numbers}
    (h : project keys read = .ok ns) : ∀ e ∈ ns, e.1 ∈ keys := by
  intro e he
  obtain ⟨k, hk, hread⟩ := (mem_of_mapM h).mp he
  obtain ⟨v, -, hread⟩ := except_bind_eq_ok.mp hread
  obtain ⟨x, -, hread⟩ := except_bind_eq_ok.mp hread
  cases hread
  exact hk

/-- A dictionary made from a list. -/
theorem plain_obj_map {α : Type} {l : List α} {f : α → String × Json}
    (h : ∀ a ∈ l, key (f a).1 ∧ Plain key (f a).2) : Plain key (.obj (l.map f)) := by
  refine .obj ?_ ?_
  · intro m hm
    obtain ⟨a, ha, rfl⟩ := List.mem_map.mp hm
    exact (h a ha).1
  · intro m hm
    obtain ⟨a, ha, rfl⟩ := List.mem_map.mp hm
    exact (h a ha).2

theorem plain_numbers {ns : Numbers} (h : ∀ e ∈ ns, key e.1) : Plain key ns.toJson :=
  plain_obj_map fun e he => ⟨h e he, plain_optional e.2⟩

/-- Projections under their labels. -/
theorem plain_labelled {labels keys : List String} {l : List (String × Numbers)}
    (read : String → String → Except Fault Json)
    (h : (labels.mapM fun label => do pure (label, ← project keys (read label))) = .ok l)
    (hlabels : ∀ label ∈ labels, key label) (hkeys : ∀ k ∈ keys, key k) : Plain key (labelled l) := by
  refine plain_obj_map fun e he => ?_
  obtain ⟨label, hlabel, hread⟩ := (mem_of_mapM h).mp he
  obtain ⟨ns, hns, hread⟩ := except_bind_eq_ok.mp hread
  cases hread
  exact ⟨hlabels label hlabel, plain_numbers fun e he => hkeys _ (project_keys hns e he)⟩

theorem plain_obj_cons {k : String} {v : Json} {ms : List (String × Json)} (hk : key k) (hv : Plain key v)
    (h : Plain key (.obj ms)) : Plain key (.obj ((k, v) :: ms)) := by
  cases h with
  | obj hkeys h => exact .obj (List.forall_mem_cons.mpr ⟨hk, hkeys⟩) (List.forall_mem_cons.mpr ⟨hv, h⟩)

theorem plain_obj_nil : Plain key (.obj []) :=
  .obj (fun _ h => absurd h List.not_mem_nil) fun _ h => absurd h List.not_mem_nil

theorem scoreKey_of_mem {k : String} (h : k ∈ scoreKeys) : ScoreKey n k := .inl h

theorem requestFields_subset : ∀ k ∈ requestFields, k ∈ scoreKeys := by decide

theorem populationFields_subset : ∀ k ∈ populationFields, k ∈ scoreKeys := by decide

/-- The request part of a case. -/
theorem requestView_plain {row : Json} {r : RequestView} (h : requestView row = .ok r) :
    Plain (ScoreKey n) r.toJson := by
  obtain ⟨numbers, hnumbers, h⟩ := except_bind_eq_ok.mp h
  obtain ⟨v, -, h⟩ := except_bind_eq_ok.mp h
  obtain ⟨x, -, h⟩ := except_bind_eq_ok.mp h
  obtain ⟨sgn, -, h⟩ := except_bind_eq_ok.mp h
  obtain ⟨tails, htails, h⟩ := except_bind_eq_ok.mp h
  cases h
  have hfields : Plain (ScoreKey n) numbers.toJson :=
    plain_numbers fun e he => scoreKey_of_mem (requestFields_subset _ (project_keys hnumbers e he))
  have hrest : Plain (ScoreKey n) (.obj [("absolute_drift_over_L", sgn.abs.toJson),
      ("tail_thresholds", labelled tails)]) := by
    refine plain_obj_cons (scoreKey_of_mem (by decide)) (plain_number _) ?_
    refine plain_obj_cons (scoreKey_of_mem (by decide)) ?_ plain_obj_nil
    exact plain_labelled (fun t k => dig row ["request", "tail_thresholds", t, k]) htails
      (fun k hk => scoreKey_of_mem ((by decide : ∀ k ∈ thresholds, k ∈ scoreKeys) k hk))
      (fun k hk => scoreKey_of_mem ((by decide : ∀ k ∈ tailFields, k ∈ scoreKeys) k hk))
  cases hfields with
  | obj hkeys hvalues =>
      cases hrest with
      | obj hkeys' hvalues' =>
          refine .obj (fun m hm => ?_) (fun m hm => ?_)
          · exact (List.mem_append.mp hm).elim (hkeys m) (hkeys' m)
          · exact (List.mem_append.mp hm).elim (hvalues m) (hvalues' m)

theorem requestPart_plain {row : Json} {absent : Bool} {request : Option RequestView}
    (h : requestPart row absent = .ok request) :
    Plain (ScoreKey n) (requestJson request) := by
  unfold requestPart at h
  split at h
  · cases h
    exact .null
  · obtain ⟨r, hr, rfl⟩ := except_map_eq_ok.mp h
    exact requestView_plain hr

theorem caseView_plain {py : Arithmetic} {row : Json} {c : CaseView} (h : caseView py row = .ok c) :
    Plain (ScoreKey n) c.toJson := by
  obtain ⟨v, -, h⟩ := except_bind_eq_ok.mp h
  obtain ⟨vs, -, h⟩ := except_bind_eq_ok.mp h
  obtain ⟨perCore, -, h⟩ := except_bind_eq_ok.mp h
  split at h
  · cases h
  obtain ⟨absent, -, h⟩ := except_bind_eq_ok.mp h
  obtain ⟨v, -, h⟩ := except_bind_eq_ok.mp h
  obtain ⟨coreError, -, h⟩ := except_bind_eq_ok.mp h
  obtain ⟨numbers, -, h⟩ := except_bind_eq_ok.mp h
  obtain ⟨signed, -, h⟩ := except_bind_eq_ok.mp h
  obtain ⟨v, -, h⟩ := except_bind_eq_ok.mp h
  obtain ⟨makespan, -, h⟩ := except_bind_eq_ok.mp h
  obtain ⟨request, hrequest, h⟩ := except_bind_eq_ok.mp h
  obtain ⟨populations, hpopulations, h⟩ := except_bind_eq_ok.mp h
  cases h
  refine plain_obj_cons (scoreKey_of_mem (by decide)) (plain_optional _) ?_
  refine plain_obj_cons (scoreKey_of_mem (by decide)) (plain_number _) ?_
  refine plain_obj_cons (scoreKey_of_mem (by decide)) (.arr fun v hv => ?_) ?_
  · obtain ⟨x, -, rfl⟩ := List.mem_map.mp hv
    exact plain_number x
  refine plain_obj_cons (scoreKey_of_mem (by decide)) (plain_number _) ?_
  refine plain_obj_cons (scoreKey_of_mem (by decide)) (plain_optional _) ?_
  refine plain_obj_cons (scoreKey_of_mem (by decide)) (requestPart_plain hrequest) ?_
  refine plain_obj_cons (scoreKey_of_mem (by decide)) ?_ plain_obj_nil
  exact plain_labelled (population row) hpopulations
    (fun k hk => scoreKey_of_mem ((by decide : ∀ k ∈ populationLabels, k ∈ scoreKeys) k hk))
    (fun k hk => scoreKey_of_mem (populationFields_subset k hk))

theorem requestMeans_plain {py : Arithmetic} {rows : List CaseView} {means : Json}
    (h : requestMeans py rows = .ok means) : Plain (ScoreKey n) means := by
  unfold requestMeans at h
  split at h
  · cases h
    exact .null
  · obtain ⟨es, hes, h⟩ := except_bind_eq_ok.mp h
    cases h
    have hentry : ∀ e ∈ es, e.1 ∈ meanFields ∧ ∃ x : Number, e.2 = x.toJson := by
      intro e he
      obtain ⟨key, hkey, hread⟩ := (mem_of_mapM hes).mp he
      obtain ⟨numbers, -, hread⟩ := except_bind_eq_ok.mp hread
      obtain ⟨x, -, hread⟩ := except_bind_eq_ok.mp hread
      cases hread
      exact ⟨hkey, x, rfl⟩
    refine .obj (fun e he => ?_) (fun e he => ?_)
    · exact scoreKey_of_mem ((by decide : ∀ k ∈ meanFields, k ∈ scoreKeys) _ (hentry e he).1)
    · obtain ⟨x, hx⟩ := (hentry e he).2
      rw [hx]
      exact plain_number x

/-- The means of a group. -/
theorem groupMeans_plain {py : Arithmetic} {rows : List CaseView} {means : Json} (h : groupMeans py rows = .ok means) :
    Plain (ScoreKey n) means := by
  obtain ⟨coreErrors, -, h⟩ := except_bind_eq_ok.mp h
  obtain ⟨coreError, -, h⟩ := except_bind_eq_ok.mp h
  obtain ⟨signed, -, h⟩ := except_bind_eq_ok.mp h
  obtain ⟨worst, -, h⟩ := except_bind_eq_ok.mp h
  obtain ⟨makespans, -, h⟩ := except_bind_eq_ok.mp h
  obtain ⟨makespan, -, h⟩ := except_bind_eq_ok.mp h
  obtain ⟨request, hrequest, h⟩ := except_bind_eq_ok.mp h
  cases h
  refine plain_obj_cons (scoreKey_of_mem (by decide)) (plain_number _) ?_
  refine plain_obj_cons (scoreKey_of_mem (by decide)) (plain_number _) ?_
  refine plain_obj_cons (scoreKey_of_mem (by decide)) (plain_number _) ?_
  refine plain_obj_cons (scoreKey_of_mem (by decide)) (plain_number _) ?_
  exact plain_obj_cons (scoreKey_of_mem (by decide)) (requestMeans_plain hrequest) plain_obj_nil

/-- An alias that is found is one of the cohort's. -/
theorem isAlias_of_aliasOf {names : List String} {name a : String} (h : aliasOf names true name = .ok a) :
    IsAlias names.length a := by
  have hlookup : (aliases names true).lookup name = some a := by
    unfold aliasOf at h
    split at h
    · next hsome => rw [hsome, Except.ok.inj h]
    · cases h
  unfold aliases at hlookup
  rw [Dict.lookup_accumulate] at hlookup
  split at hlookup
  · cases hlookup
  · next hne =>
    obtain ⟨l, e, hl⟩ := (List.eq_nil_or_concat' _).resolve_left hne
    rw [hl, List.foldl_append] at hlookup
    have ha : valAlias e.2 = a := Option.some.inj hlookup
    have hlast : e ∈ l ++ [e] := List.mem_append_right _ List.mem_cons_self
    rw [← hl] at hlast
    have hindex := List.mem_zipIdx (List.mem_of_mem_filter hlast)
    exact ⟨e.2, hindex.1, by omega, ha.symm⟩

theorem groupView_plain {py : Arithmetic} {names : List String} {group : Json}
    (h : groupView py names true group = .ok view) : Plain (ScoreKey names.length) view := by
  obtain ⟨ms, -, h⟩ := except_bind_eq_ok.mp h
  obtain ⟨entries, hentries, h⟩ := except_bind_eq_ok.mp h
  obtain ⟨means, hmeans, h⟩ := except_bind_eq_ok.mp h
  cases h
  refine plain_obj_cons (scoreKey_of_mem (by decide)) (groupMeans_plain hmeans) ?_
  refine plain_obj_cons (scoreKey_of_mem (by decide)) ?_ plain_obj_nil
  refine plain_obj_map fun e he => ?_
  obtain ⟨m, -, hread⟩ := (mem_of_mapM hentries).mp (Dict.mem_of_mem_ofEntries he)
  obtain ⟨a, ha, hread⟩ := except_bind_eq_ok.mp hread
  obtain ⟨c, hc, hread⟩ := except_bind_eq_ok.mp hread
  cases hread
  exact ⟨.inr (isAlias_of_aliasOf ha), caseView_plain hc⟩

/-- **What a score view holds.** -/
theorem scoreView_shape {py : Arithmetic} {names : List String} {receipt : Json}
    (h : scoreView py receipt names true = .ok view) : ScoreShape receipt names.length view := by
  obtain ⟨m, hm, h⟩ := except_bind_eq_ok.mp h
  split at h
  · cases h
    exact ⟨false, [], rfl, fun g hg => absurd hg List.not_mem_nil⟩
  · obtain ⟨ms, hms, h⟩ := except_bind_eq_ok.mp h
    obtain ⟨groups, hgroups, h⟩ := except_bind_eq_ok.mp h
    cases h
    refine ⟨true, groups, rfl, fun g hg => ?_⟩
    obtain ⟨e, he, hread⟩ := (mem_of_mapM hgroups).mp hg
    obtain ⟨v, hv, hread⟩ := except_bind_eq_ok.mp hread
    cases hread
    exact ⟨⟨m, ms, hm, hms, List.mem_map.mpr ⟨e, he, rfl⟩⟩, groupView_plain hv⟩

theorem errorKey_of_mem {k : String} (h : k ∈ errorKeys) : ErrorKey n k := .inl h

theorem errorPair_plain {cycle request : Json} (hcycle : Numeric cycle) (hrequest : Numeric request) :
    Plain (ErrorKey n) (errorPair cycle request) := by
  refine plain_obj_cons (errorKey_of_mem (by decide)) (plain_numeric hcycle) ?_
  exact plain_obj_cons (errorKey_of_mem (by decide)) (plain_numeric hrequest) plain_obj_nil

/-- **What a validation view holds**, of a receipt with numbers for errors. -/
theorem validationView_plain {names : List String} {receipt : Json} (hnumeric : NumericErrors names receipt)
    (h : validationView receipt names = .ok view) : Plain (ErrorKey names.length) view := by
  obtain ⟨m, hm, h⟩ := except_bind_eq_ok.mp h
  obtain ⟨a, ha, h⟩ := except_bind_eq_ok.mp h
  obtain ⟨ws, hws, h⟩ := except_bind_eq_ok.mp h
  obtain ⟨cycle, hcycle, h⟩ := except_bind_eq_ok.mp h
  obtain ⟨request, hrequest, h⟩ := except_bind_eq_ok.mp h
  obtain ⟨each, heach, h⟩ := except_bind_eq_ok.mp h
  cases h
  obtain ⟨htotal, hworkloads⟩ := hnumeric m hm
  refine plain_obj_cons (errorKey_of_mem (by decide))
    (errorPair_plain (htotal a ha _ (by simp) _ hcycle) (htotal a ha _ (by simp) _ hrequest)) ?_
  refine plain_obj_cons (errorKey_of_mem (by decide)) ?_ plain_obj_nil
  have hentry : ∀ e ∈ each, IsAlias names.length e.1 ∧ Plain (ErrorKey names.length) e.2 := by
    intro e he
    obtain ⟨name, hname, hread⟩ := (mem_of_mapM heach).mp he
    obtain ⟨v, hv, hread⟩ := except_bind_eq_ok.mp hread
    cases hread
    have hindex := List.mem_zipIdx hname
    refine ⟨⟨name.2, hindex.1, by omega, rfl⟩, ?_⟩
    unfold workloadErrors at hv
    split at hv
    · cases hv
      exact errorPair_plain trivial trivial
    · next row hrow =>
      obtain ⟨hcycle, hmae⟩ := hworkloads ws hws name.1 (List.fst_mem_of_mem_zipIdx hname) row hrow
      obtain ⟨cycle, hcycleRead, hv⟩ := except_bind_eq_ok.mp hv
      obtain ⟨shown, -, hv⟩ := except_bind_eq_ok.mp hv
      split at hv
      · obtain ⟨mae, hmaeRead, hv⟩ := except_bind_eq_ok.mp hv
        cases hv
        exact errorPair_plain (hcycle _ hcycleRead) (hmae _ hmaeRead)
      · cases hv
        exact errorPair_plain (hcycle _ hcycleRead) trivial
  exact .obj (fun e he => .inr (hentry e he).1) fun e he => (hentry e he).2

end Contents

/-! ## Anonymous views -/

/-- **An anonymous view depends on the scores alone.** Receipts with the same scores under other names give
the same views, and a receipt with renamed workloads is one. A score view holds nothing but plain values
under fixed keys, aliases and the receipt's core counts, and says whether there are any; a validation view
holds plain values where the receipt has numbers. -/
theorem views_anonymous (py : Arithmetic) (receipt : Json) (names : List String) {ρ : String → String}
    (hρ : Function.Injective ρ) :
    (∀ receipt', SameScores ρ receipt receipt' →
      scoreView py receipt' (names.map ρ) true = scoreView py receipt names true) ∧
    (∀ receipt', SameReports ρ receipt receipt' →
      validationView receipt' (names.map ρ) = validationView receipt names) ∧
    SameScores ρ receipt (renameWorkloads ρ receipt) ∧ SameReports ρ receipt (renameWorkloads ρ receipt) ∧
    (∀ view, scoreView py receipt names true = .ok view → ScoreShape receipt names.length view) ∧
    ∀ view, validationView receipt names = .ok view → NumericErrors names receipt →
      Plain (ErrorKey names.length) view := by
  obtain ⟨hscores, hreports⟩ := agree_rename ρ receipt
  refine ⟨fun _ h => scoreView_eq hρ names h, fun _ h => validationView_eq hρ names h, hscores, hreports, ?_, ?_⟩
  · exact fun view h => scoreView_shape h
  · exact fun view h hnumeric => validationView_plain hnumeric h

namespace Number

def toFloat : Number → binary64.Value
  | .int n => binary64.ofRat (n < 0) |(n : ℚ)|
  | .float x => x

def add : Number → Number → Number
  | .int a, .int b => .int (a + b)
  | a, b => .float (a.toFloat.add b.toFloat)

end Number

/-- Sums from left to right, and quotients rounded once. Integers are taken to be small. -/
def leftToRight : Arithmetic where
  sum := fun xs => .ok (xs.foldl Number.add (.int 0))
  divide := fun x n => .ok (.float (match x.toFloat with
    | .finite y => if y.toRat = 0 then .finite y else binary64.ofRat y.neg (|y.toRat| / n)
    | y => y))

/-- The row of a workload that takes `error` percent longer. -/
def errorRow (error : Int) (trace : String) : Json :=
  .obj [("cycles", .obj [("per_core_dev_pct", .arr [.int error]), ("mean_abs_per_core_pct", .int error),
    ("makespan_dev_pct", .int error)]), ("request", .null), ("trace", .str trace)]

/-- Workloads on one core, in the report and in its only group. -/
def receiptOf (rows : List (String × Json)) : Json :=
  .obj [("measurement", .obj [("groups", .obj [("1", .obj [("workloads", .obj rows)])]),
    ("aggregate", .obj [("cycle_macro_mae_pct", .int 4)]), ("workloads", .obj rows)])]

def twoCases : Json := receiptOf [("mcf", errorRow 3 "mcf.xz"), ("lbm", errorRow 5 "lbm.xz")]

/-- The workloads of `twoCases` under each other's names. -/
def swappedCases : Json := receiptOf [("lbm", errorRow 3 "mcf.xz"), ("mcf", errorRow 5 "lbm.xz")]

/-- What a view shows at a path. -/
def shown (view : Except Fault Json) (path : List String) : Option (List Char) :=
  (view >>= fun v => dig v path).toOption.bind Json.canonicalJson

/-- Two workloads that swap their names keep their places in both views. -/
theorem views_anonymous_small :
    renameWorkloads (Equiv.swap "mcf" "lbm") twoCases = swappedCases ∧
      scoreView leftToRight swappedCases ["lbm", "mcf"] true = scoreView leftToRight twoCases ["mcf", "lbm"] true ∧
      validationView swappedCases ["lbm", "mcf"] = validationView twoCases ["mcf", "lbm"] ∧
      shown (scoreView leftToRight twoCases ["mcf", "lbm"] true) ["groups", "1", "cases", "val2", "core_error_pct"] =
        some "5".toList ∧
      shown (scoreView leftToRight twoCases ["mcf", "lbm"] true) ["groups", "1", "means", "core_error_pct"] =
        some "4.0".toList ∧
      ∃ view, validationView twoCases ["mcf", "lbm"] = .ok view ∧ Plain (ErrorKey 2) view := by
  have hswap : renameWorkloads (Equiv.swap "mcf" "lbm") twoCases = swappedCases := by
    simp [renameWorkloads, twoCases, swappedCases, receiptOf, mapMember, mapValues, mapKeys]
  have hnumeric : NumericErrors ["mcf", "lbm"] twoCases := by
    intro m hm
    cases hm
    refine ⟨?_, ?_⟩
    · intro a ha key hkey v hv
      cases ha
      simp only [List.mem_cons, List.not_mem_nil, or_false] at hkey
      rcases hkey with rfl | rfl <;> cases hv <;> exact trivial
    · intro ws hws name hname row hrow
      cases hws
      simp only [List.mem_cons, List.not_mem_nil, or_false] at hname
      rcases hname with rfl | rfl <;> cases hrow <;>
        exact ⟨fun v hv => by cases hv; exact trivial, fun v hv => by cases hv⟩
  obtain ⟨hscores, hreports, hsame, hsame', -, hplain⟩ :=
    views_anonymous leftToRight twoCases ["mcf", "lbm"] (Equiv.injective (Equiv.swap "mcf" "lbm"))
  have hnames : ["mcf", "lbm"].map (Equiv.swap "mcf" "lbm") = ["lbm", "mcf"] := by decide
  rw [hswap] at hsame hsame'
  have hscore := hscores _ hsame
  have hreport := hreports _ hsame'
  rw [hnames] at hscore hreport
  exact ⟨hswap, hscore, hreport, by decide +kernel, by decide +kernel, _, rfl, hplain _ rfl hnumeric⟩

theorem not_scoreKey_one : ¬ ScoreKey 2 "1" := by
  rintro (hfixed | ⟨i, hpos, hle, halias⟩)
  · exact absurd hfixed (by decide)
  · have hi : i = 1 ∨ i = 2 := by omega
    rcases hi with rfl | rfl <;> exact absurd halias (by decide)

/-- The core count of a group is a key of the view, and the view has a truth value. -/
theorem scoreView_holds_core_count :
    ∃ view groups, scoreView leftToRight twoCases ["mcf", "lbm"] true = .ok view ∧
      view.field? "groups" = some groups ∧ ¬ Plain (ScoreKey 2) view ∧ ¬ Plain (ScoreKey 2) groups := by
  have hkeys : (scoreView leftToRight twoCases ["mcf", "lbm"] true >>= fun v => itemsOf v "groups").toOption.map
      (fun groups => groups.map Prod.fst) = some ["1"] := by decide +kernel
  cases hview : scoreView leftToRight twoCases ["mcf", "lbm"] true with
  | error e =>
      rw [hview] at hkeys
      cases hkeys
  | ok view =>
      obtain ⟨available, groups, rfl, -⟩ := scoreView_shape hview
      rw [hview] at hkeys
      have hnames : groups.map Prod.fst = ["1"] := Option.some.inj hkeys
      obtain ⟨g, hg⟩ : ∃ g, groups = [("1", g)] := by
        obtain ⟨⟨k, g⟩, rest, rfl, hk, hrest⟩ := List.map_eq_cons_iff.mp hnames
        obtain rfl := List.map_eq_nil_iff.mp hrest
        obtain rfl : k = "1" := hk
        exact ⟨g, rfl⟩
      refine ⟨_, _, rfl, rfl, ?_, ?_⟩
      · intro hplain
        cases hplain with
        | obj hkeys h => nomatch h _ List.mem_cons_self
      · intro hplain
        rw [hg] at hplain
        cases hplain with
        | obj hkeys h => exact not_scoreKey_one (hkeys _ List.mem_cons_self)

end Ramulator.ChiaLoop.Review
