/-
# Ramulator.ChiaLoop.CampaignSearch — every run of the search extends the chain.

Each function of the loop is followed once, from a store in which every recorded iteration is a link, to the
store that it leaves, whether it fails or not. The comparison itself never fails there: what it compares has
been looked at before, the incumbent's reports when it became the incumbent and the candidate's by the check
of its receipt.
-/
import Ramulator.ChiaLoop.CampaignChain

namespace Ramulator.ChiaLoop.Campaign

open Ramulator.Lib Ramulator.ChiaLoop.Scoring

variable {κ : Type} [DecidableEq κ] {candidateId : κ → String} {cfg : Config} {ω : Research κ} {s s' : Store κ}

/-- Not raised by the comparison. -/
def Error.Elsewhere (e : Error) : Prop := ∀ m, e ≠ .promotion m

theorem ends_raiseIf {ε : Type} {c : Prop} [Decidable c] {e : ε} {fail : ε → Prop} (h : fail e) :
    Ends (raiseIf c e) (fun _ => ¬c) fail := by
  unfold raiseIf
  split
  · exact h
  · next hc => exact hc

theorem ends_research {α : Type} (x : Except String α) : Ends (research x) (fun _ => True) Error.Elsewhere := by
  cases x with
  | error m => exact nofun
  | ok a => trivial

/-! ## Receipts -/

theorem checkReceipt_ends (cfg : Config) (stage : Stage) (candidate : κ) (r : Receipt κ) :
    Ends (checkReceipt cfg stage candidate r) (fun _ => True) Error.Elsewhere := by
  unfold checkReceipt
  refine (ends_raiseIf nofun).bind fun _ _ => (ends_raiseIf nofun).bind fun _ _ => (ends_raiseIf nofun).bind fun _ _ => ?_
  split
  · exact (ends_raiseIf nofun).mono fun _ _ => trivial
  · next m _ =>
    unfold checkMeasurement
    refine (ends_forM fun e _ => ?_).bind fun _ _ => ?_
    · exact (ends_raiseIf nofun).bind fun _ _ => (ends_raiseIf nofun).mono fun _ _ => trivial
    · have hrecomputed : Ends ((aggregate m.report.workloads (cfg.names stage) stage cfg.requestObjective).mapError
          Error.report) (fun _ => True) Error.Elsewhere := by
        refine ends_of_error fun e he => ?_
        obtain ⟨e', -, rfl⟩ := except_mapError_eq_error.mp he
        exact nofun
      exact hrecomputed.bind fun _ _ => (ends_raiseIf nofun).mono fun _ _ => trivial

theorem checkReceipt_candidate {stage : Stage} {candidate : κ} {r : Receipt κ}
    (h : checkReceipt cfg stage candidate r = .ok ()) : r.candidate = candidate := by
  obtain ⟨_, hcandidate, -⟩ := except_bind_eq_ok.mp h
  exact not_not.mp (raiseIf_eq_ok.mp hcandidate)

/-- What passes the checks of a receipt and is eligible can be compared. -/
theorem checkReceipt_valid {stage : Stage} {candidate : κ} {r : Receipt κ} {m : Summary}
    (h : checkReceipt cfg stage candidate r = .ok ()) (hm : r.measurement = some m)
    (heligible : m.report.eligibleForPromotion = true) : ∃ v, m.Valid stage v := by
  obtain ⟨_, -, h⟩ := except_bind_eq_ok.mp h
  obtain ⟨_, -, h⟩ := except_bind_eq_ok.mp h
  obtain ⟨_, -, h⟩ := except_bind_eq_ok.mp h
  rw [hm] at h
  obtain ⟨_, -, h⟩ := except_bind_eq_ok.mp h
  obtain ⟨recomputed, haggregate, h⟩ := except_bind_eq_ok.mp h
  obtain ⟨hprecision, hsame⟩ := not_or.mp (raiseIf_eq_ok.mp h)
  obtain ⟨hbare, -, -⟩ := not_not.mp hsame
  have hrecomputed : recomputed.eligibleForPromotion = true :=
    (congrArg Report.eligibleForPromotion hbare).symm.trans heligible
  obtain ⟨v, hv⟩ := aggregate_valid (except_mapError_eq_ok.mp haggregate) hrecomputed
  obtain ⟨hvalue, h1, h2⟩ := hv.parts
  refine ⟨v, valid_of_report heligible (not_not.mp hprecision) ?_ ?_ h1 h2⟩
  · exact (congrArg Report.stage hbare).trans hv.stage_eq
  · have hobjectives : (Summary.mk (Report.bare m.report) unrounded).objectives =
        (Summary.mk (Report.bare recomputed) unrounded).objectives := by rw [hbare]
    exact hobjectives.trans hvalue

/-! ## Steps -/

/-- No iteration and no selection was recorded. -/
def SameProgress (s s' : Store κ) : Prop := s'.iterations = s.iterations ∧ s'.selection = s.selection

omit [DecidableEq κ] in
theorem SameProgress.trans {s₁ s₂ s₃ : Store κ} (h : SameProgress s₁ s₂) (h' : SameProgress s₂ s₃) :
    SameProgress s₁ s₃ := ⟨h'.1.trans h.1, h'.2.trans h.2⟩

/-- A receipt that was measured is recorded, and passes its checks. -/
def Measured (candidateId : κ → String) (cfg : Config) (s : Store κ) (stage : Stage) (candidate : κ) (r : Receipt κ) :
    Prop :=
  s.measurements (stage, candidateId candidate) = some (candidate, r) ∧ checkReceipt cfg stage candidate r = .ok ()

theorem Measured.mono (hle : s ≤ s') {stage : Stage} {c : κ} {r : Receipt κ} (h : Measured candidateId cfg s stage c r) :
    Measured candidateId cfg s' stage c r := ⟨hle.2.2.1 _ _ h.1, h.2⟩

theorem measurement_keeps (hs : Inv candidateId cfg s) (stage : Stage) (candidate : κ) :
    Keeps (Inv candidateId cfg) Error.Elsewhere (measurement candidateId cfg ω stage candidate) s
      fun r s' => Measured candidateId cfg s' stage candidate r ∧ SameProgress s s' := by
  have hstep : Keeps (Inv candidateId cfg) Error.Elsewhere
      (remember .recordConflict (fun s : Store κ => s.measurements (stage, candidateId candidate))
        (fun e s => { s with measurements := s.measurements.record (stage, candidateId candidate) e }) candidate
        (research (if stage = .training then ω.train candidate else ω.validate candidate))) s
      fun r s' => s'.measurements (stage, candidateId candidate) = some (candidate, r) ∧ SameProgress s s' := by
    refine keeps_remember hs nofun (ends_research _) (fun r hr => ⟨hr, rfl, rfl⟩) fun r hnone => ?_
    have hle : s ≤ { s with measurements := s.measurements.record (stage, candidateId candidate) (candidate, r) } :=
      ⟨le_refl _, le_refl _, Table.le_record hnone _, le_refl _, le_refl _, le_refl _⟩
    exact ⟨hle, hs.mono hle rfl rfl, Table.record_self, rfl, rfl⟩
  refine hstep.bind fun r s₁ hle hs₁ ⟨hrecorded, hsame⟩ => ?_
  have hcheck : Keeps (Inv candidateId cfg) Error.Elsewhere (resultOf (checkReceipt cfg stage candidate r)) s₁
      fun _ s' => s₁ = s' ∧ checkReceipt cfg stage candidate r = .ok () :=
    keeps_resultOf hs₁ ((checkReceipt_ends cfg stage candidate r).and.mono fun _ h => ⟨rfl, h.2⟩)
  refine hcheck.bind ?_
  rintro _ _ - - ⟨rfl, hok⟩
  exact keeps_pure hs₁ ⟨⟨hrecorded, hok⟩, hsame⟩

theorem measurementIf_keeps (c : Prop) [Decidable c] (hs : Inv candidateId cfg s) (stage : Stage) (candidate : κ) :
    Keeps (Inv candidateId cfg) Error.Elsewhere (measurementIf candidateId c cfg ω stage candidate) s
      fun r s' => (c → ∃ q, r = some q) ∧ (∀ q ∈ r, c ∧ Measured candidateId cfg s' stage candidate q) ∧
        SameProgress s s' := by
  unfold measurementIf
  split
  · next hc =>
    have hmeasurement : Keeps (Inv candidateId cfg) Error.Elsewhere (measurement candidateId cfg ω stage candidate) s
        fun r s' => Measured candidateId cfg s' stage candidate r ∧ SameProgress s s' :=
      measurement_keeps hs stage candidate
    refine hmeasurement.bind ?_
    rintro r s₁ - hs₁ ⟨hmeasured, hsame⟩
    refine keeps_pure (a := some r) hs₁ ⟨fun _ => ⟨r, rfl⟩, ?_, hsame⟩
    rintro q hq
    obtain rfl := Option.some.inj hq
    exact ⟨hc, hmeasured⟩
  · next hc =>
    refine keeps_pure (a := none) hs ⟨fun h => absurd h hc, ?_, rfl, rfl⟩
    rintro q hq
    cases hq

theorem mechanicalCheck_keeps (hs : Inv candidateId cfg s) (candidate : κ) :
    Keeps (Inv candidateId cfg) Error.Elsewhere (mechanicalCheck candidateId ω candidate) s
      fun c s' => c.candidate = candidate ∧ SameProgress s s' := by
  have hstep : Keeps (Inv candidateId cfg) Error.Elsewhere
      (remember .recordConflict (fun s : Store κ => s.checks (candidateId candidate))
        (fun e s => { s with checks := s.checks.record (candidateId candidate) e }) candidate
        (research (ω.check candidate))) s fun _ s' => SameProgress s s' := by
    refine keeps_remember hs nofun (ends_research _) (fun _ _ => ⟨rfl, rfl⟩) fun c hnone => ?_
    have hle : s ≤ { s with checks := s.checks.record (candidateId candidate) (candidate, c) } :=
      ⟨le_refl _, Table.le_record hnone _, le_refl _, le_refl _, le_refl _, le_refl _⟩
    exact ⟨hle, hs.mono hle rfl rfl, rfl, rfl⟩
  refine hstep.bind fun c s₁ _ hs₁ hsame => ?_
  have hbound : Keeps (Inv candidateId cfg) Error.Elsewhere
      (resultOf (raiseIf (c.candidate ≠ candidate)
        (Error.receipt "mechanical check is not bound to the submitted source"))) s₁
      fun _ s' => s₁ = s' ∧ c.candidate = candidate :=
    keeps_resultOf hs₁ ((ends_raiseIf nofun).mono fun _ h => ⟨rfl, not_not.mp h⟩)
  refine hbound.bind ?_
  rintro _ _ - - ⟨rfl, hcandidate⟩
  exact keeps_pure hs₁ ⟨hcandidate, hsame⟩

omit [DecidableEq κ] in
/-- A result of a session changes nothing of the store. -/
theorem research_keeps {α : Type} (hs : Inv candidateId cfg s) (x : Except String α) :
    Keeps (Inv candidateId cfg) Error.Elsewhere (resultOf (research x) : Run κ α) s fun _ s' => s = s' :=
  keeps_resultOf hs ((ends_research x).mono fun _ _ => rfl)

/-! ## The comparison -/

/-- The comparison goes through, and promotes only a candidate that dominates and passes the gate. -/
theorem promotes_ends {training validation incumbentValidation : Option (Receipt κ)} {incumbent : Receipt κ} {candidate : κ}
    (hfit : Fit candidateId cfg s incumbent)
    (htraining : ∀ r ∈ training, checkReceipt cfg .training candidate r = .ok ())
    (hvalidation : ∀ r ∈ validation, checkReceipt cfg .validation candidate r = .ok ())
    (hincumbent : cfg.validationNonWorsening = true → ∃ r v, incumbentValidation = some r ∧ r.Valid .validation v) :
    Ends (promotes cfg training validation incumbentValidation incumbent)
      (fun b => b = true → ∃ t, training = some t ∧
        (∃ new old, t.Valid .training new ∧ incumbent.Valid .training old ∧ new < old) ∧
        (cfg.validationNonWorsening = true → ∃ r q new old, validation = some r ∧ incumbentValidation = some q ∧
          r.Valid .validation new ∧ q.Valid .validation old ∧ new ≤ old)) Error.Elsewhere := by
  obtain ⟨v, i, hi, hv⟩ := hfit.training
  unfold promotes
  rw [hi]
  cases ht : training.bind Receipt.measurement with
  | none => exact nofun
  | some t =>
      obtain ⟨r, rfl, hr⟩ := Option.bind_eq_some_iff.mp ht
      have hcandidate := checkReceipt_valid (htraining r rfl) hr
      simp only
      split
      · next hgate =>
        obtain ⟨q, u, rfl, j, hj, hu⟩ := hincumbent hgate
        have hpasses : ∃ b, passesGate (validation.bind Receipt.measurement) (some j) = .ok b := by
          refine passesGate_ok ⟨u, hu⟩ fun c hc heligible => ?_
          obtain ⟨a, ha, hac⟩ := Option.bind_eq_some_iff.mp hc
          exact checkReceipt_valid (hvalidation a ha) hac heligible
        rw [show (some q).bind Receipt.measurement = some j from hj]
        have hdecided : ∃ b, shouldPromote t i true (validation.bind Receipt.measurement) (some j) = .ok b :=
          shouldPromote_ok ⟨v, hv⟩ hcandidate hpasses
        obtain ⟨b, hb⟩ := hdecided
        rw [hb]
        rintro rfl
        obtain ⟨new, old, hnew, hold, hlt, hopen⟩ := shouldPromote_true hb
        refine ⟨r, rfl, ⟨new, old, ⟨t, hr, hnew⟩, ⟨i, hi, hold⟩, hlt⟩, fun _ => ?_⟩
        obtain ⟨c, vnew, vold, hc, hvnew, hvold, hle⟩ := passesGate_true hopen j rfl
        obtain ⟨a, ha, hac⟩ := Option.bind_eq_some_iff.mp hc
        exact ⟨a, q, vnew, vold, ha, rfl, ⟨c, hac, hvnew⟩, ⟨j, hj, hvold⟩, hle⟩
      · next hgate =>
        have hdecided : ∃ b, shouldPromote t i true none none = .ok b := shouldPromote_ok ⟨v, hv⟩ hcandidate ⟨true, rfl⟩
        obtain ⟨b, hb⟩ := hdecided
        rw [hb]
        rintro rfl
        obtain ⟨new, old, hnew, hold, hlt, -⟩ := shouldPromote_true hb
        exact ⟨r, rfl, ⟨new, old, ⟨t, hr, hnew⟩, ⟨i, hi, hold⟩, hlt⟩, fun h => absurd h hgate⟩

/-! ## An iteration -/

omit [DecidableEq κ] in
/-- A link is recorded after the end of the chain. -/
theorem Inv.record {k : Nat} {r : Receipt κ} {o : Outcome κ} (hs : Inv candidateId cfg s)
    (hchain : Chain candidateId cfg s k r) (hnone : s.iterations (k + 1) = none) (hlink : Link candidateId cfg s r o)
    (hfit : Fit candidateId cfg s o.selected) :
    s ≤ { s with iterations := s.iterations.record (k + 1) o } ∧
      Inv candidateId cfg { s with iterations := s.iterations.record (k + 1) o } := by
  have hle : s ≤ { s with iterations := s.iterations.record (k + 1) o } :=
    ⟨le_refl _, le_refl _, le_refl _, le_refl _, Table.le_record hnone o, le_refl _⟩
  refine ⟨hle, ⟨fun n o' ho' => ?_, fun sel hsel => ?_⟩⟩
  · rcases Table.of_record ho' with ⟨rfl, rfl⟩ | ho'
    · exact ⟨k, r, rfl, hchain.mono hle, hlink.mono hle, hfit.mono hle⟩
    · obtain ⟨j, q, hn, hq, hl, hf⟩ := hs.iterations n o' ho'
      exact ⟨j, q, hn, hq.mono hle, hl.mono hle, hf.mono hle⟩
  · exact ⟨(hs.selection sel hsel).1.mono hle, (hs.selection sel hsel).2⟩

/-- An iteration that is made anew is a link, and is recorded as one. -/
theorem newIteration_keeps {k : Nat} {incumbent : Receipt κ} (hs : Inv candidateId cfg s)
    (hchain : Chain candidateId cfg s k incumbent) (hnone : s.iterations (k + 1) = none) :
    Keeps (Inv candidateId cfg) Error.Elsewhere (newIteration candidateId cfg ω (k + 1) incumbent) s
      fun o s' => s'.iterations (k + 1) = some o ∧ s'.selection = s.selection := by
  unfold newIteration
  refine (measurementIf_keeps _ hs _ _).bind ?_
  rintro incumbentValidation s₁ hle₁ hs₁ ⟨hsome₁, hiv, hsame₁⟩
  refine (research_keeps hs₁ _).bind ?_
  rintro _ _ - - rfl
  have hfinal : Keeps (Inv candidateId cfg) Error.Elsewhere
      (remember .recordConflict (fun s : Store κ => s.finals (k + 1))
        (fun e s => { s with finals := s.finals.record (k + 1) e }) () (research (ω.snapshot (k + 1)))) s₁
      fun _ s' => SameProgress s₁ s' := by
    refine keeps_remember hs₁ nofun (ends_research _) (fun _ _ => ⟨rfl, rfl⟩) fun c hfree => ?_
    have hle : s₁ ≤ { s₁ with finals := s₁.finals.record (k + 1) ((), c) } :=
      ⟨le_refl _, le_refl _, le_refl _, Table.le_record hfree _, le_refl _, le_refl _⟩
    exact ⟨hle, hs₁.mono hle rfl rfl, rfl, rfl⟩
  refine hfinal.bind ?_
  rintro candidate s₂ hle₂ hs₂ hsame₂
  refine (mechanicalCheck_keeps hs₂ candidate).bind ?_
  rintro check s₃ hle₃ hs₃ ⟨hcheck, hsame₃⟩
  refine (measurementIf_keeps _ hs₃ _ candidate).bind ?_
  rintro training s₄ hle₄ hs₄ ⟨-, htraining, hsame₄⟩
  refine (measurementIf_keeps _ hs₄ _ candidate).bind ?_
  rintro validation s₅ hle₅ hs₅ ⟨-, hvalidation, hsame₅⟩
  -- what was known of the incumbent, in the store of the comparison
  have hle : s ≤ s₅ := le_trans hle₁ (le_trans hle₂ (le_trans hle₃ (le_trans hle₄ hle₅)))
  have hsame : SameProgress s s₅ := hsame₁.trans (hsame₂.trans (hsame₃.trans (hsame₄.trans hsame₅)))
  have hfit : Fit candidateId cfg s₅ incumbent := hchain.fit.mono hle
  have hincumbent : cfg.validationNonWorsening = true → ∃ r v, incumbentValidation = some r ∧ r.Valid .validation v ∧
      s₅.measurements (.validation, candidateId incumbent.candidate) = some (incumbent.candidate, r) := by
    intro hgate
    obtain ⟨v, q, hq, hv⟩ := hfit.validation hgate
    obtain ⟨r, hr⟩ := hsome₁ (cfg.gate hgate)
    have hrecorded := (hiv r hr).2.mono (le_trans hle₂ (le_trans hle₃ (le_trans hle₄ hle₅)))
    have heq : r = q := congrArg Prod.snd (Option.some.inj (hrecorded.1.symm.trans hq))
    subst heq
    exact ⟨r, v, hr, hv, hq⟩
  have hpromotes : Keeps (Inv candidateId cfg) Error.Elsewhere
      (resultOf (promotes cfg training validation incumbentValidation incumbent) : Run κ Bool) s₅
      fun b s' => s₅ = s' ∧ (b = true → ∃ t, training = some t ∧
        (∃ new old, t.Valid .training new ∧ incumbent.Valid .training old ∧ new < old) ∧
        (cfg.validationNonWorsening = true → ∃ r q new old, validation = some r ∧ incumbentValidation = some q ∧
          r.Valid .validation new ∧ q.Valid .validation old ∧ new ≤ old)) := by
    refine keeps_resultOf hs₅ ((promotes_ends hfit (fun r hr => (htraining r hr).2.2)
      (fun r hr => (hvalidation r hr).2.2) fun hgate => ?_).mono fun b hb => ⟨rfl, hb⟩)
    obtain ⟨r, v, hr, hv, -⟩ := hincumbent hgate
    exact ⟨r, v, hr, hv⟩
  refine hpromotes.bind ?_
  rintro promoted _ - - ⟨rfl, hpromoted⟩
  refine (research_keeps hs₅ _).bind ?_
  rintro _ _ - - rfl
  have hlink : Link candidateId cfg s₅ incumbent
      { iteration := k + 1, parent := incumbent.candidate, candidate, check, training, promoted,
        selected := if promoted then training.getD incumbent else incumbent } ∧
      Fit candidateId cfg s₅ (if promoted then training.getD incumbent else incumbent) := by
    cases promoted with
    | false =>
        refine ⟨⟨rfl, fun _ => rfl, nofun, fun hgate => ?_⟩, hfit⟩
        obtain ⟨v, hv⟩ := hfit.validation hgate
        exact ⟨v, v, hv, hv, le_refl v⟩
    | true =>
        obtain ⟨t, rfl, ⟨new, old, hnew, hold, hlt⟩, hgated⟩ := hpromoted rfl
        obtain ⟨hpassed, hmeasured⟩ := htraining t rfl
        have hcandidate : t.candidate = candidate := checkReceipt_candidate hmeasured.2
        have hvalidated : cfg.validationNonWorsening = true → ∃ new old, Validated candidateId s₅ t.candidate new ∧
            Validated candidateId s₅ incumbent.candidate old ∧ new ≤ old := by
          intro hgate
          obtain ⟨r, q, vnew, vold, hr, hq, hvnew, hvold, hle'⟩ := hgated hgate
          obtain ⟨q', -, hq', -, hrecorded⟩ := hincumbent hgate
          obtain rfl := Option.some.inj (hq.symm.trans hq')
          rw [hcandidate]
          exact ⟨vnew, vold, ⟨r, (hvalidation r hr).2.1, hvnew⟩, ⟨q, hrecorded, hvold⟩, hle'⟩
        refine ⟨⟨rfl, nofun, fun _ => ⟨rfl, hcandidate, hcheck, hpassed, new, old, hnew, hold, hlt⟩, hvalidated⟩,
          ⟨⟨new, hnew⟩, fun hgate => ?_⟩⟩
        obtain ⟨vnew, -, hvnew, -⟩ := hvalidated hgate
        exact ⟨vnew, hvnew⟩
  have hfree : s₅.iterations (k + 1) = none := by
    rw [hsame.1]
    exact hnone
  obtain ⟨hgrown, hinv⟩ := hs₅.record (hchain.mono hle) hfree hlink.1 hlink.2
  have hsave : Keeps (Inv candidateId cfg) Error.Elsewhere (modifyRecord fun s : Store κ =>
      { s with iterations := s.iterations.record (k + 1) _ } : Run κ Unit) s₅
      fun _ s' => { s₅ with iterations := s₅.iterations.record (k + 1) _ } = s' :=
    keeps_modifyRecord hgrown hinv rfl
  refine hsave.bind ?_
  rintro _ _ - - rfl
  exact keeps_pure hinv ⟨Table.record_self, hsame.2⟩

/-- An iteration extends the chain, whether it is made or was recorded. -/
theorem iteration_keeps {k : Nat} {incumbent : Receipt κ} (hs : Inv candidateId cfg s)
    (hchain : Chain candidateId cfg s k incumbent) :
    Keeps (Inv candidateId cfg) Error.Elsewhere (iteration candidateId cfg ω (k + 1) incumbent) s
      fun o s' => Chain candidateId cfg s' (k + 1) o.selected ∧ s'.selection = s.selection := by
  -- the record of an iteration ends the chain
  have hends : ∀ {o : Outcome κ} {s' : Store κ}, s ≤ s' → Inv candidateId cfg s' → s'.iterations (k + 1) = some o →
      Chain candidateId cfg s' (k + 1) o.selected := by
    intro o s' hle hs' ho
    obtain ⟨j, r, hj, hr, hlink, hfit⟩ := hs'.iterations _ o ho
    obtain rfl : k = j := by omega
    exact .round hr ho hlink hfit
  unfold iteration
  have hread : Keeps (Inv candidateId cfg) Error.Elsewhere (recorded : Run κ (Store κ)) s
      fun r s' => s = r ∧ s = s' := keeps_recorded hs ⟨rfl, rfl⟩
  refine hread.bind ?_
  rintro _ _ - - ⟨rfl, rfl⟩
  cases hrecorded : s.iterations (k + 1) with
  | none =>
      refine (newIteration_keeps hs hchain hrecorded).mono ?_
      rintro o s' hle hs' ⟨ho, hselection⟩
      exact ⟨hends hle hs' ho, hselection⟩
  | some existing =>
      simp only
      split
      · exact keeps_pure hs ⟨hends (le_refl s) hs hrecorded, rfl⟩
      · exact keeps_resultOf hs nofun

theorem rounds_keeps (remaining : Nat) {k : Nat} {incumbent : Receipt κ} (hs : Inv candidateId cfg s)
    (hchain : Chain candidateId cfg s k incumbent) :
    Keeps (Inv candidateId cfg) Error.Elsewhere (rounds candidateId cfg ω remaining (k + 1) incumbent) s
      fun r s' => Chain candidateId cfg s' (k + remaining) r ∧ s'.selection = s.selection := by
  induction remaining generalizing k incumbent s with
  | zero => exact keeps_pure hs ⟨hchain, rfl⟩
  | succ remaining ih =>
      unfold rounds
      refine (iteration_keeps hs hchain).bind ?_
      rintro o s₁ - hs₁ ⟨hchain₁, hselection₁⟩
      refine (ih hs₁ hchain₁).mono ?_
      rintro r s' - - ⟨hr, hselection⟩
      rw [show k + (remaining + 1) = k + 1 + remaining by omega]
      exact ⟨hr, hselection.trans hselection₁⟩

/-! ## The search -/

omit [DecidableEq κ] in
theorem requireValid_ends (r : Receipt κ) (stage : Stage) :
    Ends (requireValid r stage) (fun v => r.Valid stage v) Error.Elsewhere := by
  unfold requireValid
  cases hm : r.measurement with
  | none => exact nofun
  | some m =>
      simp only
      cases hv : validObjectives m stage with
      | error e => exact nofun
      | ok v => exact ⟨m, hm, hv⟩

theorem seedValidation_keeps (hs : Inv candidateId cfg s) (seed : κ) :
    Keeps (Inv candidateId cfg) Error.Elsewhere (seedValidation candidateId cfg ω seed) s
      fun _ s' => (cfg.validationNonWorsening = true → ∃ v, Validated candidateId s' seed v) ∧
        s'.selection = s.selection := by
  unfold seedValidation
  split
  · refine (measurement_keeps hs _ _).bind ?_
    rintro r s₁ - hs₁ ⟨hmeasured, hsame⟩
    have hvalid : Keeps (Inv candidateId cfg) Error.Elsewhere
        (resultOf (requireValid r .validation) : Run κ (ℚ × ℚ)) s₁ fun v s' => s₁ = s' ∧ r.Valid .validation v :=
      keeps_resultOf hs₁ ((requireValid_ends r .validation).mono fun v hv => ⟨rfl, hv⟩)
    refine hvalid.bind ?_
    rintro v _ - - ⟨rfl, hv⟩
    exact keeps_pure hs₁ ⟨fun _ => ⟨v, r, hmeasured.1, hv⟩, hsame.2⟩
  · next hnone => exact keeps_pure hs ⟨fun hgate => absurd (cfg.gate hgate) hnone, rfl⟩

omit [DecidableEq κ] in
/-- The end of the chain is frozen. -/
theorem Inv.select (hs : Inv candidateId cfg s) (sel : Selection κ)
    (hchain : Chain candidateId cfg s sel.iterations sel.training) (hcandidate : sel.candidate = sel.training.candidate)
    (hnone : s.selection () = none) :
    s ≤ { s with selection := s.selection.record () sel } ∧
      Inv candidateId cfg { s with selection := s.selection.record () sel } := by
  have hle : s ≤ { s with selection := s.selection.record () sel } :=
    ⟨le_refl _, le_refl _, le_refl _, le_refl _, le_refl _, Table.le_record hnone _⟩
  refine ⟨hle, ⟨fun n o ho => ?_, fun sel' hsel' => ?_⟩⟩
  · obtain ⟨k, r, hn, hchain, hlink, hfit⟩ := hs.iterations n o ho
    exact ⟨k, r, hn, hchain.mono hle, hlink.mono hle, hfit.mono hle⟩
  · have hrecorded : s.selection.record () sel () = some sel' := hsel'
    rw [Table.record_self] at hrecorded
    obtain rfl := Option.some.inj hrecorded
    exact ⟨hchain.mono hle, hcandidate⟩

theorem search_keeps (hs : Inv candidateId cfg s) (hnone : s.selection () = none) :
    Keeps (Inv candidateId cfg) Error.Elsewhere (search candidateId cfg ω) s fun _ _ => True := by
  unfold search
  have hprepare : Keeps (Inv candidateId cfg) Error.Elsewhere
      (remember .recordConflict (fun s : Store κ => s.prepared ())
        (fun e s => { s with prepared := s.prepared.record () e }) () (research ω.prepare)) s
      fun seed s' => s'.prepared () = some ((), seed) ∧ s'.selection = s.selection := by
    refine keeps_remember hs nofun (ends_research _) (fun _ hseed => ⟨hseed, rfl⟩) fun c hfree => ?_
    have hle : s ≤ { s with prepared := s.prepared.record () ((), c) } :=
      ⟨Table.le_record hfree _, le_refl _, le_refl _, le_refl _, le_refl _, le_refl _⟩
    have hself : s.prepared.record () ((), c) () = some ((), c) := Table.record_self
    exact ⟨hle, hs.mono hle rfl rfl, hself, rfl⟩
  refine hprepare.bind ?_
  rintro seed s₁ - hs₁ ⟨hprepared, hselection₁⟩
  refine (mechanicalCheck_keeps hs₁ seed).bind ?_
  rintro check s₂ hle₂ hs₂ ⟨-, hsame₂⟩
  have hpassed : Keeps (Inv candidateId cfg) Error.Elsewhere
      (resultOf (raiseIf (check.passed = false) (Error.receipt "initial seed fails mechanical checks")) : Run κ Unit) s₂
      fun _ s' => s₂ = s' := keeps_resultOf hs₂ ((ends_raiseIf nofun).mono fun _ _ => rfl)
  refine hpassed.bind ?_
  rintro _ _ - - rfl
  refine (measurement_keeps hs₂ _ _).bind ?_
  rintro incumbent s₃ hle₃ hs₃ ⟨hmeasured, hsame₃⟩
  have hvalid : Keeps (Inv candidateId cfg) Error.Elsewhere
      (resultOf (requireValid incumbent .training) : Run κ (ℚ × ℚ)) s₃
      fun v s' => s₃ = s' ∧ incumbent.Valid .training v :=
    keeps_resultOf hs₃ ((requireValid_ends incumbent .training).mono fun v hv => ⟨rfl, hv⟩)
  refine hvalid.bind ?_
  rintro v _ - - ⟨rfl, hv⟩
  refine (seedValidation_keeps hs₃ seed).bind ?_
  rintro _ s₄ hle₄ hs₄ ⟨hvalidated, hselection₄⟩
  have hcandidate : incumbent.candidate = seed := checkReceipt_candidate hmeasured.2
  have hchain : Chain candidateId cfg s₄ 0 incumbent := by
    refine .seed ((le_trans hle₂ (le_trans hle₃ hle₄)).1 _ _ hprepared) (hmeasured.mono hle₄).1 ⟨⟨v, hv⟩, fun hgate => ?_⟩
    rw [hcandidate]
    exact hvalidated hgate
  refine (rounds_keeps cfg.maximumIterations hs₄ hchain).bind ?_
  rintro last s₅ - hs₅ ⟨hlast, hselection₅⟩
  have hfree : s₅.selection () = none := by
    rw [hselection₅, hselection₄, hsame₃.2, hsame₂.2, hselection₁]
    exact hnone
  rw [Nat.zero_add] at hlast
  obtain ⟨hgrown, hinv⟩ := hs₅.select ⟨last.candidate, last, cfg.maximumIterations, cfg.execution⟩ hlast rfl hfree
  have hsave : Keeps (Inv candidateId cfg) Error.Elsewhere (modifyRecord fun s : Store κ =>
      { s with selection := s.selection.record () ⟨last.candidate, last, cfg.maximumIterations, cfg.execution⟩ } :
        Run κ Unit) s₅ fun _ _ => True := keeps_modifyRecord hgrown hinv trivial
  refine hsave.bind ?_
  rintro _ s₆ - hs₆ -
  exact keeps_pure hs₆ trivial

/-- Every run of the search, from a store whose iterations are links, leaves such a store, and raises nothing in
a comparison. -/
theorem runSearch_keeps (hs : Inv candidateId cfg s) :
    Keeps (Inv candidateId cfg) Error.Elsewhere (runSearch candidateId cfg ω) s fun _ _ => True := by
  unfold runSearch
  have hread : Keeps (Inv candidateId cfg) Error.Elsewhere (recorded : Run κ (Store κ)) s
      fun r s' => s = r ∧ s = s' := keeps_recorded hs ⟨rfl, rfl⟩
  refine hread.bind ?_
  rintro _ _ - - ⟨rfl, rfl⟩
  cases hselection : s.selection () with
  | some frozen => exact keeps_pure hs trivial
  | none => exact search_keeps hs hselection

end Ramulator.ChiaLoop.Campaign
