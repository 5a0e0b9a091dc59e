/-
# Ramulator.Controller.ActiveBuffer — the accounting of the active buffer.

A request whose row has been activated waits for its column command in the active buffer, at most one
per bank; `m_active_per_bank` counts the requests of each bank, and `would_close_active` reads it to
keep other requests from closing their rows. The chain is: the counters are exact, so no chosen command
closes a row that an active request needs, so active requests always hit their rows, so a bank that is
activated has no active request yet.

The check is made on the chosen command. When the row policy then upgrades it to its auto-precharge
form the answer may be wrong, so the accounting is stated over runs without such an upgrade.
-/
import Ramulator.Controller.Legality

namespace Ramulator.Controller

open Ramulator.Base (Request)
open Ramulator.Dram Ramulator.Lib ControllerBase

variable {K : Type}

/-- The active requests of bank `b`. -/
def activeCount (cfg : Config) (s : ControllerBase K) (b : Int) : Nat :=
  (s.active.map (bankOf cfg)).count b

/-- A closing command is issued to no bank with an active request other than the issuing one. -/
def ClosesNoOther : Event → Prop
  | .issued uid c _ targets active =>
      c.commandMeta.isClosing = true → ∀ t ∈ targets, ∀ a ∈ active, a.2 = t.1 → a.1 = uid
  | _ => True

/-- The candidate comes from outside the active buffer, the row policy upgrades it, and its bank has an
active request. -/
def UpgradeOverActive (cfg : Config) (s : ControllerBase K) (b : Buf) (e : Entry K) : Prop :=
  b ≠ .active ∧ (s.tryUpgradeCommand cfg e).cmd ≠ e.cmd ∧
    ∃ a ∈ s.active, bankOf cfg a = bankOf cfg e

instance (cfg : Config) (s : ControllerBase K) (b : Buf) (e : Entry K) :
    Decidable (UpgradeOverActive cfg s b e) :=
  inferInstanceAs (Decidable (_ ∧ _ ∧ _))

/-- The invariant between calls. -/
structure ActiveInv (cfg : Config) (s : ControllerBase K) : Prop where
  legal : LegalInv cfg False s
  count : ∀ b, s.activePerBank b = activeCount cfg s b
  rowOpen : ∀ a ∈ s.active, RowOpen cfg s a
  distinct : (s.active.map (bankOf cfg)).Nodup
  log : ∀ ev ∈ s.log, ClosesNoOther ev

/-- The invariant between the issue of the command of `e`, the `i`-th request of `b`, and its advance:
only the row of a request that is about to retire may be closed, and a request about to be promoted
comes to a bank without active requests. -/
structure ActiveMid (cfg : Config) (b : Buf) (i : Nat) (e : Entry K) (s : ControllerBase K) : Prop where
  legal : LegalInv cfg False s
  count : ∀ b, s.activePerBank b = activeCount cfg s b
  distinct : (s.active.map (bankOf cfg)).Nodup
  log : ∀ ev ∈ s.log, ClosesNoOther ev
  getElem : (s.bufs b)[i]? = some e
  rowOpen : ∀ j a, s.active[j]? = some a →
    RowOpen cfg s a ∨ (b = .active ∧ j = i ∧ e.cmd = e.final)
  promotes : e.cmd ≠ e.final → e.cmd.commandMeta.isOpening = true →
    e.final ∈ columnCommands ∧ b ≠ .active ∧ RowOpen cfg s e ∧
      ∀ a ∈ s.active, bankOf cfg a ≠ bankOf cfg e

variable {cfg : Config} {s s' : ControllerBase K}

/-! ## Open rows -/

/-- A column command whose row is open needs nothing first. -/
theorem getPreqCommand_of_openWith {spec : Standard} (hspec : OneStep spec) {d : DRAMDevice}
    {c : Command} {addr : AddrVec} (hc : c ∈ columnCommands)
    (hopen : OpenWith (addr.coord spec.rowLevel) (d.banks (spec.flatBankId addr))) :
    d.getPreqCommand spec c addr = c := by
  rw [getPreqCommand_single (of_mem_columnCommands hc).2.1, hspec.not_split, preq_column hc]
  simp [Command.actPreq, hopen.1, hopen.2]

/-- The active candidate goes straight to its terminal command. -/
theorem prepared_active (hspec : OneStep cfg.spec) (h : ActiveInv cfg s) {i : Nat} {e : Entry K}
    (hcand : Candidate cfg s .active i e) :
    (s.prepared cfg e).cmd = (s.prepared cfg e).final ∧ (s.prepared cfg e).cmd ∈ columnCommands := by
  have hmem : e ∈ s.active := List.mem_of_getElem? hcand.getElem
  have hcol : e.final ∈ columnCommands := (h.legal.finals .active e hmem).2 (by decide)
  have hcmd : e.cmd = e.final :=
    hcand.cmd.trans (getPreqCommand_of_openWith hspec hcol (h.rowOpen e hmem))
  rcases prepared_cases cfg s e with ⟨hc, hf⟩ | ⟨ap, hap, hc, hf⟩
  · exact ⟨by rw [hc, hf, hcmd], by rw [hc, hcmd]; exact hcol⟩
  · exact ⟨by rw [hc, hf], by rw [hc]; exact (apUpgrade_column hspec hap).2.1⟩

/-- A command that closes nothing keeps a row open, if an activation is of that row. -/
theorem action_openWith {c : Command} {row row' : Int} {bank : BankState} (hc : c ∈ oneStepCommands)
    (hclosing : c.commandMeta.isClosing = false) (hopen : OpenWith row' bank)
    (hact : c = .ACT → OpenWith row bank) : OpenWith row' (c.action row bank) := by
  simp only [oneStepCommands, List.mem_cons, List.not_mem_nil, or_false] at hc
  rcases hc with rfl | rfl | rfl | rfl | rfl | rfl | rfl | rfl | rfl | rfl | rfl | rfl | rfl | rfl | rfl | rfl | rfl
  · refine ⟨rfl, ?_⟩
    have hrows := (hact rfl).2
    simp only [Command.action, hrows, List.insert_of_mem (List.mem_singleton_self row)]
    rw [← hrows, hopen.2]
  all_goals first
    | exact hopen
    | exact absurd hclosing (by decide)

/-! ## What a chosen command closes -/

/-- The answer of `would_close_active` covers every bank that the command visits. -/
theorem activePerBank_of_not_wouldClose {e : Entry K} (h : s.wouldCloseActive cfg e = false)
    (hclosing : e.cmd.commandMeta.isClosing = true) {t : Int}
    (ht : t ∈ s.device.targetBanks cfg.spec e.cmd e.addrVec) :
    s.active = [] ∨ s.activePerBank t ≤ 0 := by
  unfold wouldCloseActive at h
  rw [if_neg (by simp [hclosing])] at h
  split_ifs at h with hempty
  · exact .inl (List.length_eq_zero_iff.mp hempty)
  · refine .inr ?_
    unfold DRAMDevice.targetBanks Standard.targetBanks at ht
    cases htarget : e.cmd.bankTarget with
    | single =>
        simp only [htarget, List.mem_singleton] at ht
        subst ht
        simpa [htarget, bankOf] using h
    | all =>
        simp only [htarget, List.mem_map, List.mem_filter] at ht
        obtain ⟨i, ⟨hi, hmatch⟩, rfl⟩ := ht
        simp only [htarget, List.any_eq_false] at h
        have hi' := h i hi
        simp only [hmatch] at hi'
        simp at hi'
        omega
    | sameBank =>
        simp only [htarget, List.mem_map, List.mem_filter, Bool.and_eq_true, beq_iff_eq] at ht
        obtain ⟨i, ⟨hi, hid, hmatch⟩, rfl⟩ := ht
        simp only [htarget, List.any_eq_false] at h
        have hi' := h i hi
        simp only [hmatch, hid] at hi'
        simp at hi'
        omega

theorem not_mem_of_activeCount {t : Int} (h : activeCount cfg s t = 0) :
    ∀ a ∈ s.active, bankOf cfg a ≠ t := by
  intro a ha hbank
  exact List.count_eq_zero.mp h (hbank ▸ List.mem_map_of_mem ha)

/-- The command issued for a candidate closes no bank with an active request, except that an active
candidate may close its own. -/
theorem closes_only_own (hspec : OneStep cfg.spec) (h : ActiveInv cfg s) {b : Buf} {i : Nat}
    {e : Entry K} (hcand : Candidate cfg s b i e) (hcond : ¬ UpgradeOverActive cfg s b e)
    (hclosing : (s.prepared cfg e).cmd.commandMeta.isClosing = true) {t : Int}
    (ht : t ∈ s.device.targetBanks cfg.spec (s.prepared cfg e).cmd (s.prepared cfg e).addrVec)
    {j : Nat} {a : Entry K} (ha : s.active[j]? = some a) (hbank : bankOf cfg a = t) :
    b = .active ∧ j = i := by
  rw [prepared_addrVec] at ht
  have hmem : a ∈ s.active := List.mem_of_getElem? ha
  by_cases hb : b = .active
  · -- an active candidate visits its own bank only, and no other active request has that bank
    subst hb
    obtain ⟨-, hcol⟩ := prepared_active hspec h hcand
    rw [targetBanks_single (of_mem_columnCommands hcol).2.1, List.mem_singleton] at ht
    refine ⟨rfl, ?_⟩
    have hi : s.active[i]? = some e := hcand.getElem
    have hlt : j < (s.active.map (bankOf cfg)).length := by
      rw [List.length_map]
      exact (List.getElem?_eq_some_iff.mp ha).1
    refine (List.getElem?_inj hlt h.distinct).mp ?_
    rw [List.getElem?_map, List.getElem?_map, ha, hi, Option.map_some, Option.map_some, hbank, ht]
    rfl
  · exfalso
    rcases prepared_cases cfg s e with ⟨hc, -⟩ | ⟨ap, hap, hc, -⟩
    · rw [hc] at ht hclosing
      rcases activePerBank_of_not_wouldClose (hcand.notClosing.resolve_left hb) hclosing ht with
        hempty | hzero
      · simp [hempty] at ha
      · have hcount : activeCount cfg s t = 0 := by
          have := h.count t
          omega
        exact not_mem_of_activeCount hcount a hmem hbank
    · obtain ⟨-, hcol, hne⟩ := apUpgrade_column hspec hap
      rw [hc, targetBanks_single (of_mem_columnCommands hcol).2.1, List.mem_singleton] at ht
      have hupgraded : (s.tryUpgradeCommand cfg e).cmd = ap := hc
      exact hcond ⟨hb, by rw [hupgraded]; exact hne, a, hmem, hbank.trans ht⟩

/-! ## Issuing -/

/-- The rows of the active requests after an issue. -/
theorem rowOpen_issued (hspec : OneStep cfg.spec) (h : ActiveInv cfg s) {b : Buf} {i : Nat}
    {e : Entry K} (hcand : Candidate cfg s b i e) (hcond : ¬ UpgradeOverActive cfg s b e)
    (stats : Stats) (p : RowPolicyState) {j : Nat} {a : Entry K} (ha : s.active[j]? = some a) :
    RowOpen cfg (s.issued cfg b i (s.prepared cfg e) stats p) a ∨
      (b = .active ∧ j = i ∧ (s.prepared cfg e).cmd = (s.prepared cfg e).final) := by
  have hok := h.legal.finals b e (List.mem_of_getElem? hcand.getElem)
  have hiss := prepared_issuable hspec h.legal.banks hok.1 hcand.cmd
  have hopen := h.rowOpen a (List.mem_of_getElem? ha)
  unfold RowOpen ControllerBase.issued DRAMDevice.issueCommand
  dsimp only
  split_ifs with hbank
  · cases hclosing : (s.prepared cfg e).cmd.commandMeta.isClosing with
    | true =>
        obtain ⟨rfl, hj⟩ := closes_only_own hspec h hcand hcond hclosing hbank ha rfl
        exact .inr ⟨rfl, hj, (prepared_active hspec h hcand).1⟩
    | false =>
        refine .inl (action_openWith hiss.cmd_mem hclosing hopen fun hact => ?_)
        -- an activation that visits an open bank is of the row that is open there
        rw [targetBanks_single (by rw [hact]; rfl), List.mem_singleton] at hbank
        rw [hbank]
        unfold RowOpen at hopen
        rw [hbank] at hopen
        rcases hiss with ⟨-, -, hclosed⟩ | ⟨-, -, hopen'⟩ | ⟨-, -, hopen'⟩ | ⟨-, -, hclosed⟩ | ⟨hc, hclock⟩ | hpre
        · rw [show bankOf cfg (s.prepared cfg e) = cfg.spec.flatBankId (s.prepared cfg e).addrVec
            from rfl, hopen.1] at hclosed
          contradiction
        · exact hopen'
        · exact hopen'
        · have hclosed' := hclosed (cfg.spec.flatBankId (s.prepared cfg e).addrVec) (by
            rw [targetBanks_single (by rw [hact]; rfl)]
            exact List.mem_singleton_self _)
          rw [hopen.1] at hclosed'
          contradiction
        · exact absurd (hc.symm.trans hact) (of_mem_clockCommands hclock).2.1
        · exact absurd hact (of_mem_prechargeCommands hpre).2.1
  · exact .inl hopen

/-- A request about to be promoted has just activated a closed bank. -/
theorem promotes_issued (hspec : OneStep cfg.spec) (h : ActiveInv cfg s) {b : Buf} {i : Nat}
    {e : Entry K} (hcand : Candidate cfg s b i e) (stats : Stats) (p : RowPolicyState)
    (hne : (s.prepared cfg e).cmd ≠ (s.prepared cfg e).final)
    (hopening : (s.prepared cfg e).cmd.commandMeta.isOpening = true) :
    (s.prepared cfg e).final ∈ columnCommands ∧ b ≠ .active ∧
      RowOpen cfg (s.issued cfg b i (s.prepared cfg e) stats p) (s.prepared cfg e) ∧
      ∀ a ∈ s.active, bankOf cfg a ≠ bankOf cfg (s.prepared cfg e) := by
  have hok := h.legal.finals b e (List.mem_of_getElem? hcand.getElem)
  have hiss := prepared_issuable hspec h.legal.banks hok.1 hcand.cmd
  have hcol := hiss.final_column hopening hne
  have hact : (s.prepared cfg e).cmd = .ACT ∧
      (s.device.banks (bankOf cfg (s.prepared cfg e))).state = .closed := by
    rcases hiss with ⟨hc, -, hclosed⟩ | ⟨hc, hf, -⟩ | ⟨hc, -⟩ | ⟨hc, -⟩ | ⟨hc, -⟩ | hpre
    · exact ⟨hc, hclosed⟩
    · exact absurd (hc.trans hf.symm) hne
    · exact absurd hc hne
    · exact absurd hc hne
    · exact absurd hc hne
    · rw [(of_mem_prechargeCommands hpre).2.2.2.2] at hopening
      contradiction
  obtain ⟨hcmd, hclosed⟩ := hact
  refine ⟨hcol, ?_, ?_, ?_⟩
  · rintro rfl
    exact hne (prepared_active hspec h hcand).1
  · have hrows : (s.device.banks (bankOf cfg (s.prepared cfg e))).rows = [] := by
      rcases h.legal.banks (bankOf cfg (s.prepared cfg e)) with ⟨hopen, -⟩ | ⟨-, hrows⟩
      · rw [hclosed] at hopen
        contradiction
      · exact hrows
    unfold RowOpen ControllerBase.issued DRAMDevice.issueCommand
    dsimp only
    have hself : bankOf cfg (s.prepared cfg e) ∈ [cfg.spec.flatBankId (s.prepared cfg e).addrVec] :=
      List.mem_singleton.mpr rfl
    rw [hcmd, targetBanks_single rfl, if_pos hself]
    exact ⟨rfl, by simp [Command.action, hrows]⟩
  · intro a ha hbank
    have hopen := (h.rowOpen a ha).1
    rw [hbank, hclosed] at hopen
    contradiction

theorem map_bankOf_eq (cfg : Config) {l l' : List (Entry K)}
    (h : l.map (fun a => a.addrVec) = l'.map fun a => a.addrVec) :
    l.map (bankOf cfg) = l'.map (bankOf cfg) := by
  have := congrArg (List.map cfg.spec.flatBankId) h
  rwa [List.map_map, List.map_map] at this

/-- Replacing the candidate by its prepared form changes no address in the active buffer. -/
theorem active_map_addrVec_issued (cfg : Config) {b : Buf} {i : Nat} {e : Entry K} (hi : (s.bufs b)[i]? = some e)
    (stats : Stats) (p : RowPolicyState) :
    (s.issued cfg b i (s.prepared cfg e) stats p).active.map (fun a => a.addrVec) =
      s.active.map fun a => a.addrVec := by
  unfold active
  rw [bufs_issued]
  split_ifs with hb
  · subst hb
    exact map_set_of_eq _ hi (prepared_addrVec cfg s e)
  · rfl

theorem ActiveInv.issued (hspec : OneStep cfg.spec) (h : ActiveInv cfg s) {b : Buf} {i : Nat}
    {e : Entry K} (hcand : Candidate cfg s b i e) (hcond : ¬ UpgradeOverActive cfg s b e)
    (stats : Stats) (p : RowPolicyState) :
    ActiveMid cfg b i (s.prepared cfg e) (s.issued cfg b i (s.prepared cfg e) stats p) := by
  have haddrs := active_map_addrVec_issued cfg hcand.getElem stats p
  have hbanks := map_bankOf_eq cfg haddrs
  refine ⟨h.legal.issued hspec False.elim hcand stats p, ?_, ?_, ?_, ?_, ?_, ?_⟩
  · intro b'
    unfold activeCount
    rw [hbanks]
    exact h.count b'
  · rw [hbanks]
    exact h.distinct
  · intro ev hev
    rcases List.mem_append.mp hev with hev | hev
    · exact h.log ev hev
    · rw [List.mem_singleton.mp hev]
      intro hclosing t ht x hx hbank
      obtain ⟨t, ht', rfl⟩ := List.mem_map.mp ht
      obtain ⟨a, ha, rfl⟩ := List.mem_map.mp hx
      obtain ⟨j, ha⟩ := List.mem_iff_getElem?.mp ha
      obtain ⟨rfl, rfl⟩ := closes_only_own hspec h hcand hcond hclosing ht' ha hbank
      rw [prepared_uid, Option.some.inj (ha.symm.trans hcand.getElem)]
  · have hlt := (List.getElem?_eq_some_iff.mp hcand.getElem).1
    simp [hlt]
  · intro j a ha
    have haddr := congrArg (fun l => l[j]?) haddrs
    simp only [List.getElem?_map, ha, Option.map_some] at haddr
    obtain ⟨a₀, ha₀, heq⟩ := Option.map_eq_some_iff.mp haddr.symm
    have hopen := rowOpen_issued hspec h hcand hcond stats p ha₀
    unfold RowOpen bankOf at hopen ⊢
    rwa [heq] at hopen
  · intro hne hopening
    obtain ⟨hcol, hb, hopen, hfree⟩ := promotes_issued hspec h hcand stats p hne hopening
    refine ⟨hcol, hb, hopen, fun a ha => ?_⟩
    have hmem : bankOf cfg a ∈ s.active.map (bankOf cfg) := hbanks ▸ List.mem_map_of_mem ha
    obtain ⟨a₀, ha₀, heq⟩ := List.mem_map.mp hmem
    rw [← heq]
    exact hfree a₀ ha₀

/-! ## Advancing -/

theorem ClosesNoOther.of_not_isIssue {ev : Event} (h : isIssue ev = false) : ClosesNoOther ev := by
  cases ev with
  | issued uid c addr targets active => exact absurd h (by simp [isIssue])
  | _ => trivial

theorem log_append {evs : List Event} (hlog : ∀ ev ∈ s.log, ClosesNoOther ev)
    (heq : s'.log = s.log ++ evs) (hevs : ∀ ev ∈ evs, isIssue ev = false) :
    ∀ ev ∈ s'.log, ClosesNoOther ev := by
  intro ev hev
  rw [heq, List.mem_append] at hev
  rcases hev with hev | hev
  · exact hlog ev hev
  · exact .of_not_isIssue (hevs ev hev)

/-- A retiring request leaves its buffer; an active one takes its count with it. -/
theorem ActiveMid.retire {b : Buf} {i : Nat} {e : Entry K} (h : ActiveMid cfg b i e s)
    (hlegal : LegalInv cfg False (s.retireRequest cfg b i e)) :
    ActiveInv cfg (s.retireRequest cfg b i e) := by
  obtain ⟨hdev, hbufs, hcount, evs, hlog, hevs⟩ := finish_frame cfg e (s.leave cfg b e)
  have hactive : (s.retireRequest cfg b i e).active =
      if b = .active then s.active.eraseIdx i else s.active := by
    unfold retireRequest active
    rw [bufs_removeAt, hbufs]
    split_ifs with hb hb' hb'
    · rw [← hb]
      rfl
    · exact absurd hb.symm hb'
    · exact absurd hb'.symm hb
    · rfl
  have hcount' : (s.retireRequest cfg b i e).activePerBank = (s.leave cfg b e).activePerBank := hcount
  have hsub : (s.retireRequest cfg b i e).active.Sublist s.active := by
    rw [hactive]
    split_ifs
    · exact List.eraseIdx_sublist _ _
    · exact List.Sublist.refl _
  refine ⟨hlegal, ?_, ?_, h.distinct.sublist (hsub.map _), log_append h.log hlog hevs⟩
  · intro b'
    unfold activeCount
    rw [hcount', hactive]
    have hcnt := h.count b'
    unfold activeCount at hcnt
    -- an active request leaves the buffer and its counter, another one neither
    by_cases hb : b = .active
    · subst hb
      have hi : s.active[i]? = some e := h.getElem
      have herase := countP_eraseIdx (fun a => bankOf cfg a == b') hi
      simp only [List.count, List.countP_map, Function.comp_def] at hcnt ⊢
      rw [← herase] at hcnt
      by_cases hb' : b' = bankOf cfg e
      · subst hb'
        simp [leave] at hcnt ⊢
        omega
      · have hne : (bankOf cfg e == b') = false := by simpa using Ne.symm hb'
        simpa [leave, Function.update_apply, hb', hne] using hcnt
    · simpa [leave, hb] using hcnt
  · intro a ha
    have hopen : RowOpen cfg s a := by
      rw [hactive] at ha
      split_ifs at ha with hb
      · obtain ⟨j, hj, ha⟩ := List.mem_eraseIdx_iff_getElem?.mp ha
        exact (h.rowOpen j a ha).resolve_right fun hi => hj hi.2.1
      · obtain ⟨j, ha⟩ := List.mem_iff_getElem?.mp ha
        exact (h.rowOpen j a ha).resolve_right fun hi => hb hi.1
    unfold RowOpen at hopen ⊢
    rwa [show (s.retireRequest cfg b i e).device = s.device from hdev]

/-- A promoted request enters the active buffer and is counted. -/
theorem ActiveMid.promote {b : Buf} {i : Nat} {e : Entry K} (h : ActiveMid cfg b i e s)
    (hne : e.cmd ≠ e.final) (hopening : e.cmd.commandMeta.isOpening = true)
    (hlegal : LegalInv cfg False (s.promoteToActive cfg b i e)) :
    ActiveInv cfg (s.promoteToActive cfg b i e) := by
  obtain ⟨-, hb, hopen, hfree⟩ := h.promotes hne hopening
  have hold : ∀ a ∈ s.active, RowOpen cfg s a := by
    intro a ha
    obtain ⟨j, ha⟩ := List.mem_iff_getElem?.mp ha
    exact (h.rowOpen j a ha).resolve_right fun hi => hb hi.1
  unfold promoteToActive at hlegal ⊢
  split_ifs at hlegal ⊢ with hroom
  · have hactive : ((s.enterActive cfg b e).removeAt b i).active = s.active ++ [e] := by
      unfold active
      rw [bufs_removeAt, if_neg (Ne.symm hb), bufs_enterActive, if_pos rfl]
      rfl
    refine ⟨hlegal, ?_, ?_, ?_, h.log⟩
    · intro b'
      have hcnt := h.count b'
      unfold activeCount at hcnt ⊢
      rw [hactive, List.map_append, List.count_append]
      by_cases hb' : b' = bankOf cfg e
      · subst hb'
        simp [removeAt, setBuf, enterActive, hcnt]
      · simp [removeAt, setBuf, enterActive, hcnt, Function.update_apply, hb', Ne.symm hb']
    · intro a ha
      rw [hactive, List.mem_append, List.mem_singleton] at ha
      rcases ha with ha | rfl
      · exact hold a ha
      · exact hopen
    · rw [hactive, List.map_append, List.nodup_append]
      refine ⟨h.distinct, by simp, ?_⟩
      intro x hx y hy
      obtain ⟨a, ha, rfl⟩ := List.mem_map.mp hx
      rw [List.map_singleton, List.mem_singleton] at hy
      exact hy ▸ hfree a ha
  · exact ⟨hlegal, h.count, hold, h.distinct, h.log⟩

theorem ActiveMid.advance {b : Buf} {i : Nat} {e : Entry K} (h : ActiveMid cfg b i e s) :
    ActiveInv cfg (s.advance cfg b i e) := by
  have hlegal : LegalInv cfg False (s.advance cfg b i e) :=
    h.legal.advance fun hopening hne => (h.promotes hne hopening).1
  unfold ControllerBase.advance at hlegal ⊢
  split_ifs at hlegal ⊢ with hfinal hopening
  · exact h.retire hlegal
  · exact h.promote hfinal hopening hlegal
  · refine ⟨hlegal, h.count, fun a ha => ?_, h.distinct, h.log⟩
    obtain ⟨j, ha⟩ := List.mem_iff_getElem?.mp ha
    exact (h.rowOpen j a ha).resolve_right fun hi => hfinal hi.2.2

/-! ## The invariant -/

theorem activeInv_init : ActiveInv cfg (ControllerBase.init cfg : ControllerBase K) where
  legal := legalInv_init
  count := fun b => rfl
  rowOpen := fun a ha => absurd ha (by simp [ControllerBase.init, active])
  distinct := List.nodup_nil
  log := fun ev hev => absurd hev (by simp [ControllerBase.init])

/-- Steps that issue nothing and leave the active buffer and its counters alone. -/
theorem ActiveInv.frame (h : ActiveInv cfg s) (hlegal : LegalInv cfg False s')
    (hdevice : s'.device = s.device) (hcount : s'.activePerBank = s.activePerBank)
    (hactive : s'.active.map (fun a => a.addrVec) = s.active.map fun a => a.addrVec)
    (hlog : ∃ evs, s'.log = s.log ++ evs ∧ ∀ ev ∈ evs, isIssue ev = false) : ActiveInv cfg s' := by
  obtain ⟨evs, hlog, hevs⟩ := hlog
  have hbanks := map_bankOf_eq cfg hactive
  refine ⟨hlegal, fun b => ?_, fun a ha => ?_, hbanks ▸ h.distinct, log_append h.log hlog hevs⟩
  · unfold activeCount
    rw [hcount, hbanks]
    exact h.count b
  · have hmem : a.addrVec ∈ s.active.map fun a => a.addrVec := hactive ▸ List.mem_map_of_mem ha
    obtain ⟨a₀, ha₀, heq⟩ := List.mem_map.mp hmem
    have hopen := h.rowOpen a₀ ha₀
    unfold RowOpen bankOf at hopen ⊢
    rwa [hdevice, ← heq]

theorem ActiveInv.send (hspec : OneStep cfg.spec) (h : ActiveInv cfg s)
    {apply : Request Command K → AddrVec} {req req' : Request Command K} {accepted : Bool}
    (hsend : s.send cfg apply req = .ok (accepted, req', s')) : ActiveInv cfg s' := by
  obtain ⟨-, hdev, hactive, -, hcount, hlog⟩ := send_frame hsend
  exact h.frame (h.legal.send hspec hsend) hdev hcount (by rw [hactive]) hlog

theorem ActiveInv.enqueuePriority (hspec : OneStep cfg.spec) (h : ActiveInv cfg s)
    {req : Request Command K} (hreq : ∃ c, req.finalCommand = some c ∧ cfg.spec.supports c = true) :
    ActiveInv cfg (s.enqueuePriority req) :=
  h.frame (h.legal.enqueuePriority hspec hreq) rfl rfl rfl
    ⟨[], by simp [ControllerBase.enqueuePriority, setStats, setBuf], by simp⟩

theorem activeInv_keptBySend (hspec : OneStep cfg.spec) :
    KeptBySend cfg (fun _ => True) fun s : ControllerBase K => ActiveInv cfg s := by
  intro s req accepted s' _ h hsend
  obtain ⟨hreq, rfl | rfl⟩ := prioritySend_eq_ok hsend
  · exact h.enqueuePriority hspec hreq
  · exact h

theorem ActiveMid.enqueuePriority (hspec : OneStep cfg.spec) {b : Buf} {i : Nat} {e : Entry K}
    (h : ActiveMid cfg b i e s) {req : Request Command K}
    (hreq : ∃ c, req.finalCommand = some c ∧ cfg.spec.supports c = true) :
    ActiveMid cfg b i e (s.enqueuePriority req) :=
  ⟨h.legal.enqueuePriority hspec hreq, h.count, h.distinct, h.log,
    getElem?_enqueuePriority h.getElem, h.rowOpen, h.promotes⟩

theorem activeMid_keptBySend (hspec : OneStep cfg.spec) (b : Buf) (i : Nat) (e : Entry K) :
    KeptBySend cfg (fun _ => True) (ActiveMid cfg b i e) := by
  intro s req accepted s' _ h hsend
  obtain ⟨hreq, rfl | rfl⟩ := prioritySend_eq_ok hsend
  · exact h.enqueuePriority hspec hreq
  · exact h

theorem ActiveInv.resolved (h : ActiveInv cfg s) (hres : Resolved s s') : ActiveInv cfg s' := by
  refine h.frame (h.legal.resolved hres) (by rw [hres.rest]) (by rw [hres.rest]) ?_ ⟨[], ?_, by simp⟩
  · have := congrArg (List.map fun a : Entry K => a.addrVec) (hres.bare .active)
    rwa [List.map_map, List.map_map] at this
  · rw [hres.rest, List.append_nil]

theorem ActiveInv.tickPrologue (h : ActiveInv cfg s) : ActiveInv cfg s.tickPrologue := by
  have hlegal := h.legal.tickPrologue
  obtain ⟨stats, heq, -⟩ := tickPrologue_eq s
  rw [heq] at hlegal ⊢
  refine h.frame hlegal rfl rfl rfl ⟨_, rfl, ?_⟩
  intro ev hev
  obtain ⟨p, -, rfl⟩ := List.mem_map.mp hev
  rfl

theorem ActiveInv.tick (hspec : OneStep cfg.spec) (h : ActiveInv cfg s) {inputs : TickInputs K}
    (hcond : OnlyCandidates cfg (fun s b e => ¬ UpgradeOverActive cfg s b e) s (.tick inputs))
    (htick : s.tick cfg inputs = .ok s') : ActiveInv cfg s' := by
  refine tick_preserves (fun _ => True) (fun b e s => ¬ UpgradeOverActive cfg s b e) (ActiveInv cfg)
    (ActiveMid cfg) (activeInv_keptBySend hspec) (activeMid_keptBySend hspec) (fun _ _ => trivial)
    (fun s p hs => hs.frame ⟨hs.legal.1, hs.legal.2, hs.legal.3⟩ rfl rfl rfl ⟨[], by simp, by simp⟩)
    (fun s hs => hs.tickPrologue) (fun s s' hres hs => hs.resolved hres)
    (fun s b i e stats p hs hcond hcand _ => hs.issued hspec hcand hcond stats p)
    (fun s b i e hmid => hmid.advance) (fun _ _ => trivial) ?_ h htick
  intro s₁ s₂ b e hpre hres hcand hup
  refine hcond inputs s₁ b e rfl hpre hcand ⟨hup.1, ?_, ?_⟩
  · have hne := hup.2.1
    rw [hres.rest] at hne
    exact hne
  · obtain ⟨a, ha, hbank⟩ := hup.2.2
    have hmem : bare a ∈ s₁.active.map bare := hres.bare .active ▸ List.mem_map_of_mem ha
    obtain ⟨a₀, ha₀, hbare⟩ := List.mem_map.mp hmem
    refine ⟨a₀, ha₀, ?_⟩
    unfold bankOf at hbank ⊢
    rw [(of_bare_eq hbare).2.2.1, hbank]

theorem ActiveInv.call (hspec : OneStep cfg.spec) (h : ActiveInv cfg s) {c : Call K}
    (hcond : OnlyCandidates cfg (fun s b e => ¬ UpgradeOverActive cfg s b e) s c)
    (hcall : Controller.call cfg c s = .ok s') : ActiveInv cfg s' := by
  cases c with
  | send apply req =>
      obtain ⟨⟨accepted, req', t⟩, ht, rfl⟩ := except_map_eq_ok.mp hcall
      exact h.send hspec ht
  | prioritySend req =>
      obtain ⟨⟨accepted, t⟩, ht, rfl⟩ := except_map_eq_ok.mp hcall
      exact activeInv_keptBySend hspec s req accepted t trivial h ht
  | tick inputs => exact h.tick hspec hcond hcall

/-- In every run in which no tick upgrades a candidate from outside the active buffer over an active
request of its bank: the counters are exact, no closing command is issued to a bank with an active
request other than the issuing one, and the next command of an active request is never `ACT`. -/
theorem active_accounting (cfg : Config) (hspec : OneStep cfg.spec) (s : ControllerBase K)
    (hs : ReachableIf cfg (OnlyCandidates cfg fun s b e => ¬ UpgradeOverActive cfg s b e) s) :
    (∀ b, s.activePerBank b = activeCount cfg s b) ∧
      (∀ ev ∈ s.log, ClosesNoOther ev) ∧
      ∀ e ∈ s.active, s.device.getPreqCommand cfg.spec e.final e.addrVec ≠ .ACT := by
  have hinv : ActiveInv cfg s := by
    refine Reachable.invariant (ActiveInv cfg) activeInv_init ?_ hs
    rintro t c t' ht ⟨hcond, hcall⟩
    exact ht.call hspec hcond hcall
  refine ⟨hinv.count, hinv.log, fun e he => ?_⟩
  have hcol : e.final ∈ columnCommands := (hinv.legal.finals .active e he).2 (by decide)
  rw [getPreqCommand_of_openWith hspec hcol (hinv.rowOpen e he)]
  exact (of_mem_columnCommands hcol).2.2.1

/-- A write waits in the active buffer for its column command while a read hits its row. -/
theorem active_accounting_writeWaits : ∃ s : ControllerBase Unit,
    ReachableIf smallConfig
      (OnlyCandidates smallConfig fun s b e => ¬ UpgradeOverActive smallConfig s b e) s ∧
    s.active.map (·.uid) = [0] ∧ s.activePerBank 0 = 1 ∧
    (∀ b, s.activePerBank b = activeCount smallConfig s b) ∧ ∀ ev ∈ s.log, ClosesNoOther ev := by
  have hrun : observe smallConfig
      (onlyCandidates smallConfig fun s b e => ¬ UpgradeOverActive smallConfig s b e)
      [smallSend 64 Request.write, .tick {}, smallSend 64 Request.read, .tick {}, .tick {}]
      (fun s : ControllerBase Unit => (s.active.map (·.uid), s.activePerBank 0)) =
      .ok ([0], 1) := by
    decide +kernel
  obtain ⟨s, hreach, hobs⟩ := reachable_of_observe
    (fun _ _ h => onlyCandidates_sound (fun _ _ _ => of_decide_eq_true) h) hrun
  obtain ⟨huids, hcount⟩ := Prod.mk.inj hobs
  obtain ⟨hcounts, hlog, -⟩ := active_accounting smallConfig isDDR_smallDDR.oneStep s hreach
  exact ⟨s, hreach, huids, hcount, hcounts, hlog⟩

/-- A second read of the row is upgraded to `RDA` while the write is still active: the write's row is
closed, the write activates it again and is promoted from the active buffer into itself, and one count
of its bank is never given back. -/
theorem upgrade_closes_active_row : IsDDR smallConfig.spec ∧ ∃ s : ControllerBase Unit,
    ReachableIf smallConfig (fun _ _ => True) s ∧ (∃ ev ∈ s.log, ¬ ClosesNoOther ev) ∧
      s.activePerBank 0 ≠ activeCount smallConfig s 0 := by
  have hrun : observe smallConfig (fun _ _ => true)
      ([smallSend 64 Request.write, .tick {}, smallSend 64 Request.read, smallSend 65 Request.read] ++
        List.replicate 10 (.tick {}))
      (fun s : ControllerBase Unit =>
        (s.log.filter isIssue, s.activePerBank 0, activeCount smallConfig s 0)) =
      .ok ([.issued 0 .ACT smallRow [(0, ⟨.closed, []⟩)] [],
        .issued 1 .RD smallRow [(0, ⟨.opened, [5]⟩)] [(0, 0)],
        .issued 2 .RDA smallRow [(0, ⟨.opened, [5]⟩)] [(0, 0)],
        .issued 0 .ACT smallRow [(0, ⟨.closed, []⟩)] [(0, 0)],
        .issued 0 .WR smallRow [(0, ⟨.opened, [5]⟩)] [(0, 0)]], 1, 0) := by
    decide +kernel
  obtain ⟨s, hreach, hobs⟩ := reachable_of_observe (fun _ _ _ => trivial) hrun
  simp only [Prod.mk.injEq] at hobs
  obtain ⟨hlog, hcount, hactive⟩ := hobs
  refine ⟨isDDR_smallDDR, s, hreach,
    ⟨.issued 2 .RDA smallRow [(0, ⟨.opened, [5]⟩)] [(0, 0)], ?_, ?_⟩, ?_⟩
  · refine List.mem_of_mem_filter (p := isIssue) ?_
    rw [hlog]
    simp
  · intro hcloses
    exact absurd (hcloses rfl _ List.mem_cons_self _ List.mem_cons_self rfl) (by decide)
  · rw [hcount, hactive]
    decide

end Ramulator.Controller
