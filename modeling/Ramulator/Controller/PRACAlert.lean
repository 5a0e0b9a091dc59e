/-
# Ramulator.Controller.PRACAlert — the alert state machine of PRAC.

Three structures are kept in step by different functions of the controller. The rows at the alert
threshold shadow the activation counters; the flag that an alert is due follows them; and the queue of
recovery commands follows the state machine: empty while there is no recovery, filled once before it
starts, and used up when it ends.

The state machine leaves its waiting state by an exact comparison with the clock, so a recovery has to
be announced at least one cycle ahead; a negative number of refresh commands is counted but not queued;
and the recovery is over when its refresh commands are, so none of its precharges may be slower than
they are.
-/
import Ramulator.Controller.PRACRecovery
import Ramulator.Controller.Issues
import Ramulator.Lib.SwapTable

namespace Ramulator.Controller

open Ramulator.Base (Request)
open Ramulator.Dram Ramulator.Lib ControllerBase

variable {K : Type} {cfg : Config} {p : PRACConfig}

/-! ## Counters and critical rows -/

namespace PRACConfig

variable {m : List (Int × Int)} {row count r v : Int}

theorem mem_assign : (r, v) ∈ p.assign row count m ↔
    (r = row ∧ v = count) ∨ (r ≠ row ∧ (r, v) ∈ m) := by
  unfold assign
  split_ifs with hany
  · obtain ⟨x, hx, hrow⟩ := List.any_eq_true.mp hany
    have hrow : x.1 = row := by simpa using hrow
    rw [List.mem_map]
    constructor
    · rintro ⟨y, hy, heq⟩
      split_ifs at heq with hyrow
      · obtain ⟨rfl, rfl⟩ := Prod.mk.inj heq
        exact .inl ⟨rfl, rfl⟩
      · subst heq
        exact .inr ⟨hyrow, hy⟩
    · rintro (⟨rfl, rfl⟩ | ⟨hne, hmem⟩)
      · exact ⟨x, hx, by rw [if_pos hrow]⟩
      · exact ⟨(r, v), hmem, by rw [if_neg hne]⟩
  · have hnew : ∀ x ∈ m, x.1 ≠ row := fun x hx hrow =>
      hany (List.any_eq_true.mpr ⟨x, hx, beq_iff_eq.mpr hrow⟩)
    rw [(p.order_perm _).mem_iff, List.mem_append, List.mem_singleton, Prod.mk.injEq]
    constructor
    · rintro (hmem | heq)
      · exact .inr ⟨hnew _ hmem, hmem⟩
      · exact .inl heq
    · rintro (heq | ⟨-, hmem⟩)
      · exact .inr heq
      · exact .inl hmem

theorem mem_keys_assign :
    r ∈ (p.assign row count m).map Prod.fst ↔ r = row ∨ r ∈ m.map Prod.fst := by
  simp only [List.mem_map, Prod.exists, exists_and_right, exists_eq_right, mem_assign]
  constructor
  · rintro ⟨v, ⟨rfl, -⟩ | ⟨-, hmem⟩⟩
    · exact .inl rfl
    · exact .inr ⟨v, hmem⟩
  · rintro (rfl | ⟨v, hmem⟩)
    · exact ⟨count, .inl ⟨rfl, rfl⟩⟩
    · by_cases hrow : r = row
      · exact ⟨count, .inl ⟨hrow, rfl⟩⟩
      · exact ⟨v, .inr ⟨hrow, hmem⟩⟩

theorem keysNodup_assign (hm : KeysNodup m) : KeysNodup (p.assign row count m) := by
  unfold KeysNodup assign at *
  split_ifs with hany
  · rw [List.map_map]
    have hkeys : (Prod.fst ∘ fun x : Int × Int => if x.1 = row then (row, count) else x) =
        (Prod.fst : Int × Int → Int) := by
      funext x
      show (if x.1 = row then (row, count) else x).1 = x.1
      split_ifs with hx
      · exact hx.symm
      · rfl
    rw [hkeys]
    exact hm
  · have hnew : ∀ x ∈ m, x.1 ≠ row := fun x hx hrow =>
      hany (List.any_eq_true.mpr ⟨x, hx, beq_iff_eq.mpr hrow⟩)
    rw [((p.order_perm _).map Prod.fst).nodup_iff, List.map_append, List.nodup_append]
    refine ⟨hm, by simp, fun a ha b hb => ?_⟩
    obtain ⟨x, hx, rfl⟩ := List.mem_map.mp ha
    rw [List.map_singleton, List.mem_singleton] at hb
    exact hb ▸ hnew x hx

theorem lookup_assign (hm : KeysNodup m) :
    (p.assign row count m).lookup r = if r = row then some count else m.lookup r := by
  split_ifs with hr
  · exact (keysNodup_assign hm).lookup_of_mem (mem_assign.mpr (.inl ⟨hr, rfl⟩))
  · cases hold : m.lookup r with
    | none =>
        rw [List.lookup_eq_none_iff]
        rintro ⟨r', v⟩ hmem
        rcases mem_assign.mp hmem with ⟨rfl, -⟩ | ⟨-, hmem⟩
        · simpa using hr
        · exact List.lookup_eq_none_iff.mp hold _ hmem
    | some v => exact (keysNodup_assign hm).lookup_of_mem (mem_assign.mpr (.inr ⟨hr, mem_of_lookup hold⟩))

end PRACConfig

/-- The activations of a row that are counted. -/
def PRACState.counter (own : PRACState) (bank row : Int) : Int :=
  ((own.bankCounters bank).lookup row).getD 0

/-- The rows of a bank that are marked critical. -/
def PRACState.critical (own : PRACState) (bank : Int) : List Int :=
  (own.criticalRows bank).map Prod.fst

/-- The shadow is exact, and it is known when it is not empty. -/
structure CounterInv (cfg : Config) (p : PRACConfig) (own : PRACState) : Prop where
  nodup : ∀ bank, KeysNodup (own.bankCounters bank)
  critical : ∀ bank row, row ∈ own.critical bank ↔ p.aboThreshold ≤ own.counter bank row
  needed : ∀ bank : Nat, bank < cfg.spec.bankCount → own.criticalRows bank ≠ [] →
    own.aboNeeded = true

/-- One counter changes, and the mark of its row with it. -/
theorem CounterInv.assign {own own' : PRACState} (h : CounterInv cfg p own) {bank row count : Int}
    (hcounters : own'.bankCounters =
      Function.update own.bankCounters bank (p.assign row count (own.bankCounters bank)))
    (hother : ∀ bank', bank' ≠ bank → own'.criticalRows bank' = own.criticalRows bank')
    (hcritical : ∀ r, r ∈ own'.critical bank ↔
      if r = row then p.aboThreshold ≤ count else r ∈ own.critical bank)
    (hneeded : own'.aboNeeded = true ∨
      (own'.aboNeeded = own.aboNeeded ∧ (own'.criticalRows bank ≠ [] → own.criticalRows bank ≠ []))) :
    CounterInv cfg p own' := by
  refine ⟨fun bank' => ?_, fun bank' r => ?_, fun bank' hlt hne => ?_⟩
  · rw [hcounters, Function.update_apply]
    split_ifs
    · exact PRACConfig.keysNodup_assign (h.nodup bank)
    · exact h.nodup bank'
  · by_cases hbank : bank' = bank
    · subst hbank
      have hcount : own'.counter bank' r = if r = row then count else own.counter bank' r := by
        unfold PRACState.counter
        rw [hcounters, Function.update_self, PRACConfig.lookup_assign (h.nodup bank')]
        split_ifs <;> rfl
      rw [hcritical, hcount]
      split_ifs
      · rfl
      · exact h.critical bank' r
    · have hcount : own'.counter bank' r = own.counter bank' r := by
        unfold PRACState.counter
        rw [hcounters, Function.update_of_ne hbank]
      have hrows : own'.critical bank' = own.critical bank' := by
        unfold PRACState.critical
        rw [hother bank' hbank]
      rw [hcount, hrows]
      exact h.critical bank' r
  · rcases hneeded with htrue | ⟨hsame, hempty⟩
    · exact htrue
    · rw [hsame]
      by_cases hbank : (bank' : Int) = bank
      · exact h.needed bank' hlt (hbank ▸ hempty (hbank ▸ hne))
      · exact h.needed bank' hlt (hother bank' hbank ▸ hne)

theorem CounterInv.onRequestForBank (hthreshold : 1 ≤ p.aboThreshold) {own : PRACState}
    (h : CounterInv cfg p own) (e : Entry K) (bank : Int) :
    CounterInv cfg p (p.onRequestForBank cfg e own bank) := by
  unfold PRACConfig.onRequestForBank
  split_ifs with hact hrfm
  · dsimp only
    split_ifs with hreached
    · refine h.assign rfl (fun bank' hbank => Function.update_of_ne hbank _ _) (fun r => ?_) (.inl rfl)
      unfold PRACState.critical
      dsimp only
      rw [Function.update_self, PRACConfig.mem_keys_assign]
      split_ifs with hr
      · exact iff_of_true (.inl hr) hreached
      · exact or_iff_right hr
    · refine h.assign rfl (fun _ _ => rfl) (fun r => ?_) (.inr ⟨rfl, id⟩)
      split_ifs with hr
      · -- the counter was below the threshold before, too
        refine iff_of_false (fun hmem => hreached ?_) hreached
        have hcount : p.aboThreshold ≤ own.counter bank r := (h.critical bank r).mp hmem
        rw [hr] at hcount
        show p.aboThreshold ≤ own.counter bank _ + 1
        omega
      · rfl
  · cases hmax : PRACConfig.maxCount (own.bankCounters bank) with
    | none => exact h
    | some x =>
        dsimp only
        have hkeys : ∀ r, r ∈ ((own.criticalRows bank).filter (·.1 != x.1)).map Prod.fst ↔
            r ≠ x.1 ∧ r ∈ own.critical bank := by
          intro r
          simp [PRACState.critical, and_comm]
        refine h.assign rfl (fun bank' hbank => Function.update_of_ne hbank _ _) (fun r => ?_)
          (.inr ⟨rfl, fun hne => ?_⟩)
        · unfold PRACState.critical
          dsimp only
          rw [Function.update_self, hkeys]
          split_ifs with hr
          · exact iff_of_false (fun hmem => hmem.1 hr) (by omega)
          · exact and_iff_right hr
        · dsimp only at hne
          rw [Function.update_self] at hne
          intro hempty
          rw [hempty] at hne
          exact hne rfl
  · exact h

theorem CounterInv.updateCounters (hthreshold : 1 ≤ p.aboThreshold) {own : PRACState}
    (h : CounterInv cfg p own) (e : Entry K) : CounterInv cfg p (p.updateCounters cfg e own) := by
  have hfold : ∀ (banks : List Int) (own : PRACState), CounterInv cfg p own →
      CounterInv cfg p (banks.foldl (p.onRequestForBank cfg e) own) := by
    intro banks
    induction banks with
    | nil => exact fun own h => h
    | cons bank banks ih => exact fun own h => ih _ (h.onRequestForBank hthreshold e bank)
  exact hfold _ own h

/-- Steps that leave the counters, the marks and the flag alone. -/
theorem CounterInv.frame {own own' : PRACState} (h : CounterInv cfg p own)
    (hcounters : own'.bankCounters = own.bankCounters) (hrows : own'.criticalRows = own.criticalRows)
    (hneeded : ∀ bank : Nat, bank < cfg.spec.bankCount → own.criticalRows bank ≠ [] →
      own.aboNeeded = true → own'.aboNeeded = true) : CounterInv cfg p own' := by
  refine ⟨hcounters ▸ h.nodup, ?_, fun bank hlt hne => ?_⟩
  · unfold PRACState.critical PRACState.counter
    rw [hcounters, hrows]
    exact h.critical
  · rw [hrows] at hne
    exact hneeded bank hlt hne (h.needed bank hlt hne)

theorem CounterInv.updateStateMachine {own : PRACState} (h : CounterInv cfg p own) (clk : Int)
    (issued : Option Command) : CounterInv cfg p (p.updateStateMachine cfg clk issued own) := by
  unfold PRACConfig.updateStateMachine
  split
  · split_ifs
    · exact h.frame rfl rfl fun _ _ _ hneeded => hneeded
    · exact h
  · split_ifs
    · exact h.frame rfl rfl fun _ _ _ hneeded => hneeded
    · exact h
  · dsimp only
    split_ifs
    · exact h.frame rfl rfl fun _ _ _ hneeded => hneeded
    · exact h.frame rfl rfl fun _ _ _ hneeded => hneeded
    · exact h
  · dsimp only
    split_ifs
    · refine h.frame rfl rfl fun bank hlt hne _ => ?_
      refine List.any_eq_true.mpr ⟨bank, List.mem_range.mpr hlt, ?_⟩
      simpa using hne
    · exact h.frame rfl rfl fun _ _ _ hneeded => hneeded
    · exact h

/-! ## The choice among requests of one age -/

/-- Among requests of one age the scan takes the first eligible one whose timing is met. -/
theorem scan_le {eligible timingOk : Entry K → Bool} {buf : List (Entry K)}
    (hage : ∀ x ∈ buf, ∀ y ∈ buf, x.arrive = y.arrive) {c : Incumbent K}
    (h : scan eligible timingOk buf = some c) {j : Nat} {x : Entry K} (hj : buf[j]? = some x)
    (heligible : eligible x = true) (hready : timingOk x = true) : c.index ≤ j := by
  -- an incumbent whose timing is met stays, so the first such request decides
  have hfold : ∀ (l : List (Entry K)) (n : Nat) (inc : Option (Incumbent K)), (∀ x ∈ l, x ∈ buf) →
      (∀ c₀, inc = some c₀ → c₀.entry ∈ buf ∧ c₀.index ≤ n) →
      ∀ c, (l.zipIdx n).foldl (challenge eligible timingOk) inc = some c →
        (∀ c₀, inc = some c₀ → c₀.timingOk = true → c = c₀) ∧
          ∀ j x, l[j]? = some x → eligible x = true → timingOk x = true → c.index ≤ n + j := by
    intro l
    induction l with
    | nil =>
        intro n inc _ _ c hc
        refine ⟨fun c₀ hc₀ _ => ?_, fun j x hj => by simp at hj⟩
        exact Option.some.inj (hc.symm.trans hc₀)
    | cons e l ih =>
        intro n inc hl hinc c hc
        rw [List.zipIdx_cons, List.foldl_cons] at hc
        have he : e ∈ buf := hl e List.mem_cons_self
        have hnew : ∀ c₀, challenge eligible timingOk inc (e, n) = some c₀ →
            c₀.entry ∈ buf ∧ c₀.index ≤ n := by
          intro c₀ hc₀
          unfold challenge at hc₀
          dsimp only at hc₀
          split at hc₀
          · exact hinc c₀ hc₀
          · split at hc₀
            · cases hc₀
              exact ⟨he, le_rfl⟩
            · split_ifs at hc₀
              all_goals cases hc₀
              · exact ⟨he, le_rfl⟩
              · exact hinc _ rfl
              · exact ⟨he, le_rfl⟩
              · exact hinc _ rfl
        have hkept : ∀ c₀, inc = some c₀ → c₀.timingOk = true →
            challenge eligible timingOk inc (e, n) = some c₀ := by
          rintro c₀ rfl hok
          have hsame : ¬ e.arrive < c₀.entry.arrive := by
            rw [hage e he c₀.entry (hinc c₀ rfl).1]
            exact lt_irrefl _
          unfold challenge
          dsimp only
          rw [hok]
          split_ifs with h₁ h₂ h₃ <;> first | rfl | simp_all
        obtain ⟨hstay, hrest⟩ := ih (n + 1) _ (fun x hx => hl x (List.mem_cons_of_mem _ hx))
          (fun c₀ hc₀ => ⟨(hnew c₀ hc₀).1, (hnew c₀ hc₀).2.trans (Nat.le_succ n)⟩) c hc
        refine ⟨fun c₀ hc₀ hok => hstay c₀ (hkept c₀ hc₀ hok) hok, fun j x hj hel hok => ?_⟩
        cases j with
        | zero =>
            rw [List.getElem?_cons_zero, Option.some.injEq] at hj
            subst hj
            obtain ⟨c₀, hc₀, hok₀⟩ : ∃ c₀, challenge eligible timingOk inc (e, n) = some c₀ ∧
                c₀.timingOk = true := by
              cases inc with
              | none => exact ⟨⟨n, e, timingOk e⟩, by simp [challenge, hel], hok⟩
              | some c₁ =>
                  cases hc₁ : c₁.timingOk with
                  | true => exact ⟨c₁, hkept c₁ rfl hc₁, hc₁⟩
                  | false => exact ⟨⟨n, e, true⟩, by simp [challenge, hel, hok, hc₁], rfl⟩
            rw [hstay c₀ hc₀ hok₀, Nat.add_zero]
            exact (hnew c₀ hc₀).2
        | succ j =>
            rw [List.getElem?_cons_succ] at hj
            have := hrest j x hj hel hok
            omega
  have hle := (hfold buf 0 none (fun x hx => hx) (by simp) c h).2 j x hj heligible hready
  omega

/-- The same for the request picked from a buffer whose requests no row hit can hold back. -/
theorem pickBestReadyFrom_le {s s' : ControllerBase K} {b : Buf} {filter : Entry K → Bool} {i : Nat}
    (hpick : s.pickBestReadyFrom cfg b filter = (s', some i))
    (hage : ∀ x ∈ s.bufs b, ∀ y ∈ s.bufs b, x.arrive = y.arrive) {j : Nat} {x : Entry K}
    (hj : (s'.bufs b)[j]? = some x) (hfilter : filter x = true) (hfinal : x.cmd = x.final)
    (hready : s.device.checkTiming x.cmd x.addrVec s.clk = true) : i ≤ j := by
  have hpreempt : ∀ arrivals, wouldPreemptRowhit cfg.spec arrivals x = false := by
    intro arrivals
    unfold wouldPreemptRowhit
    split_ifs <;> rfl
  have hage' : ∀ x ∈ (s.bufs b).map (resolve cfg.spec s.device),
      ∀ y ∈ (s.bufs b).map (resolve cfg.spec s.device), x.arrive = y.arrive := by
    intro x hx y hy
    obtain ⟨x₀, hx₀, rfl⟩ := List.mem_map.mp hx
    obtain ⟨y₀, hy₀, rfl⟩ := List.mem_map.mp hy
    exact hage x₀ hx₀ y₀ hy₀
  obtain ⟨hbuf, -⟩ := getBestRequest_spec cfg s.device s.clk filter (s.bufs b)
  unfold pickBestReadyFrom at hpick
  rcases hbest : getBestRequest cfg s.device s.clk filter (s.bufs b) with ⟨buf, - | c⟩
  all_goals
    rw [hbest] at hpick hbuf
    dsimp only at hpick hbuf
  · cases hpick
  · split_ifs at hpick
    · obtain ⟨rfl, hi⟩ := Prod.mk.inj hpick
      cases hi
      rw [bufs_setBuf, if_pos rfl, hbuf] at hj
      unfold getBestRequest at hbest
      dsimp only at hbest
      split at hbest
      · exact scan_le hage' (Prod.mk.inj hbest).2 hj hfilter hready
      · exact scan_le hage' (Prod.mk.inj hbest).2 hj (by simp [hfilter, hpreempt]) hready
    · cases (Prod.mk.inj hpick).2

/-! ## The queue of a recovery -/

/-- What the recovery's requests are told apart by: terminal command, address and age. -/
def recoveryKey (e : Entry K) : Command × AddrVec × Int := (e.final, e.addrVec, e.arrive)

/-- The queue of a recovery with `n` refresh-management commands to go: precharges first, all of one
age, and no precharge left without a refresh-management command of its rank. -/
structure RecoveryQueue (p : PRACConfig) (n : Int) (l : List (Command × AddrVec × Int)) : Prop where
  finals : ∀ x ∈ l, x.1 ∈ recoveryCommands
  ages : ∀ x ∈ l, x.2.2 = -1
  sorted : l.Pairwise fun x y => x.1 = .RFMab → y.1 = .RFMab
  count : (l.countP (·.1 = .RFMab) : Int) = n
  covered : 0 < p.aboRecoveryRefs → ∀ x ∈ l, ∃ y ∈ l, y.1 = .RFMab ∧ y.2.1 = x.2.1
  idle : p.aboRecoveryRefs ≤ 0 → n ≤ 0

namespace RecoveryQueue

variable {n : Int} {l : List (Command × AddrVec × Int)} {i : Nat} {x : Command × AddrVec × Int}

theorem erase_precharge (h : RecoveryQueue p n l) (hi : l[i]? = some x) (hx : x.1 = .PREab) :
    RecoveryQueue p n (l.eraseIdx i) := by
  have hsub := List.eraseIdx_sublist l i
  refine ⟨fun y hy => h.finals y (hsub.subset hy), fun y hy => h.ages y (hsub.subset hy),
    h.sorted.sublist hsub, ?_, fun hrefs y hy => ?_, h.idle⟩
  · have hcount := countP_eraseIdx (fun y : Command × AddrVec × Int => y.1 = .RFMab) hi
    rw [← h.count, ← hcount, hx]
    simp
  · obtain ⟨z, hz, hrfm, haddr⟩ := h.covered hrefs y (hsub.subset hy)
    obtain ⟨k, hk⟩ := List.mem_iff_getElem?.mp hz
    refine ⟨z, List.mem_eraseIdx_iff_getElem?.mpr ⟨k, ?_, hk⟩, hrfm, haddr⟩
    rintro rfl
    rw [Option.some.inj (hk.symm.trans hi), hx] at hrfm
    cases hrfm

theorem erase_management (h : RecoveryQueue p n l) (hi : l[i]? = some x) (hx : x.1 = .RFMab)
    (hfirst : ∀ y ∈ l, y.1 = .PREab → y.2.1 ≠ x.2.1) : RecoveryQueue p (n - 1) (l.eraseIdx i) := by
  have hsub := List.eraseIdx_sublist l i
  refine ⟨fun y hy => h.finals y (hsub.subset hy), fun y hy => h.ages y (hsub.subset hy),
    h.sorted.sublist hsub, ?_, fun hrefs y hy => ?_,
    fun hrefs => (Int.sub_le_self n (by decide)).trans (h.idle hrefs)⟩
  · have hcount := countP_eraseIdx (fun y : Command × AddrVec × Int => y.1 = .RFMab) hi
    rw [← h.count, ← hcount, hx]
    simp
  · have hmem := hsub.subset hy
    by_cases hrfm : y.1 = .RFMab
    · exact ⟨y, hy, hrfm, rfl⟩
    · have hpre : y.1 = .PREab := by
        have hfinal := h.finals y hmem
        simp only [recoveryCommands, List.mem_cons, List.not_mem_nil, or_false] at hfinal
        exact hfinal.resolve_right hrfm
      obtain ⟨z, hz, hzrfm, haddr⟩ := h.covered hrefs y hmem
      obtain ⟨k, hk⟩ := List.mem_iff_getElem?.mp hz
      refine ⟨z, List.mem_eraseIdx_iff_getElem?.mpr ⟨k, ?_, hk⟩, hzrfm, haddr⟩
      rintro rfl
      rw [Option.some.inj (hk.symm.trans hi)] at haddr
      exact hfirst y hmem hpre haddr.symm

/-- The last refresh-management command empties the queue. -/
theorem eq_nil (h : RecoveryQueue p n l) (hrefs : 0 < p.aboRecoveryRefs) (hn : n ≤ 0) : l = [] := by
  have hzero : l.countP (·.1 = .RFMab) = 0 := by
    have := h.count
    omega
  refine List.eq_nil_iff_forall_not_mem.mpr fun x hx => ?_
  obtain ⟨y, hy, hrfm, -⟩ := h.covered hrefs x hx
  exact List.countP_eq_zero.mp hzero y hy (decide_eq_true hrfm)

end RecoveryQueue

/-- A request as it is queued. -/
def requestKey (req : Request Command K) : Command × AddrVec × Int :=
  (req.finalCommand.getD default, req.addrVec, req.arrive)

theorem foldl_enqueuePrac (reqs : List (Request Command K)) (s : ControllerBase K)
    (hroom : (s.bufs .prac).length + reqs.length ≤ 2147483647) :
    ((reqs.foldl PRACConfig.enqueuePrac s).bufs .prac).map recoveryKey =
      (s.bufs .prac).map recoveryKey ++ reqs.map requestKey := by
  induction reqs generalizing s with
  | nil => simp
  | cons req reqs ih =>
      rw [List.length_cons] at hroom
      have hlt : (s.bufs .prac).length < 2147483647 := by omega
      have hbuf : (PRACConfig.enqueuePrac s req).bufs .prac =
          s.bufs .prac ++ [Entry.ofRequest s.nextUid req] := by
        unfold PRACConfig.enqueuePrac
        rw [if_pos hlt, bufs_setBuf, if_pos rfl]
      rw [List.foldl_cons, ih _ (by rw [hbuf, List.length_append, List.length_singleton]; omega), hbuf,
        List.map_append, List.map_cons, List.append_assoc]
      rfl

/-- The requests of one recovery form its queue. -/
theorem recoveryQueue_requests (cfg : Config) (hrefs : 0 ≤ p.aboRecoveryRefs) :
    RecoveryQueue p (p.aboRecoveryRefs * p.numRanks cfg)
      ((p.recoveryRequests cfg : List (Request Command K)).map requestKey) := by
  -- one precharge for each rank, then rounds of one management command for each
  have hmap : (p.recoveryRequests cfg : List (Request Command K)).map requestKey =
      (List.range (p.numRanks cfg)).map (fun r => (.PREab, p.recoveryAddr cfg r, -1)) ++
        (List.range p.aboRecoveryRefs.toNat).flatMap fun _ =>
          (List.range (p.numRanks cfg)).map fun r => (.RFMab, p.recoveryAddr cfg r, -1) := by
    unfold PRACConfig.recoveryRequests
    rw [List.map_append, List.map_map, List.map_flatMap]
    simp only [List.map_map]
    rfl
  rw [hmap]
  refine ⟨?_, ?_, ?_, ?_, ?_, fun hle => ?_⟩
  · intro x hx
    simp only [List.mem_append, List.mem_map, List.mem_flatMap] at hx
    rcases hx with ⟨r, -, rfl⟩ | ⟨_, -, r, -, rfl⟩
    · exact List.mem_cons_self
    · exact List.mem_cons_of_mem _ List.mem_cons_self
  · intro x hx
    simp only [List.mem_append, List.mem_map, List.mem_flatMap] at hx
    rcases hx with ⟨r, -, rfl⟩ | ⟨_, -, r, -, rfl⟩ <;> rfl
  · rw [List.pairwise_append]
    refine ⟨?_, ?_, ?_⟩
    · refine List.pairwise_map.mpr (List.pairwise_of_forall fun _ _ h => ?_)
      cases h
    · refine List.pairwise_of_forall_mem_list fun _ _ y hy _ => ?_
      simp only [List.mem_flatMap, List.mem_map] at hy
      obtain ⟨_, -, r, -, rfl⟩ := hy
      rfl
    · intro x hx y hy _
      simp only [List.mem_flatMap, List.mem_map] at hy
      obtain ⟨_, -, r, -, rfl⟩ := hy
      rfl
  · have hpre : ((List.range (p.numRanks cfg)).map fun r =>
        ((Command.PREab, p.recoveryAddr cfg r, -1) : Command × AddrVec × Int)).countP
          (·.1 = .RFMab) = 0 := by
      refine List.countP_eq_zero.mpr fun x hx => ?_
      obtain ⟨r, -, rfl⟩ := List.mem_map.mp hx
      simp
    have hrfm : ((List.range p.aboRecoveryRefs.toNat).flatMap fun _ =>
        (List.range (p.numRanks cfg)).map fun r =>
          ((Command.RFMab, p.recoveryAddr cfg r, -1) : Command × AddrVec × Int)).countP
            (·.1 = .RFMab) = p.aboRecoveryRefs.toNat * p.numRanks cfg := by
      rw [List.countP_flatMap]
      simp [Function.comp_def, List.countP_map]
    rw [List.countP_append, hpre, hrfm]
    push_cast
    rw [Int.toNat_of_nonneg hrefs, zero_add]
  · intro hpos x hx
    have hzero : 0 ∈ List.range p.aboRecoveryRefs.toNat := by
      rw [List.mem_range]
      omega
    have hrank : ∃ r ∈ List.range (p.numRanks cfg), p.recoveryAddr cfg r = x.2.1 := by
      simp only [List.mem_append, List.mem_map, List.mem_flatMap] at hx
      rcases hx with ⟨r, hr, rfl⟩ | ⟨_, -, r, hr, rfl⟩
      · exact ⟨r, hr, rfl⟩
      · exact ⟨r, hr, rfl⟩
    obtain ⟨r, hr, haddr⟩ := hrank
    refine ⟨(.RFMab, p.recoveryAddr cfg r, -1), List.mem_append_right _ ?_, rfl, haddr⟩
    exact List.mem_flatMap.mpr ⟨0, hzero, List.mem_map.mpr ⟨r, hr, rfl⟩⟩
  · rw [le_antisymm hle hrefs, Int.zero_mul]

/-! ## Refresh management and the active buffer -/

def isManagement (c : Command) : Bool := c = .RFMab || c = .RFMsb

theorem isManagement_of_isRFM {c : Command} (h : PRACConfig.isRFM cfg c = true) :
    isManagement c = true := by
  simp only [PRACConfig.isRFM, isManagement, Bool.or_eq_true, Bool.and_eq_true, decide_eq_true_eq] at h ⊢
  exact h.imp_right And.right

/-- Only a request for refresh management issues it, and on its way to it opens nothing. -/
theorem preq_management {c : Command} (split : Bool) (row : Int) (bank : BankState) :
    (isManagement (c.preq split row bank) = true → isManagement c = true) ∧
      (isManagement c = true → (c.preq split row bank).commandMeta.isOpening = false) := by
  cases c <;>
    simp only [Command.preq, Command.actPreq, Command.act1Preq, Command.act2Preq, Command.closedPreq] <;>
    constructor <;> (repeat' split) <;> decide

theorem getPreqCommand_management {spec : Standard} {d : DRAMDevice} {c : Command} {addr : AddrVec} :
    (isManagement (d.getPreqCommand spec c addr) = true → isManagement c = true) ∧
      (isManagement c = true → (d.getPreqCommand spec c addr).commandMeta.isOpening = false) := by
  rcases getPreqCommand_cases spec d c addr with ⟨heq, -⟩ | ⟨b, -, heq, -⟩
  · rw [heq]
    refine ⟨id, fun h => ?_⟩
    revert h
    cases c <;> decide
  · rw [heq]
    exact preq_management _ _ _

theorem apUpgrade_mem {spec : Standard} {c ap : Command} (h : apUpgrade spec c = some ap) :
    c ∈ [Command.RD, .RD_S, .WR, .WR_S] ∧ ap ∈ [Command.RDA, .RDA_S, .WRA, .WRA_S] := by
  have hfind : ∀ {names : List Command} {x}, findCommand spec names = some x → x ∈ names :=
    fun hx => List.mem_of_find?_eq_some hx
  unfold apUpgrade at h
  split at h
  · rename_i rda wra hrda hwra
    have hrda := hfind hrda
    have hwra := hfind hwra
    split_ifs at h with hrd hwr
    · have hrd := hfind hrd.symm
      cases h
      simp only [List.mem_cons, List.not_mem_nil, or_false] at *
      exact ⟨by tauto, by tauto⟩
    · have hwr := hfind hwr.symm
      cases h
      simp only [List.mem_cons, List.not_mem_nil, or_false] at *
      exact ⟨by tauto, by tauto⟩
  · cases h

/-- No active request is for refresh management. -/
def ActiveFree (s : ControllerBase K) : Prop := ∀ e ∈ s.active, isManagement e.final = false

section Serving

variable {s s' : ControllerBase K} {b : Buf} {i : Nat} {e : Entry K}

theorem ActiveFree.resolved (h : ActiveFree s) (hres : Resolved s s') : ActiveFree s' := by
  intro e he
  obtain ⟨e₀, he₀, hbare⟩ := exists_bare_eq (hres.bare .active) he
  rw [(of_bare_eq hbare).2.2.2.2.1]
  exact h e₀ he₀

/-- What is issued for a candidate is refresh management only if the candidate is for it. -/
theorem prepared_management (hcmd : e.cmd = s.device.getPreqCommand cfg.spec e.final e.addrVec)
    (hfree : isManagement e.final = false) :
    isManagement (s.prepared cfg e).cmd = false ∧ isManagement (s.prepared cfg e).final = false := by
  rcases prepared_cases cfg s e with ⟨hc, hf⟩ | ⟨ap, hap, hc, hf⟩
  · rw [hc, hf]
    refine ⟨Bool.eq_false_iff.mpr fun hm => ?_, hfree⟩
    rw [hcmd] at hm
    rw [getPreqCommand_management.1 hm] at hfree
    cases hfree
  · have hap' := (apUpgrade_mem hap).2
    rw [hc, hf]
    revert hap'
    cases ap <;> decide

/-- Serving a candidate keeps refresh management out of the active buffer, and the other buffers as they
are. -/
theorem serveCandidate_frame {onIssue : List (Request Command K)} (hfree : ActiveFree s)
    (hchosen : Chosen cfg s b i e) (hserve : s.serveCandidate cfg onIssue b i e = .ok s') :
    ActiveFree s' ∧ (b ≠ .prac → s'.bufs .prac = s.bufs .prac) := by
  obtain ⟨stats, policy, t, -, hsend, rfl⟩ := serveCandidate_eq_ok hchosen.getElem hserve
  have hkeep := onlyEnqueued_prioritySendAll hsend
  have hactive : ∀ a ∈ t.active, isManagement a.final = false := by
    intro a ha
    unfold ControllerBase.active at ha
    rw [hkeep.bufs (by decide), bufs_issued] at ha
    split_ifs at ha with hb
    · rcases List.mem_or_eq_of_mem_set ha with hmem | rfl
      · exact hfree a (by unfold ControllerBase.active; rw [hb]; exact hmem)
      · subst hb
        exact (prepared_management hchosen.cmd (hfree e (List.mem_of_getElem? hchosen.getElem))).2
    · exact hfree a ha
  refine ⟨fun a ha => ?_, fun hb => ?_⟩
  · rcases mem_bufs_advance ha with hmem | ⟨-, rfl, hne, hopening⟩
    · exact hactive a hmem
    · -- a request that has just opened its row is not for refresh management
      rcases prepared_cases cfg s e with ⟨hc, hf⟩ | ⟨ap, -, hc, hf⟩
      · rw [hf]
        refine Bool.eq_false_iff.mpr fun hm => ?_
        rw [hc, hchosen.cmd, getPreqCommand_management.2 hm] at hopening
        cases hopening
      · exact absurd (hc.trans hf.symm) hne
  · have hbufs : t.bufs .prac = s.bufs .prac := by
      rw [hkeep.bufs (by decide), bufs_issued, if_neg hb.symm]
    rw [← hbufs]
    unfold advance
    split_ifs
    · unfold retireRequest
      rw [bufs_removeAt, if_neg hb.symm, (finish_frame cfg _ _).2.1]
      rfl
    · unfold promoteToActive
      split_ifs
      · rw [bufs_removeAt, if_neg hb.symm, bufs_enterActive, if_neg (by decide)]
      · rfl
    · rfl

/-- Picking from a buffer resolves the next command of all its requests. -/
theorem pickBestReadyFrom_cmd {filter : Entry K → Bool}
    (hpick : s.pickBestReadyFrom cfg b filter = (s', some i)) {x : Entry K} (hx : x ∈ s'.bufs b) :
    x.cmd = s.device.getPreqCommand cfg.spec x.final x.addrVec := by
  obtain ⟨hbuf, -⟩ := getBestRequest_spec cfg s.device s.clk filter (s.bufs b)
  unfold pickBestReadyFrom at hpick
  rcases hbest : getBestRequest cfg s.device s.clk filter (s.bufs b) with ⟨buf, - | c⟩
  all_goals
    rw [hbest] at hpick hbuf
    dsimp only at hpick hbuf
  · cases hpick
  · split_ifs at hpick
    · obtain ⟨rfl, -⟩ := Prod.mk.inj hpick
      rw [bufs_setBuf, if_pos rfl, hbuf] at hx
      obtain ⟨x₀, -, rfl⟩ := List.mem_map.mp hx
      rfl
    · cases (Prod.mk.inj hpick).2

/-- Where a refresh-management command could go out at once, so could the precharge that is queued for
its rank. -/
def PrechargeReady (cfg : Config) (s : ControllerBase K) : Prop :=
  ∀ e ∈ s.bufs .prac, e.final = .PREab →
    s.device.getPreqCommand cfg.spec .RFMab e.addrVec = .RFMab →
    s.device.checkTiming .RFMab e.addrVec s.clk = true →
    s.device.checkTiming .PREab e.addrVec s.clk = true

/-- What a tick can do to the queue `l` of a recovery, and what it has issued. -/
inductive Served (cfg : Config) (own : PRACState) (l l' : List (Command × AddrVec × Int))
    (issued : Option Command) : Prop where
  | other (hkeys : l' = l) (hempty : issued.any (PRACConfig.isRFM cfg) = true → l = [])
  | precharged (i : Nat) (x : Command × AddrVec × Int) (hx : l[i]? = some x) (hpre : x.1 = .PREab)
      (hkeys : l' = l.eraseIdx i) (hissued : issued = some .PREab)
  | managed (i : Nat) (x : Command × AddrVec × Int) (hx : l[i]? = some x) (hrfm : x.1 = .RFMab)
      (hkeys : l' = l.eraseIdx i) (hissued : issued = some .RFMab)
      (hstate : own.aboState ≠ .preRecovery) (hfirst : ∀ y ∈ l, y.1 = .PREab → y.2.1 ≠ x.2.1)

theorem map_recoveryKey_resolved (hres : Resolved s s') :
    (s'.bufs b).map recoveryKey = (s.bufs b).map recoveryKey := by
  have hbare : (recoveryKey ∘ bare : Entry K → _) = recoveryKey := rfl
  have hmap := congrArg (List.map recoveryKey) (hres.bare b)
  rwa [List.map_map, List.map_map, hbare] at hmap

/-- A refresh-management command is not picked while a precharge of its rank is queued. -/
theorem precharge_first {n : Int} {own : PRACState} {t : ControllerBase K}
    (hqueue : RecoveryQueue p n ((s.bufs .prac).map recoveryKey)) (hready : PrechargeReady cfg s)
    (hres : Resolved s t)
    (hpick : t.pickBestReadyFrom cfg .prac (PRACConfig.pracBufferFilter own) = (s', some i))
    (hchosen : Chosen cfg s' .prac i e) (hcmd : e.cmd = .RFMab) (hfinal : e.final = .RFMab) :
    ∀ y ∈ (s.bufs .prac).map recoveryKey, y.1 = .PREab → y.2.1 ≠ e.addrVec := by
  intro y hy hpre haddr
  have hres' : Resolved t s' := by
    have hspec := (pickBestReadyFrom_spec cfg t .prac (PRACConfig.pracBufferFilter own)).1
    rwa [hpick] at hspec
  have hkeys : (s'.bufs .prac).map recoveryKey = (s.bufs .prac).map recoveryKey :=
    (map_recoveryKey_resolved hres').trans (map_recoveryKey_resolved hres)
  have hdevice : s'.device = s.device := by rw [hres'.rest, hres.rest]
  have hclk : s'.clk = s.clk := by rw [hres'.rest, hres.rest]
  -- the precharge can go out
  have hok : s.device.checkTiming .PREab e.addrVec s.clk = true := by
    obtain ⟨x, hx, rfl⟩ := List.mem_map.mp hy
    have hx' := hready x hx hpre
    rw [show x.addrVec = e.addrVec from haddr] at hx'
    refine hx' ?_ ?_
    · have := hchosen.cmd
      rwa [hcmd, hfinal, hdevice, eq_comm] at this
    · have := hchosen.timing
      rwa [hcmd, hdevice, hclk] at this
  -- so it is not behind the request that was picked
  obtain ⟨j, hj⟩ := List.mem_iff_getElem?.mp (hkeys ▸ hy)
  rw [List.getElem?_map, Option.map_eq_some_iff] at hj
  obtain ⟨x, hj, rfl⟩ := hj
  have hxfinal : x.final = .PREab := hpre
  have hxaddr : x.addrVec = e.addrVec := haddr
  have htdev : t.device = s.device := by rw [hres.rest]
  have htclk : t.clk = s.clk := by rw [hres.rest]
  have hxcmd : x.cmd = .PREab := by
    rw [pickBestReadyFrom_cmd hpick (List.mem_of_getElem? hj), hxfinal]
    rcases getPreqCommand_cases cfg.spec t.device .PREab x.addrVec with ⟨heq, -⟩ | ⟨b, -, -, hne⟩
    · exact heq
    · exact absurd rfl hne
  have hage : ∀ x ∈ t.bufs .prac, ∀ y ∈ t.bufs .prac, x.arrive = y.arrive := by
    have hminus : ∀ x ∈ t.bufs .prac, x.arrive = -1 := by
      intro x hx
      have hmem := List.mem_map_of_mem (f := recoveryKey) hx
      rw [map_recoveryKey_resolved hres] at hmem
      exact hqueue.ages _ hmem
    intro x hx y hy
    rw [hminus x hx, hminus y hy]
  have hle : i ≤ j := by
    refine pickBestReadyFrom_le hpick hage hj ?_ (hxcmd.trans hxfinal.symm) ?_
    · simp [PRACConfig.pracBufferFilter, hxcmd]
    · rw [hxcmd, hxaddr, htdev, htclk]
      exact hok
  -- but all precharges stand before the refresh-management commands
  have hi : ((s.bufs .prac).map recoveryKey)[i]? = some (recoveryKey e) := by
    rw [← hkeys, List.getElem?_map, hchosen.getElem]
    rfl
  have hj' : ((s.bufs .prac).map recoveryKey)[j]? = some (recoveryKey x) := by
    rw [← hkeys, List.getElem?_map, hj]
    rfl
  rcases hle.eq_or_lt with rfl | hlt
  · have heq := congrArg Prod.fst (Option.some.inj (hi.symm.trans hj'))
    rw [show (recoveryKey e).1 = .RFMab from hfinal, hpre] at heq
    cases heq
  · obtain ⟨hilt, hieq⟩ := List.getElem?_eq_some_iff.mp hi
    obtain ⟨hjlt, hjeq⟩ := List.getElem?_eq_some_iff.mp hj'
    have hsorted := List.pairwise_iff_getElem.mp hqueue.sorted i j hilt hjlt hlt
    rw [hieq, hjeq] at hsorted
    have hrfm := hsorted hfinal
    rw [hpre] at hrfm
    cases hrfm

/-- A recovery request issues its command, or first the precharge. -/
theorem getPreqCommand_of_recovery {spec : Standard} {d : DRAMDevice} {c : Command} {addr : AddrVec}
    (hc : c ∈ recoveryCommands) : d.getPreqCommand spec c addr = c ∨
      (c = .RFMab ∧ d.getPreqCommand spec c addr = .PREab) := by
  simp only [recoveryCommands, List.mem_cons, List.not_mem_nil, or_false] at hc
  rcases getPreqCommand_cases spec d c addr with ⟨heq, -⟩ | ⟨b, -, heq, hne⟩
  · exact .inl heq
  · rcases hc with rfl | rfl
    · exact absurd rfl hne
    · refine .inr ⟨rfl, heq.trans ?_⟩
      simp only [Command.preq, Command.closedPreq] at hne ⊢
      split_ifs at hne ⊢
      · exact absurd rfl hne
      · rfl

/-- What serving a recovery request does to the queue. -/
theorem serveCandidate_prac {onIssue : List (Request Command K)} (hchosen : Chosen cfg s .prac i e)
    (hserve : s.serveCandidate cfg onIssue .prac i e = .ok s') (hfinal : e.final ∈ recoveryCommands) :
    (s.prepared cfg e).cmd = e.cmd ∧
      (s'.bufs .prac).map recoveryKey =
        if e.cmd = e.final then ((s.bufs .prac).map recoveryKey).eraseIdx i
        else (s.bufs .prac).map recoveryKey := by
  obtain ⟨stats, policy, t, -, hsend, rfl⟩ := serveCandidate_eq_ok hchosen.getElem hserve
  have hkeep := onlyEnqueued_prioritySendAll hsend
  have hcmd : e.cmd ∈ recoveryCommands := by
    rw [hchosen.cmd]
    rcases getPreqCommand_of_recovery hfinal with heq | ⟨-, heq⟩
    · rw [heq]
      exact hfinal
    · rw [heq]
      decide
  have hplain : e.cmd.commandMeta.isOpening = false ∧ e.cmd ∉ [Command.RD, .RD_S, .WR, .WR_S] := by
    revert hcmd
    cases e.cmd <;> decide
  have hsame : (s.prepared cfg e).cmd = e.cmd ∧ (s.prepared cfg e).final = e.final := by
    rcases prepared_cases cfg s e with h | ⟨ap, hap, -, -⟩
    · exact h
    · exact absurd (apUpgrade_mem hap).1 hplain.2
  refine ⟨hsame.1, ?_⟩
  have hkey : recoveryKey (s.prepared cfg e) = recoveryKey e := by
    unfold recoveryKey
    rw [hsame.2, prepared_addrVec]
    rcases tryUpgradeCommand_cases cfg s e with h | ⟨ap, -, -, h⟩ <;> simp [prepared, h]
  have hkeys : (t.bufs .prac).map recoveryKey = (s.bufs .prac).map recoveryKey := by
    rw [hkeep.bufs (by decide), bufs_issued, if_pos rfl]
    exact map_set_of_eq recoveryKey hchosen.getElem hkey
  unfold advance
  rw [hsame.1, hsame.2, hplain.1]
  split_ifs with heq hfalse
  · unfold retireRequest
    rw [bufs_removeAt, if_pos rfl, (finish_frame cfg _ _).2.1]
    show ((t.bufs .prac).eraseIdx i).map recoveryKey = _
    rw [← hkeys, List.eraseIdx_map]
  · contradiction
  · exact hkeys

/-- The serving of a tick keeps refresh management out of the active buffer and does to the queue what
`Served` says. -/
theorem pracServe_served {own : PRACState} {onIssue : List (Request Command K)}
    {d : Derived K PRACState} {issued : Option Command} (hfree : ActiveFree s)
    (hready : own.aboState ≠ .preRecovery → PrechargeReady cfg s)
    (hqueue : (s.bufs .prac).map recoveryKey = [] ∨
      ∃ n, RecoveryQueue p n ((s.bufs .prac).map recoveryKey))
    (hserve : p.serve cfg onIssue own (p.schedule cfg own s) = .ok (d, issued)) :
    ActiveFree d.base ∧
      (d.own = own ∨ ∃ e : Entry K, d.own = p.updateCounters cfg e own) ∧
      Served cfg own ((s.bufs .prac).map recoveryKey) ((d.base.bufs .prac).map recoveryKey) issued := by
  have hres := pracSchedule_resolved cfg p own s
  rcases hfound : p.schedule cfg own s with ⟨t, - | ⟨b, i⟩⟩
  all_goals
    rw [hfound] at hres hserve
    have hkeys := map_recoveryKey_resolved (b := .prac) hres
  · cases hserve
    exact ⟨hfree.resolved hres, .inl rfl, .other hkeys (by simp)⟩
  · obtain ⟨e, hchosen, hfrom⟩ := pracSchedule_found hfound
    unfold PRACConfig.serve at hserve
    simp only [hchosen.getElem] at hserve
    obtain ⟨u, hu, heq⟩ := except_map_eq_ok.mp hserve
    cases heq
    obtain ⟨hfree', hother⟩ := serveCandidate_frame (hfree.resolved hres) hchosen hu
    refine ⟨hfree', .inr ⟨_, rfl⟩, ?_⟩
    rcases hfrom with ⟨rfl, -⟩ | ⟨rfl, hfilter, v, hres', hpick⟩ | ⟨hb, hempty, -⟩
    · -- an active request
      refine .other ?_ fun hrfm => ?_
      · dsimp only
        rw [hother (by decide), hkeys]
      · have hmem : isManagement e.final = false :=
          hfree.resolved hres e (List.mem_of_getElem? hchosen.getElem)
        have hyes : isManagement (t.prepared cfg e).cmd = true := isManagement_of_isRFM hrfm
        rw [(prepared_management hchosen.cmd hmem).1] at hyes
        cases hyes
    · -- a request of the recovery
      have hplace : ((s.bufs .prac).map recoveryKey)[i]? = some (recoveryKey e) := by
        rw [← hkeys, List.getElem?_map, hchosen.getElem]
        rfl
      obtain ⟨n, hqueue⟩ := hqueue.resolve_left fun hnil => by
        rw [hnil] at hplace
        simp at hplace
      have hfinal : e.final ∈ recoveryCommands := hqueue.finals _ (List.mem_of_getElem? hplace)
      obtain ⟨hcmd, hafter⟩ := serveCandidate_prac hchosen hu hfinal
      have hissued : ((t.prepare cfg .prac i e).1).cmd = e.cmd := hcmd
      dsimp only
      rw [hissued]
      rw [hkeys] at hafter
      have hpreq : e.cmd = e.final ∨ (e.final = .RFMab ∧ e.cmd = .PREab) := by
        rw [hchosen.cmd]
        exact getPreqCommand_of_recovery hfinal
      rcases hpreq with heq | ⟨hf, heq⟩
      · rw [if_pos heq] at hafter
        simp only [recoveryCommands, List.mem_cons, List.not_mem_nil, or_false] at hfinal
        rcases hfinal with hf | hf
        · rw [heq, hf]
          exact .precharged i _ hplace hf hafter rfl
        · have hrfm := heq.trans hf
          rw [hrfm]
          have hstate : own.aboState ≠ .preRecovery := fun hstate => by
            simp [PRACConfig.pracBufferFilter, hrfm, hstate] at hfilter
          exact .managed i _ hplace hf hafter rfl hstate
            (precharge_first hqueue (hready hstate) hres' hpick hchosen hrfm hf)
      · rw [heq, hf, if_neg (by decide)] at hafter
        rw [heq]
        exact .other hafter (by simp [PRACConfig.isRFM])
    · -- any other request, with no recovery requests
      have hb' : b ≠ .prac := by
        rcases hb with rfl | rfl | rfl <;> decide
      have hnil : (s.bufs .prac).map recoveryKey = [] := by
        rw [← hkeys, hempty, List.map_nil]
      refine .other ?_ fun _ => hnil
      dsimp only
      rw [hother hb', hkeys]

end Serving

/-! ## The state machine -/

/-- The state machine, the clock it waits for, and the queue `l`. -/
inductive AlertPhase (cfg : Config) (p : PRACConfig) (clk : Int) (own : PRACState)
    (l : List (Command × AddrVec × Int)) : Prop where
  | normal (hstate : own.aboState = .normal) (hstart : own.recoveryStart = none)
      (hsetup : own.recoverySetup = false) (hqueue : l = [])
  | announced (start : Int) (hstate : own.aboState = .preRecovery)
      (hstart : own.recoveryStart = some start) (hclk : clk < start) (hsetup : own.recoverySetup = false)
      (hqueue : l = [])
  | queued (start : Int) (hstate : own.aboState = .preRecovery)
      (hstart : own.recoveryStart = some start) (hclk : clk < start) (hsetup : own.recoverySetup = true)
      (hqueue : RecoveryQueue p (p.aboRecoveryRefs * p.numRanks cfg) l)
  | recovery (hstate : own.aboState = .recovery) (hstart : own.recoveryStart = none)
      (hqueue : RecoveryQueue p own.recovRemRefs l)
  | delay (hstate : own.aboState = .delay) (hstart : own.recoveryStart = none) (hqueue : l = [])

/-- The fields that the counting of a command leaves alone. -/
structure SameMachine (own own' : PRACState) : Prop where
  aboState : own'.aboState = own.aboState
  recoveryStart : own'.recoveryStart = own.recoveryStart
  recovRemRefs : own'.recovRemRefs = own.recovRemRefs
  recoverySetup : own'.recoverySetup = own.recoverySetup

theorem sameMachine_onRequestForBank (e : Entry K) (own : PRACState) (bank : Int) :
    SameMachine own (p.onRequestForBank cfg e own bank) := by
  unfold PRACConfig.onRequestForBank
  dsimp only
  split_ifs
  · exact ⟨rfl, rfl, rfl, rfl⟩
  · exact ⟨rfl, rfl, rfl, rfl⟩
  · split <;> exact ⟨rfl, rfl, rfl, rfl⟩
  · exact ⟨rfl, rfl, rfl, rfl⟩

theorem sameMachine_updateCounters (e : Entry K) (own : PRACState) :
    SameMachine own (p.updateCounters cfg e own) := by
  have hfold : ∀ (banks : List Int) (own : PRACState),
      SameMachine own (banks.foldl (p.onRequestForBank cfg e) own) := by
    intro banks
    induction banks with
    | nil => exact fun own => ⟨rfl, rfl, rfl, rfl⟩
    | cons bank banks ih =>
        intro own
        have h₁ : SameMachine own (p.onRequestForBank cfg e own bank) :=
          sameMachine_onRequestForBank e own bank
        have h₂ := ih (p.onRequestForBank cfg e own bank)
        exact ⟨h₂.1.trans h₁.1, h₂.2.trans h₁.2, h₂.3.trans h₁.3, h₂.4.trans h₁.4⟩
  exact hfold _ own

theorem AlertPhase.of_same {clk : Int} {own own' : PRACState} {l : List (Command × AddrVec × Int)}
    (h : AlertPhase cfg p clk own l) (hsame : SameMachine own own') : AlertPhase cfg p clk own' l := by
  obtain ⟨h₁, h₂, h₃, h₄⟩ := hsame
  cases h with
  | normal hstate hstart hsetup hqueue =>
      exact .normal (h₁.trans hstate) (h₂.trans hstart) (h₄.trans hsetup) hqueue
  | announced start hstate hstart hclk hsetup hqueue =>
      exact .announced start (h₁.trans hstate) (h₂.trans hstart) hclk (h₄.trans hsetup) hqueue
  | queued start hstate hstart hclk hsetup hqueue =>
      exact .queued start (h₁.trans hstate) (h₂.trans hstart) hclk (h₄.trans hsetup) hqueue
  | recovery hstate hstart hqueue =>
      exact .recovery (h₁.trans hstate) (h₂.trans hstart) (h₃ ▸ hqueue)
  | delay hstate hstart hqueue => exact .delay (h₁.trans hstate) (h₂.trans hstart) hqueue

theorem AlertPhase.queue {clk : Int} {own : PRACState} {l : List (Command × AddrVec × Int)}
    (h : AlertPhase cfg p clk own l) : l = [] ∨ ∃ n, RecoveryQueue p n l := by
  cases h with
  | normal _ _ _ hqueue => exact .inl hqueue
  | announced _ _ _ _ _ hqueue => exact .inl hqueue
  | queued _ _ _ _ _ hqueue => exact .inr ⟨_, hqueue⟩
  | recovery _ _ hqueue => exact .inr ⟨_, hqueue⟩
  | delay _ _ hqueue => exact .inl hqueue

theorem Served.of_nil {own : PRACState} {l' : List (Command × AddrVec × Int)} {issued : Option Command}
    (h : Served cfg own [] l' issued) : l' = [] := by
  cases h with
  | other hkeys _ => exact hkeys
  | precharged i x hx _ _ _ => simp at hx
  | managed i x hx _ _ _ _ _ => simp at hx

/-- The recovery is queued as soon as its start is `nRP + 5` cycles ahead. -/
theorem AlertPhase.injectRecoveryCommands (hrefs : 0 ≤ p.aboRecoveryRefs)
    (hroom : (p.aboRecoveryRefs + 1) * p.numRanks cfg ≤ 2147483647) {clk : Int}
    {d : Derived K PRACState} (h : AlertPhase cfg p clk d.own ((d.base.bufs .prac).map recoveryKey)) :
    AlertPhase cfg p clk (p.injectRecoveryCommands cfg d).own
        (((p.injectRecoveryCommands cfg d).base.bufs .prac).map recoveryKey) ∧
      ((p.injectRecoveryCommands cfg d).own.recoverySetup = false →
        ∀ start, (p.injectRecoveryCommands cfg d).own.recoveryStart = some start →
          d.base.clk + (p.nRP + 5) < start) := by
  unfold PRACConfig.injectRecoveryCommands
  split_ifs with hinject
  · obtain ⟨hsetup, hdue⟩ := hinject
    refine ⟨?_, fun hfalse => by cases hfalse⟩
    cases h with
    | announced start hstate hstart hclk _ hqueue =>
        refine .queued start hstate hstart hclk rfl ?_
        have hnil : d.base.bufs .prac = [] := List.map_eq_nil_iff.mp hqueue
        have hlength : (p.recoveryRequests cfg : List (Request Command K)).length =
            (p.aboRecoveryRefs.toNat + 1) * p.numRanks cfg := by
          unfold PRACConfig.recoveryRequests
          simp [Nat.add_mul, Nat.add_comm]
        have hfits : (d.base.bufs .prac).length +
            (p.recoveryRequests cfg : List (Request Command K)).length ≤ 2147483647 := by
          have hcast : (((p.aboRecoveryRefs.toNat + 1) * p.numRanks cfg : Nat) : Int) =
              (p.aboRecoveryRefs + 1) * p.numRanks cfg := by
            rw [Int.natCast_mul, Int.natCast_add, Int.toNat_of_nonneg hrefs]
            rfl
          rw [hnil, hlength, List.length_nil]
          omega
        dsimp only
        rw [foldl_enqueuePrac _ _ hfits, hqueue, List.nil_append]
        exact recoveryQueue_requests cfg hrefs
    | normal _ hstart _ _ => simp [hstart] at hdue
    | queued _ _ _ _ hsetup' _ => simp [hsetup] at hsetup'
    | recovery _ hstart _ => simp [hstart] at hdue
    | delay _ hstart _ => simp [hstart] at hdue
  · refine ⟨h, fun hsetup start hstart => ?_⟩
    by_contra hle
    exact hinject ⟨hsetup, by simpa [hstart] using hle⟩

/-- One step of the state machine. -/
theorem AlertPhase.updateStateMachine (hact : 1 ≤ p.aboActCycles) (hnRP : -5 ≤ p.nRP) {clk : Int}
    {own own' : PRACState} {l l' : List (Command × AddrVec × Int)} {issued : Option Command}
    (h : AlertPhase cfg p clk own l)
    (hinjected : own.recoverySetup = false → ∀ start, own.recoveryStart = some start →
      clk + 1 + (p.nRP + 5) < start)
    (hserved : Served cfg own l l' issued) (hsame : SameMachine own own') :
    AlertPhase cfg p (clk + 1) (p.updateStateMachine cfg (clk + 1) issued own') l' := by
  obtain ⟨h₁, h₂, h₃, h₄⟩ := hsame
  unfold PRACConfig.updateStateMachine
  cases h with
  | normal hstate hstart hsetup hqueue =>
      subst hqueue
      rw [h₁, hstate]
      dsimp only
      split_ifs
      · exact .announced _ rfl rfl (by omega) (h₄.trans hsetup) hserved.of_nil
      · exact .normal (h₁.trans hstate) (h₂.trans hstart) (h₄.trans hsetup) hserved.of_nil
  | announced start hstate hstart hclk hsetup hqueue =>
      subst hqueue
      have hlater := hinjected hsetup start hstart
      have hne : ¬ own'.recoveryStart = some (clk + 1) := by
        rw [h₂, hstart, Option.some.injEq]
        omega
      rw [h₁, hstate]
      dsimp only
      rw [if_neg hne]
      exact .announced start (h₁.trans hstate) (h₂.trans hstart) (by omega) (h₄.trans hsetup)
        hserved.of_nil
  | queued start hstate hstart hclk hsetup hqueue =>
      have hqueue' : RecoveryQueue p (p.aboRecoveryRefs * p.numRanks cfg) l' := by
        cases hserved with
        | other hkeys _ => exact hkeys ▸ hqueue
        | precharged i x hx hpre hkeys _ => exact hkeys ▸ hqueue.erase_precharge hx hpre
        | managed i x _ _ _ _ hnot _ => exact absurd hstate hnot
      rw [h₁, hstate]
      dsimp only
      split_ifs with hnow
      · exact .recovery rfl rfl hqueue'
      · rw [h₂, hstart, Option.some.injEq] at hnow
        exact .queued start (h₁.trans hstate) (h₂.trans hstart) (by omega) (h₄.trans hsetup) hqueue'
  | recovery hstate hstart hqueue =>
      rw [h₁, hstate]
      dsimp only
      cases hserved with
      | other hkeys hempty =>
          rw [hkeys]
          split_ifs with hrfm hdone
          · exact .delay rfl (h₂.trans hstart) (hempty hrfm)
          · -- refresh management from elsewhere is issued only when the queue is empty
            have hcount := hqueue.count
            rw [hempty hrfm, List.countP_nil] at hcount
            rw [h₃] at hdone
            exact absurd (by omega) hdone
          · exact .recovery (h₁.trans hstate) (h₂.trans hstart) (h₃ ▸ hqueue)
      | precharged i x hx hpre hkeys hissued =>
          have hnot : ¬ issued.any (PRACConfig.isRFM cfg) = true := by
            rw [hissued]
            simp [PRACConfig.isRFM]
          rw [if_neg hnot, hkeys]
          exact .recovery (h₁.trans hstate) (h₂.trans hstart) (h₃ ▸ hqueue.erase_precharge hx hpre)
      | managed i x hx hrfm hkeys hissued hnot hfirst =>
          have hyes : issued.any (PRACConfig.isRFM cfg) = true := by
            rw [hissued]
            simp [PRACConfig.isRFM]
          have hqueue' := hqueue.erase_management hx hrfm hfirst
          have hrefs : 0 < p.aboRecoveryRefs := by
            have hpos : 0 < l.countP (·.1 = .RFMab) :=
              List.countP_pos_iff.mpr ⟨x, List.mem_of_getElem? hx, decide_eq_true hrfm⟩
            have hcount := hqueue.count
            by_contra hle
            have := hqueue.idle (not_lt.mp hle)
            omega
          rw [if_pos hyes, hkeys]
          split_ifs with hdone
          · rw [h₃] at hdone
            exact .delay rfl (h₂.trans hstart) (hqueue'.eq_nil hrefs hdone)
          · exact .recovery rfl (h₂.trans hstart) (h₃ ▸ hqueue')
  | delay hstate hstart hqueue =>
      subst hqueue
      rw [h₁, hstate]
      dsimp only
      split_ifs
      · exact .normal rfl (h₂.trans hstart) rfl hserved.of_nil
      · exact .delay rfl (h₂.trans hstart) hserved.of_nil
      · exact .delay (h₁.trans hstate) (h₂.trans hstart) hserved.of_nil

/-! ## Runs -/

/-- The invariant between calls. -/
structure AlertInv (cfg : Config) (p : PRACConfig) (d : Derived K PRACState) : Prop where
  counters : CounterInv cfg p d.own
  phase : AlertPhase cfg p d.base.clk d.own ((d.base.bufs .prac).map recoveryKey)
  free : ActiveFree d.base

/-- The call is no tick in which a refresh-management command could overtake a queued precharge of its
rank. Before the recovery begins `prac_buffer_filter` holds these commands back. -/
def PrechargesKeepUp (cfg : Config) (p : PRACConfig) (d : Derived K PRACState)
    (c : (ControllerKind.prac p).Call K) : Prop :=
  ∀ (inputs : TickInputs K) base, c = .tick inputs → d.base.preTick cfg inputs = .ok base →
    d.own.aboState ≠ .preRecovery → PrechargeReady cfg (p.injectRecoveryCommands cfg { d with base := base }).base

theorem injectRecoveryCommands_frame (cfg : Config) (p : PRACConfig) (d : Derived K PRACState) :
    (p.injectRecoveryCommands cfg d).base.clk = d.base.clk ∧
      (p.injectRecoveryCommands cfg d).base.active = d.base.active ∧
      (p.injectRecoveryCommands cfg d).own.bankCounters = d.own.bankCounters ∧
      (p.injectRecoveryCommands cfg d).own.criticalRows = d.own.criticalRows ∧
      (p.injectRecoveryCommands cfg d).own.aboNeeded = d.own.aboNeeded ∧
      (p.injectRecoveryCommands cfg d).own.aboState = d.own.aboState := by
  unfold PRACConfig.injectRecoveryCommands
  split_ifs
  · obtain ⟨hclk, -, hactive⟩ := foldl_enqueuePrac_frame (p.recoveryRequests cfg) d.base
    exact ⟨hclk, hactive, rfl, rfl, rfl, rfl⟩
  · exact ⟨rfl, rfl, rfl, rfl, rfl, rfl⟩

theorem pracServe_clk {s : ControllerBase K} {own : PRACState} {onIssue : List (Request Command K)}
    {d : Derived K PRACState} {issued : Option Command}
    (hserve : p.serve cfg onIssue own (p.schedule cfg own s) = .ok (d, issued)) :
    d.base.clk = s.clk := by
  have hclk : (p.schedule cfg own s).1.clk = s.clk := by
    rw [(pracSchedule_resolved cfg p own s).rest]
  rcases hfound : p.schedule cfg own s with ⟨t, - | ⟨b, i⟩⟩
  all_goals rw [hfound] at hclk hserve
  · cases hserve
    exact hclk
  · obtain ⟨e, hchosen, -⟩ := pracSchedule_found hfound
    unfold PRACConfig.serve at hserve
    simp only [hchosen.getElem] at hserve
    obtain ⟨u, hu, heq⟩ := except_map_eq_ok.mp hserve
    cases heq
    obtain ⟨stats, policy, v, -, hsend, rfl⟩ := serveCandidate_eq_ok hchosen.getElem hu
    rw [advance_clk, (onlyEnqueued_prioritySendAll hsend).clk]
    exact hclk

theorem alertInv_init (hthreshold : 1 ≤ p.aboThreshold) :
    AlertInv cfg p ⟨(ControllerBase.init cfg : ControllerBase K), {}⟩ where
  counters :=
    { nodup := fun _ => List.nodup_nil
      critical := fun bank row => by
        refine iff_of_false List.not_mem_nil fun hle => ?_
        have hzero : p.aboThreshold ≤ 0 := hle
        omega
      needed := fun _ _ hne => absurd rfl hne }
  phase := .normal rfl rfl rfl rfl
  free := fun _ he => absurd he List.not_mem_nil

/-- Calls that leave the clock, the active requests and those of the recovery alone. -/
theorem AlertInv.frame {d : Derived K PRACState} {s : ControllerBase K} (h : AlertInv cfg p d)
    (hclk : s.clk = d.base.clk) (hactive : s.active = d.base.active)
    (hprac : s.bufs .prac = d.base.bufs .prac) : AlertInv cfg p { d with base := s } := by
  refine ⟨h.counters, ?_, ?_⟩
  · dsimp only
    rw [hclk, hprac]
    exact h.phase
  · unfold ActiveFree
    rw [hactive]
    exact h.free

theorem AlertInv.tick (hthreshold : 1 ≤ p.aboThreshold) (hact : 1 ≤ p.aboActCycles)
    (hrefs : 0 ≤ p.aboRecoveryRefs) (hroom : (p.aboRecoveryRefs + 1) * p.numRanks cfg ≤ 2147483647)
    (hnRP : -5 ≤ p.nRP) {d d' : Derived K PRACState} (h : AlertInv cfg p d) {inputs : TickInputs K}
    (hkeep : PrechargesKeepUp cfg p d (.tick inputs)) (htick : pracTick cfg p inputs d = .ok d') :
    AlertInv cfg p d' := by
  obtain ⟨s₁, hpre, htick⟩ := except_bind_eq_ok.mp htick
  obtain ⟨⟨d₂, issued⟩, hserve, htick⟩ := except_bind_eq_ok.mp htick
  obtain ⟨s₃, hpost, htick⟩ := except_bind_eq_ok.mp htick
  cases htick
  obtain ⟨hclk₁, -, -, hbufs₁, -⟩ := preTick_frame hpre
  have hphase₁ : AlertPhase cfg p d.base.clk d.own ((s₁.bufs .prac).map recoveryKey) := by
    rw [hbufs₁ .prac (by decide)]
    exact h.phase
  -- the order of the tick: recovery commands are queued, a request is served, the state moves
  obtain ⟨hphase, hinjected⟩ :=
    AlertPhase.injectRecoveryCommands (d := { d with base := s₁ }) hrefs hroom hphase₁
  obtain ⟨hclk, hactive, hcounters, hrows, hneeded, hstate⟩ :=
    injectRecoveryCommands_frame cfg p { d with base := s₁ }
  have hready : (p.injectRecoveryCommands cfg { d with base := s₁ }).own.aboState ≠ .preRecovery →
      PrechargeReady cfg (p.injectRecoveryCommands cfg { d with base := s₁ }).base :=
    fun hne => hkeep inputs s₁ rfl hpre (hstate ▸ hne)
  generalize p.injectRecoveryCommands cfg { d with base := s₁ } = t at *
  have hfree : ActiveFree t.base := by
    unfold ActiveFree
    rw [hactive]
    show ∀ e ∈ s₁.bufs .active, _
    rw [hbufs₁ .active (by decide)]
    exact h.free
  have hcounts : CounterInv cfg p t.own :=
    h.counters.frame hcounters hrows fun _ _ _ hn => hneeded.trans hn
  obtain ⟨hfree₂, hown, hserved⟩ := pracServe_served hfree hready hphase.queue hserve
  have hclk₂ : d₂.base.clk = d.base.clk + 1 := (pracServe_clk hserve).trans (hclk.trans hclk₁)
  have hsame : SameMachine t.own d₂.own := by
    rcases hown with heq | ⟨e, heq⟩
    · rw [heq]
      exact ⟨rfl, rfl, rfl, rfl⟩
    · rw [heq]
      exact sameMachine_updateCounters e t.own
  have hcounts₂ : CounterInv cfg p d₂.own := by
    rcases hown with heq | ⟨e, heq⟩
    · rw [heq]
      exact hcounts
    · rw [heq]
      exact hcounts.updateCounters hthreshold e
  have hsent := onlyEnqueued_prioritySendAll hpost
  have hinv : AlertInv cfg p ⟨d₂.base, p.updateStateMachine cfg d₂.base.clk issued d₂.own⟩ := by
    refine ⟨hcounts₂.updateStateMachine _ _, ?_, hfree₂⟩
    dsimp only
    rw [hclk₂]
    refine hphase.updateStateMachine hact hnRP (fun hsetup start hstart => ?_) hserved hsame
    rw [← hclk₁]
    exact hinjected hsetup start hstart
  exact hinv.frame hsent.clk (hsent.bufs (by decide)) (hsent.bufs (by decide))

theorem AlertInv.call (hthreshold : 1 ≤ p.aboThreshold) (hact : 1 ≤ p.aboActCycles)
    (hrefs : 0 ≤ p.aboRecoveryRefs) (hroom : (p.aboRecoveryRefs + 1) * p.numRanks cfg ≤ 2147483647)
    (hnRP : -5 ≤ p.nRP) {d d' : Derived K PRACState} (h : AlertInv cfg p d)
    {c : (ControllerKind.prac p).Call K} (hkeep : PrechargesKeepUp cfg p d c)
    (hcall : (ControllerKind.prac p).call cfg c d = .ok d') : AlertInv cfg p d' := by
  cases c with
  | send apply req =>
      obtain ⟨⟨accepted, req', t⟩, ht, rfl⟩ := except_map_eq_ok.mp hcall
      obtain ⟨hclk, -, hactive, -, -, -⟩ := send_frame ht
      refine h.frame hclk hactive ?_
      rcases send_cases ht with
        ⟨-, -, heq⟩ | ⟨-, -, -, heq⟩ | ⟨-, -, heq⟩ | ⟨-, -, -, heq⟩ | ⟨-, heq⟩
      all_goals
        obtain rfl := congrArg (fun r => r.2.2) heq
        rfl
  | prioritySend req =>
      obtain ⟨⟨accepted, t⟩, ht, rfl⟩ := except_map_eq_ok.mp hcall
      have hsent := onlyEnqueued_keptBySend d.base d.base req accepted t trivial (.refl _) ht
      exact h.frame hsent.clk (hsent.bufs (by decide)) (hsent.bufs (by decide))
  | tick inputs => exact h.tick hthreshold hact hrefs hroom hnRP hkeep hcall

/-- With an alert announced at least a cycle ahead, a number of refresh commands that is not negative
and fits the queue, and in every run in which no refresh-management command can overtake a queued
precharge of its rank: the critical rows are those at the threshold; they are known to be there; the
machine never misses the start of a recovery; and the queue holds the refresh-management commands still
to go during the recovery, and nothing after it and while there is none. -/
theorem alert_state_machine (cfg : Config) (p : PRACConfig) (hthreshold : 1 ≤ p.aboThreshold)
    (hact : 1 ≤ p.aboActCycles) (hrefs : 0 ≤ p.aboRecoveryRefs)
    (hroom : (p.aboRecoveryRefs + 1) * p.numRanks cfg ≤ 2147483647) (hnRP : -5 ≤ p.nRP)
    (d : Derived K PRACState) (hd : (ControllerKind.prac p).ReachedIf cfg (PrechargesKeepUp cfg p) d) :
    (∀ bank row, row ∈ d.own.critical bank ↔ p.aboThreshold ≤ d.own.counter bank row) ∧
      (∀ bank : Nat, bank < cfg.spec.bankCount → d.own.critical bank ≠ [] → d.own.aboNeeded = true) ∧
      (d.own.aboState = .preRecovery →
        ∃ start, d.own.recoveryStart = some start ∧ d.base.clk ≤ start) ∧
      (d.own.aboState = .recovery →
        ((d.base.bufs .prac).countP (·.final = .RFMab) : Int) = d.own.recovRemRefs) ∧
      (d.own.aboState = .normal ∨ d.own.aboState = .delay → d.base.bufs .prac = []) := by
  have hinv : AlertInv cfg p d := by
    refine Reachable.invariant (AlertInv cfg p) (alertInv_init hthreshold) ?_ hd
    rintro t c t' ht ⟨hkeep, hcall⟩
    exact ht.call hthreshold hact hrefs hroom hnRP hkeep hcall
  refine ⟨hinv.counters.critical, fun bank hlt hne => hinv.counters.needed bank hlt fun hnil => ?_, ?_⟩
  · exact hne (by rw [PRACState.critical, hnil, List.map_nil])
  have hqueue : ∀ n, RecoveryQueue p n ((d.base.bufs .prac).map recoveryKey) →
      ((d.base.bufs .prac).countP (·.final = .RFMab) : Int) = n := by
    intro n h
    rw [← h.count, List.countP_map]
    rfl
  have hnil : (d.base.bufs .prac).map recoveryKey = [] → d.base.bufs .prac = [] :=
    List.map_eq_nil_iff.mp
  -- the rest is read off the phase that the machine is in
  cases hinv.phase with
  | normal hstate _ _ h =>
      rw [hstate]
      exact ⟨nofun, nofun, fun _ => hnil h⟩
  | announced start hstate hstart hclk _ h =>
      rw [hstate]
      exact ⟨fun _ => ⟨start, hstart, hclk.le⟩, nofun, fun _ => hnil h⟩
  | queued start hstate hstart hclk _ h =>
      rw [hstate]
      refine ⟨fun _ => ⟨start, hstart, hclk.le⟩, nofun, fun hs => ?_⟩
      rcases hs with hs | hs <;> cases hs
  | recovery hstate _ h =>
      rw [hstate]
      refine ⟨nofun, fun _ => hqueue _ h, fun hs => ?_⟩
      rcases hs with hs | hs <;> cases hs
  | delay hstate _ h =>
      rw [hstate]
      exact ⟨nofun, nofun, fun _ => hnil h⟩

/-- The same as a check. -/
def prechargesKeepUp (cfg : Config) (p : PRACConfig) (d : Derived K PRACState) :
    (ControllerKind.prac p).Call K → Bool
  | .tick inputs =>
      match d.base.preTick cfg inputs with
      | .ok base =>
          let s := (p.injectRecoveryCommands cfg { d with base := base }).base
          d.own.aboState = .preRecovery || (s.bufs .prac).all fun e =>
            e.final ≠ .PREab || s.device.getPreqCommand cfg.spec .RFMab e.addrVec ≠ .RFMab ||
              !s.device.checkTiming .RFMab e.addrVec s.clk || s.device.checkTiming .PREab e.addrVec s.clk
      | .error _ => true
  | _ => true

theorem prechargesKeepUp_sound {d : Derived K PRACState} {c : (ControllerKind.prac p).Call K}
    (h : prechargesKeepUp cfg p d c = true) : PrechargesKeepUp cfg p d c := by
  rintro inputs base rfl hpre hstate e he hfinal hpreq htiming
  simp only [prechargesKeepUp, hpre, hstate, decide_false, Bool.false_or, List.all_eq_true] at h
  simpa [hfinal, hpreq, htiming] using h e he

/-- In the small instance an alert runs through all four states; here the recovery has begun, one
refresh-management command is queued, and the row is still critical. -/
theorem alert_state_machine_small : ∃ d : Derived Unit PRACState,
    (ControllerKind.prac (smallPRAC 20)).ReachedIf smallRFMConfig
      (PrechargesKeepUp smallRFMConfig (smallPRAC 20)) d ∧
    d.own.aboState = .recovery ∧ d.own.recovRemRefs = 1 ∧ d.own.critical 0 = [5] ∧
    (∀ bank row, row ∈ d.own.critical bank ↔ 1 ≤ d.own.counter bank row) ∧
    ((d.base.bufs .prac).countP (·.final = .RFMab) : Int) = d.own.recovRemRefs := by
  have hrun : (ControllerKind.prac (smallPRAC 20)).watch smallRFMConfig
      (prechargesKeepUp smallRFMConfig (smallPRAC 20)) (smallReadCalls (smallPRAC 20) 21)
      (fun d : Derived Unit PRACState => (d.own.aboState, d.own.recovRemRefs, d.own.critical 0)) =
      .ok (.recovery, 1, [5]) := by
    decide +kernel
  obtain ⟨d, hreach, hobs⟩ :=
    ControllerKind.reachedIf_of_watch (fun _ _ h => prechargesKeepUp_sound h) hrun
  simp only [Prod.mk.injEq] at hobs
  obtain ⟨hstate, hrefs, hcritical⟩ := hobs
  obtain ⟨hshadow, -, -, hqueue, -⟩ :=
    alert_state_machine smallRFMConfig (smallPRAC 20) (by decide) (by decide) (by decide) (by decide)
      (by decide) d hreach
  exact ⟨d, hreach, hstate, hrefs, hcritical, hshadow, hqueue hstate⟩

/-- An alert announced zero cycles ahead: its recovery would have to start in the cycle in which the
machine is not looking yet, and the clock passes it. -/
theorem alert_never_leaves : ∃ d : Derived Unit PRACState,
    (ControllerKind.prac (smallPRAC 0)).Reached smallRFMConfig d ∧
      d.own.aboState = .preRecovery ∧ d.own.recoveryStart = some 1 ∧ ¬ d.base.clk ≤ 1 := by
  have hrun : (ControllerKind.prac (smallPRAC 0)).watch smallRFMConfig (fun _ _ => true)
      (smallReadCalls (smallPRAC 0) 12)
      (fun d : Derived Unit PRACState => (d.own.aboState, d.own.recoveryStart, d.base.clk)) =
      .ok (.preRecovery, some 1, 12) := by
    decide +kernel
  obtain ⟨d, hreach, hobs⟩ := ControllerKind.reachedIf_of_watch (fun _ _ _ => trivial) hrun
  simp only [Prod.mk.injEq] at hobs
  obtain ⟨hstate, hstart, hclk⟩ := hobs
  refine ⟨d, hreach.mono fun _ _ _ h => h.2, hstate, hstart, ?_⟩
  rw [hclk]
  decide

end Ramulator.Controller
