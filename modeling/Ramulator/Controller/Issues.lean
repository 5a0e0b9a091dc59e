/-
# Ramulator.Controller.Issues — what a controller has issued, and when.

The log records which commands were issued; the clock at which a tick issues them is the clock it leaves
behind. `Traced` runs a controller together with the history of its commands and their clocks, in the
terms of `Ramulator.Dram.Timing`. The lemmas below say how each part of a tick lets the history grow, and
keep track of the addresses in the buffers, for every controller that is built from these parts.
-/
import Ramulator.Controller.Kind
import Ramulator.Controller.Steps
import Ramulator.Dram.Timing

namespace Ramulator.Controller

open Ramulator.Base (Request)
open Ramulator.Dram Ramulator.Lib

variable {K : Type} {cfg : Config} {s s' t : ControllerBase K} {clk : Int}

/-! ## Histories -/

/-- The commands among the events of a tick that ends at clock `clk`. -/
def issuesIn (clk : Int) (evs : List Event) : List (Issue Command) :=
  evs.filterMap fun
    | .issued _ c addr _ _ => some ⟨c, addr, clk⟩
    | _ => none

theorem issuesIn_append (clk : Int) (evs evs' : List Event) :
    issuesIn clk (evs ++ evs') = issuesIn clk evs ++ issuesIn clk evs' :=
  List.filterMap_append

theorem issuesIn_of_not_isIssue {evs : List Event}
    (h : ∀ ev ∈ evs, ControllerBase.isIssue ev = false) : issuesIn clk evs = [] := by
  refine List.filterMap_eq_nil_iff.mpr fun ev hev => ?_
  cases ev with
  | issued uid c addr targets active => cases h _ hev
  | _ => rfl

/-- The states of a controller that calls satisfying `allowed` lead to, each with the history of what
has been issued on the way. -/
def ControllerKind.Traced (cfg : Config) (k : ControllerKind)
    (allowed : Derived K k.Own → k.Call K → Prop) : Derived K k.Own × List (Issue Command) → Prop :=
  Reachable (k.init cfg, []) fun p c p' =>
    (allowed p.1 c ∧ k.call cfg c p.1 = .ok p'.1) ∧
      p'.2 = p.2 ++ issuesIn p'.1.base.clk (p'.1.base.log.drop p.1.base.log.length)

/-- Without its history a traced state is a reached one. -/
theorem ControllerKind.Traced.reached {k : ControllerKind} {allowed : Derived K k.Own → k.Call K → Prop}
    {p : Derived K k.Own × List (Issue Command)} (h : k.Traced cfg allowed p) : k.Reached cfg p.1 := by
  induction h with
  | start => exact .start
  | step c _ hnext ih => exact .step c ih hnext.1.2

/-- A call with the history it leaves. -/
def ControllerKind.tracedCall (cfg : Config) (k : ControllerKind) (c : k.Call K)
    (p : Derived K k.Own × List (Issue Command)) :
    Except String (Derived K k.Own × List (Issue Command)) :=
  (k.call cfg c p.1).map fun d =>
    (d, p.2 ++ issuesIn d.base.clk (d.base.log.drop p.1.base.log.length))

/-- What `f` shows of a traced run, each call of which has to pass `check`. -/
def ControllerKind.observe {α : Type} (cfg : Config) (k : ControllerKind) (check : k.Call K → Bool)
    (calls : List (k.Call K)) (f : Derived K k.Own × List (Issue Command) → α) : Except String α :=
  (runAll (guarded (fun _ c => check c) "check failed" (k.tracedCall cfg)) calls
    (k.init cfg, [])).map f

theorem ControllerKind.traced_of_observe {α : Type} {k : ControllerKind} {check : k.Call K → Bool}
    {allowed : k.Call K → Prop} (hcheck : ∀ c, check c = true → allowed c) {calls : List (k.Call K)}
    {f : Derived K k.Own × List (Issue Command) → α} {o : α} (h : k.observe cfg check calls f = .ok o) :
    ∃ d H, k.Traced cfg (fun _ c => allowed c) (d, H) ∧ f (d, H) = o := by
  obtain ⟨⟨d, H⟩, hrun, hf⟩ := except_map_eq_ok.mp h
  refine ⟨d, H, ?_, hf⟩
  refine (reachable_runAll (fun _ c => hcheck c) .start hrun).mono ?_
  rintro p c p' ⟨hallowed, hcall⟩
  obtain ⟨d', hd', rfl⟩ := except_map_eq_ok.mp hcall
  exact ⟨⟨hallowed, hd'⟩, rfl⟩

namespace ControllerBase

/-! ## Growth of the history within a tick -/

/-- From `s` to `s'`, within a tick, the commands `l` have been issued. -/
structure Grown (s s' : ControllerBase K) (l : List (Issue Command)) : Prop where
  clk : s'.clk = s.clk
  log : ∃ evs, s'.log = s.log ++ evs ∧ issuesIn s.clk evs = l

theorem Grown.of_log_eq (hclk : s'.clk = s.clk) (hlog : s'.log = s.log) : Grown s s' [] :=
  ⟨hclk, [], by rw [hlog, List.append_nil], rfl⟩

theorem Grown.trans {l l' : List (Issue Command)} (h : Grown s s' l) (h' : Grown s' t l') :
    Grown s t (l ++ l') := by
  obtain ⟨evs, hlog, hl⟩ := h.log
  obtain ⟨evs', hlog', hl'⟩ := h'.log
  refine ⟨h'.clk.trans h.clk, evs ++ evs', by rw [hlog', hlog, List.append_assoc], ?_⟩
  rw [issuesIn_append, hl, ← hl', h.clk]

theorem Resolved.grown (h : Resolved s s') : Grown s s' [] := by
  rw [h.rest]
  exact .of_log_eq rfl rfl

/-- What no hook touches when it enqueues requests. -/
structure OnlyEnqueued (s s' : ControllerBase K) : Prop where
  clk : s'.clk = s.clk
  device : s'.device = s.device
  log : s'.log = s.log
  activePerBank : s'.activePerBank = s.activePerBank
  bufs : ∀ {b}, b ≠ .priority → s'.bufs b = s.bufs b

theorem OnlyEnqueued.refl (s : ControllerBase K) : OnlyEnqueued s s := ⟨rfl, rfl, rfl, rfl, fun _ => rfl⟩

theorem onlyEnqueued_keptBySend (s : ControllerBase K) :
    KeptBySend cfg (fun _ => True) (OnlyEnqueued s) := by
  intro t req accepted t' _ ht hsend
  obtain ⟨-, rfl | rfl⟩ := prioritySend_eq_ok hsend
  · refine ⟨ht.clk, ht.device, ht.log, ht.activePerBank, fun {b} hb => ?_⟩
    exact ((bufs_setBuf .priority b _ t).trans (if_neg hb)).trans (ht.bufs hb)
  · exact ht

theorem onlyEnqueued_prioritySendAll {reqs : List (Request Command K)}
    (h : s.prioritySendAll cfg reqs = .ok s') : OnlyEnqueued s s' :=
  prioritySendAll_preserves (onlyEnqueued_keptBySend s) (fun _ _ => trivial) (.refl s) h

/-- Up to the choice of a candidate a tick runs the prologue and enqueues. -/
theorem onlyEnqueued_preTick {inputs : TickInputs K} (h : s.preTick cfg inputs = .ok s') :
    OnlyEnqueued s.tickPrologue s' :=
  preTick_preserves (onlyEnqueued_keptBySend s.tickPrologue) (fun _ _ => trivial)
    (fun _ _ ht => ⟨ht.clk, ht.device, ht.log, ht.activePerBank, ht.bufs⟩) (fun _ _ => trivial)
    (fun _ _ => trivial) (.refl _) h

theorem grown_prioritySendAll {reqs : List (Request Command K)}
    (h : s.prioritySendAll cfg reqs = .ok s') : Grown s s' [] :=
  .of_log_eq (onlyEnqueued_prioritySendAll h).clk (onlyEnqueued_prioritySendAll h).log

theorem advance_clk (cfg : Config) (b : Buf) (i : Nat) (e : Entry K) (s : ControllerBase K) :
    (s.advance cfg b i e).clk = s.clk := by
  unfold advance
  split_ifs
  · show ((s.leave cfg b e).finish cfg e).clk = s.clk
    unfold finish
    split_ifs <;> rfl
  · unfold promoteToActive
    split_ifs <;> rfl
  · rfl

theorem grown_advance (cfg : Config) (b : Buf) (i : Nat) (e : Entry K) (s : ControllerBase K) :
    Grown s (s.advance cfg b i e) [] := by
  obtain ⟨evs, hlog, hevs⟩ := advance_log cfg b i e s
  exact ⟨advance_clk cfg b i e s, evs, hlog, issuesIn_of_not_isIssue hevs⟩

theorem grown_issued (cfg : Config) (b : Buf) (i : Nat) (e : Entry K) (stats : Stats)
    (p : RowPolicyState) (s : ControllerBase K) :
    Grown s (s.issued cfg b i e stats p) [⟨e.cmd, e.addrVec, s.clk⟩] :=
  ⟨rfl, _, rfl, rfl⟩

/-- Up to the choice of a candidate a tick completes reads and advances the clock. -/
theorem preTick_frame {inputs : TickInputs K} (h : s.preTick cfg inputs = .ok s') :
    s'.clk = s.clk + 1 ∧ s'.device = s.device ∧ s'.activePerBank = s.activePerBank ∧
      (∀ b, b ≠ .priority → s'.bufs b = s.bufs b) ∧
      ∃ evs, s'.log = s.log ++ evs ∧ ∀ ev ∈ evs, isIssue ev = false := by
  obtain ⟨stats, hpro, -⟩ := tickPrologue_eq s
  have hframe := onlyEnqueued_preTick h
  rw [hpro] at hframe
  refine ⟨hframe.clk, hframe.device, hframe.activePerBank, fun b hb => hframe.bufs hb, _, hframe.log,
    fun ev hev => ?_⟩
  obtain ⟨p, -, rfl⟩ := List.mem_map.mp hev
  rfl

/-! ## The addresses in the buffers -/

/-- Every buffered request has an address that satisfies `ok`. -/
def AllAddrs (ok : AddrVec → Prop) (s : ControllerBase K) : Prop :=
  ∀ b, ∀ e ∈ s.bufs b, ok e.addrVec

variable {ok : AddrVec → Prop}

theorem AllAddrs.of_bufs (h : AllAddrs ok s) (hbufs : s'.bufs = s.bufs) : AllAddrs ok s' := by
  unfold AllAddrs
  rw [hbufs]
  exact h

theorem AllAddrs.resolved (h : AllAddrs ok s) (hres : Resolved s s') : AllAddrs ok s' := by
  intro b e he
  obtain ⟨e₀, he₀, hbare⟩ := exists_bare_eq (hres.bare b) he
  rw [(of_bare_eq hbare).2.2.1]
  exact h b e₀ he₀

theorem AllAddrs.append (h : AllAddrs ok s) {b : Buf} {e : Entry K} (he : ok e.addrVec)
    (hbufs : ∀ b', s'.bufs b' = if b' = b then s.bufs b ++ [e] else s.bufs b') : AllAddrs ok s' := by
  intro b' e' he'
  rw [hbufs] at he'
  split_ifs at he' with hb
  · rcases List.mem_append.mp he' with hmem | hmem
    · exact h b e' hmem
    · rw [List.mem_singleton.mp hmem]
      exact he
  · exact h b' e' he'

theorem allAddrs_keptBySend :
    KeptBySend cfg (fun req => ok req.addrVec) (AllAddrs ok : ControllerBase K → Prop) := by
  intro t req accepted t' hreq ht hsend
  obtain ⟨-, rfl | rfl⟩ := prioritySend_eq_ok hsend
  · exact ht.append hreq (bufs_setBuf .priority · _ _)
  · exact ht

theorem AllAddrs.send (h : AllAddrs ok s) {apply : Request Command K → AddrVec}
    {req req' : Request Command K} {accepted : Bool}
    (hreq : ok ((apply req).set 0 cfg.channelId))
    (hsend : s.send cfg apply req = .ok (accepted, req', s')) : AllAddrs ok s' := by
  rcases send_cases hsend with
    ⟨-, -, heq⟩ | ⟨-, -, -, heq⟩ | ⟨-, -, heq⟩ | ⟨-, -, -, heq⟩ | ⟨-, heq⟩
  all_goals
    obtain rfl := congrArg (fun r => r.2.2) heq
  · rw [forward_eq]
    exact h
  · exact h.append hreq (bufs_setBuf .read · _ _)
  · rw [coalesce_eq]
    exact h
  · exact h.append hreq (bufs_setBuf .write · _ _)
  · exact h

theorem AllAddrs.preTick (h : AllAddrs ok s)
    (hpolicy : ∀ i, ok (bankAddr cfg.spec s.device.channelId i)) {inputs : TickInputs K}
    (hin : ∀ r ∈ inputs.refresh ++ inputs.preSchedule, ok r.addrVec)
    (hpre : s.preTick cfg inputs = .ok s') : AllAddrs ok s' := by
  obtain ⟨stats, hpro, -⟩ := tickPrologue_eq s
  have hkept : KeptBySend cfg (fun req => ok req.addrVec)
      (fun t : ControllerBase K => AllAddrs ok t ∧ t.device = s.device) := by
    intro t req accepted t' hreq ht hsend
    refine ⟨allAddrs_keptBySend t req accepted t' hreq ht.1 hsend, ?_⟩
    rw [(onlyEnqueued_keptBySend t t req accepted t' trivial (.refl t) hsend).device, ht.2]
  have hkeep := preTick_preserves_of hkept (fun t i ht => ?_) (fun _ _ ht => ht)
    (fun r hr => hin r (List.mem_append_left _ hr)) (fun r hr => hin r (List.mem_append_right _ hr))
    (by rw [hpro]; exact ⟨h, rfl⟩) hpre
  · exact hkeep.1
  · rw [ht.2]
    exact hpolicy i

theorem AllAddrs.issued (h : AllAddrs ok s) {b : Buf} {i : Nat} {e e' : Entry K} {stats : Stats}
    {p : RowPolicyState} (hi : (s.bufs b)[i]? = some e) (haddr : e'.addrVec = e.addrVec) :
    AllAddrs ok (s.issued cfg b i e' stats p) := by
  intro b' x hx
  rw [bufs_issued] at hx
  split_ifs at hx with hb
  · rcases List.mem_or_eq_of_mem_set hx with hmem | rfl
    · exact h b x hmem
    · rw [haddr]
      exact h b e (List.mem_of_getElem? hi)
  · exact h b' x hx

theorem AllAddrs.advance (h : AllAddrs ok s) {b : Buf} {i : Nat} {e : Entry K} (he : ok e.addrVec) :
    AllAddrs ok (s.advance cfg b i e) := by
  intro b' x hx
  rcases mem_bufs_advance hx with hmem | ⟨-, rfl, -⟩
  · exact h b' x hmem
  · exact he

end ControllerBase

end Ramulator.Controller
