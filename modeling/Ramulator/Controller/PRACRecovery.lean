/-
# Ramulator.Controller.PRACRecovery — the active buffer under PRAC.

The commands of a recovery wait in a buffer of their own, `m_prac_buffer`. Like the candidates from the
priority and the read/write buffer they may close rows, but `would_close_active` is not asked about
them. Where its answer would have been no, the accounting of the active buffer is as exact as in the
generic controller (`Ramulator.Controller.ActiveBuffer`): seen through `merged`, which queues the
recovery requests in front of the priority requests, a tick of PRAC does nothing that the generic
controller could not do.

The answer is no as long as active requests come first: the scheduler prefers them, so a recovery request
is served only when none of them is ready and fits in before the recovery. Where all of them are held back,
the precharge of the recovery takes the row from an active request, the request activates it again, and one
count of its bank is never given back.
-/
import Ramulator.Controller.ActiveBuffer
import Ramulator.Controller.Forwarding
import Ramulator.Controller.SchedulerLaw

namespace Ramulator.Controller

open Ramulator.Base (Request)
open Ramulator.Dram Ramulator.Lib ControllerBase

variable {K : Type} {cfg : Config} {s s' : ControllerBase K}

/-! ## The choice of a candidate -/

/-- What the choice finds: an active or a recovery request that has passed its filter or, without any
recovery requests, what the generic controller would choose. -/
theorem pracSchedule_found {p : PRACConfig} {own : PRACState} {b : Buf} {i : Nat}
    (hfound : p.schedule cfg own s = (s', some (b, i))) :
    ∃ e, Chosen cfg s' b i e ∧
      ((b = .active ∧ p.fits cfg s.clk own e = true) ∨
        (b = .prac ∧ PRACConfig.pracBufferFilter own e = true ∧ ∃ t, Resolved s t ∧
          t.pickBestReadyFrom cfg .prac (PRACConfig.pracBufferFilter own) = (s', some i)) ∨
        ((b = .priority ∨ b = .read ∨ b = .write) ∧ s'.bufs .prac = [] ∧
          p.fits cfg s.clk own e = true ∧ s'.wouldCloseActive cfg e = false)) := by
  unfold PRACConfig.schedule at hfound
  dsimp only at hfound
  obtain ⟨hres₁, hpick⟩ := pickBestReadyFrom_spec cfg s .active (p.fits cfg s.clk own)
  rcases hactive : s.pickBestReadyFrom cfg .active (p.fits cfg s.clk own) with ⟨t, - | j⟩
  all_goals
    rw [hactive] at hfound hres₁ hpick
    dsimp only at hfound
  · split_ifs at hfound with hempty
    · obtain ⟨-, hpick'⟩ := pickBestReadyFrom_spec cfg t .prac (PRACConfig.pracBufferFilter own)
      obtain ⟨rfl, hcand⟩ := Prod.mk.inj hfound
      obtain ⟨j, hj, heq⟩ := Option.map_eq_some_iff.mp hcand
      obtain ⟨rfl, rfl⟩ := Prod.mk.inj heq
      obtain ⟨e, hchosen, hfilter⟩ := hpick' j hj
      exact ⟨e, hchosen, .inr (.inl ⟨rfl, hfilter, t, hres₁, Prod.ext rfl hj⟩)⟩
    · obtain ⟨hres, hpick'⟩ :=
        scheduleWith_found cfg none (p.fits cfg s.clk own) (p.fits cfg s.clk own) t
      have hbuf := scheduleWith_buf (congrArg Prod.snd hfound)
      rw [hfound] at hres hpick'
      obtain ⟨e, hcand, hfits⟩ := hpick' b i rfl
      have hprac : s'.bufs .prac = [] := by
        rw [← List.length_eq_zero_iff, hres.length_eq]
        exact Nat.eq_zero_of_not_pos hempty
      have hclose : b ≠ .active → s'.wouldCloseActive cfg e = false := hcand.notClosing.resolve_left
      refine ⟨e, hcand.toChosen, ?_⟩
      rcases hbuf with rfl | rfl | rfl | rfl
      · exact absurd hfits (by simp [Fits])
      all_goals exact .inr (.inr ⟨by decide, hprac, hfits, hclose (by decide)⟩)
  · obtain ⟨rfl, hcand⟩ := Prod.mk.inj hfound
    obtain ⟨rfl, rfl⟩ := Prod.mk.inj (Option.some.inj hcand)
    obtain ⟨e, hchosen, hfilter⟩ := hpick j rfl
    exact ⟨e, hchosen, .inl ⟨rfl, hfilter⟩⟩

/-- A recovery request is chosen only if no active request is. -/
theorem active_none_of_pracSchedule {p : PRACConfig} {own : PRACState} {i : Nat}
    (hfound : p.schedule cfg own s = (s', some (.prac, i))) :
    (s.pickBestReadyFrom cfg .active (p.fits cfg s.clk own)).2 = none := by
  unfold PRACConfig.schedule at hfound
  dsimp only at hfound
  rcases hactive : s.pickBestReadyFrom cfg .active (p.fits cfg s.clk own) with ⟨t, - | j⟩
  · rfl
  · rw [hactive] at hfound
    cases hfound

/-- A request that needs nothing before its terminal command is passed over only if it is not ready or
not accepted: no row hit can hold it back. -/
theorem not_ready_of_pickBestReadyFrom_none {b : Buf} {filter : Entry K → Bool}
    (hnone : (s.pickBestReadyFrom cfg b filter).2 = none) {e : Entry K} (he : e ∈ s.bufs b)
    (hfinal : (resolve cfg.spec s.device e).cmd = e.final)
    (hfilter : filter (resolve cfg.spec s.device e) = true) :
    s.device.checkTiming (resolve cfg.spec s.device e).cmd e.addrVec s.clk = false := by
  have hmem : resolve cfg.spec s.device e ∈ (s.bufs b).map (resolve cfg.spec s.device) :=
    List.mem_map_of_mem he
  have hkeep : ∀ arrivals, wouldPreemptRowhit cfg.spec arrivals (resolve cfg.spec s.device e) = false := by
    intro arrivals
    unfold wouldPreemptRowhit
    split_ifs with hclosing hcmd
    · rfl
    · rfl
    · exact absurd hfinal hcmd
    · exact absurd hfinal hcmd
  -- whatever the scheduler counts as eligible, this request is
  have hbest : ∃ eligible : Entry K → Bool, eligible (resolve cfg.spec s.device e) = true ∧
      getBestRequest cfg s.device s.clk filter (s.bufs b) =
        ((s.bufs b).map (resolve cfg.spec s.device),
          scan eligible (fun e => s.device.checkTiming e.cmd e.addrVec s.clk)
            ((s.bufs b).map (resolve cfg.spec s.device))) := by
    unfold getBestRequest
    cases cfg.scheduler with
    | frfcfs => exact ⟨filter, hfilter, rfl⟩
    | frfcfsRowHit => exact ⟨_, by rw [hfilter, hkeep]; rfl, rfl⟩
  obtain ⟨eligible, helig, hbest⟩ := hbest
  obtain ⟨hscan, hleast⟩ := scan_selects eligible (fun e => s.device.checkTiming e.cmd e.addrVec s.clk)
    ((s.bufs b).map (resolve cfg.spec s.device))
  unfold pickBestReadyFrom at hnone
  rw [hbest] at hnone
  dsimp only at hnone
  cases hchoice : scan eligible (fun e => s.device.checkTiming e.cmd e.addrVec s.clk)
      ((s.bufs b).map (resolve cfg.spec s.device)) with
  | none => exact absurd helig (hscan.mp hchoice _ hmem)
  | some c =>
      rw [hchoice] at hnone
      dsimp only at hnone
      split_ifs at hnone with hready
      obtain ⟨-, -, hleast⟩ := hleast c hchoice
      obtain ⟨i, hi⟩ := List.mem_iff_getElem?.mp hmem
      -- the best request is not ready, so none that is eligible is
      rcases scanKey_le_iff.mp (hleast i _ hi helig) with ⟨hc, -⟩ | ⟨heq, -⟩
      · exact absurd hc hready
      · exact heq.symm.trans (Bool.not_eq_true _ ▸ hready)

/-! ## Recovery requests as priority requests -/

/-- The recovery requests in front of the priority requests. -/
def merged (s : ControllerBase K) : ControllerBase K :=
  { s with
    bufs := fun
      | .priority => s.bufs .prac ++ s.bufs .priority
      | .prac => []
      | b => s.bufs b }

/-- Where a request of buffer `b` is found then. -/
def mergedBuf : Buf → Buf
  | .prac => .priority
  | b => b

/-- A place in a buffer that is the same place after merging. -/
def Placed (s : ControllerBase K) (b : Buf) (i : Nat) (e : Entry K) : Prop :=
  (s.bufs b)[i]? = some e ∧ (b = .priority → s.bufs .prac = [])

theorem merged_enqueuePriority (s : ControllerBase K) (req : Request Command K) :
    merged (s.enqueuePriority req) = (merged s).enqueuePriority req := by
  unfold merged enqueuePriority setBuf setStats
  congr 1
  funext b
  cases b <;> simp [priority]

theorem Placed.getElem_merged {b : Buf} {i : Nat} {e : Entry K} (h : Placed s b i e) :
    ((merged s).bufs (mergedBuf b))[i]? = some e := by
  obtain ⟨hi, hempty⟩ := h
  cases b with
  | priority => simpa [merged, mergedBuf, hempty rfl] using hi
  | prac =>
      show (s.bufs .prac ++ s.bufs .priority)[i]? = some e
      rw [List.getElem?_append_left (List.getElem?_eq_some_iff.mp hi).1, hi]
  | _ => exact hi

theorem merged_setBuf {b : Buf} (hb : b ≠ .prac) (hb' : b ≠ .priority) (l : List (Entry K))
    (s : ControllerBase K) : merged (s.setBuf b l) = (merged s).setBuf b l := by
  unfold merged setBuf
  congr 1
  funext b'
  cases b' <;> simp [Function.update_apply, Ne.symm hb, Ne.symm hb']

/-- Replacing a request, or taking it out. -/
theorem merged_setBuf_of_placed {b : Buf} {i : Nat} {e : Entry K} (h : Placed s b i e)
    (f : List (Entry K) → List (Entry K))
    (hf : ∀ l l' : List (Entry K), i < l.length → f (l ++ l') = f l ++ l') :
    merged (s.setBuf b (f (s.bufs b))) =
      (merged s).setBuf (mergedBuf b) (f ((merged s).bufs (mergedBuf b))) := by
  obtain ⟨hi, hempty⟩ := h
  have hlt := (List.getElem?_eq_some_iff.mp hi).1
  cases b with
  | priority =>
      have hprac := hempty rfl
      unfold merged setBuf mergedBuf
      congr 1
      funext b'
      cases b' <;> simp [hprac]
  | prac =>
      unfold merged setBuf mergedBuf
      congr 1
      funext b'
      cases b' <;> simp [hf _ _ hlt]
  | _ => exact merged_setBuf (by decide) (by decide) _ s

theorem merged_issued {b : Buf} {i : Nat} {e : Entry K} (h : Placed s b i e) (e' : Entry K)
    (stats : Stats) (p : RowPolicyState) :
    merged (s.issued cfg b i e' stats p) = (merged s).issued cfg (mergedBuf b) i e' stats p := by
  have hset := merged_setBuf_of_placed h (fun l => l.set i e')
    (fun l l' hlt => List.set_append_left i e' hlt)
  have hbufs := congrArg ControllerBase.bufs hset
  unfold merged ControllerBase.issued
  congr 1

theorem merged_leave (b : Buf) (e : Entry K) (s : ControllerBase K) :
    merged (s.leave cfg b e) = (merged s).leave cfg (mergedBuf b) e := by
  cases b <;> rfl

theorem merged_finish (e : Entry K) (s : ControllerBase K) :
    merged (s.finish cfg e) = (merged s).finish cfg e := by
  unfold finish
  split_ifs <;> rfl

theorem merged_retireRequest {b : Buf} {i : Nat} {e e' : Entry K} (h : Placed s b i e) :
    merged (s.retireRequest cfg b i e') = (merged s).retireRequest cfg (mergedBuf b) i e' := by
  have hbufs : ((s.leave cfg b e').finish cfg e').bufs = s.bufs := (finish_frame cfg e' _).2.1
  have hplaced : Placed ((s.leave cfg b e').finish cfg e') b i e := by
    unfold Placed
    rw [hbufs]
    exact h
  unfold retireRequest removeAt
  rw [merged_setBuf_of_placed hplaced (fun l => l.eraseIdx i)
    (fun l l' hlt => List.eraseIdx_append_of_lt_length hlt l'), merged_finish, merged_leave]

theorem merged_promoteToActive {b : Buf} {i : Nat} {e e' : Entry K} (h : Placed s b i e) :
    merged (s.promoteToActive cfg b i e') = (merged s).promoteToActive cfg (mergedBuf b) i e' := by
  have henter : merged (s.enterActive cfg b e') = (merged s).enterActive cfg (mergedBuf b) e' := by
    have hset := merged_setBuf (b := .active) (by decide) (by decide) (s.active ++ [e']) s
    have hbufs := congrArg ControllerBase.bufs hset
    unfold merged enterActive
    cases b <;> congr 1
  have hplaced : ∃ x, Placed (s.enterActive cfg b e') b i x := by
    refine ⟨e, ?_, fun hb => ?_⟩
    · rw [bufs_enterActive]
      split_ifs with hb
      · subst hb
        exact (List.getElem?_append_left (List.getElem?_eq_some_iff.mp h.1).1).trans h.1
      · exact h.1
    · rw [bufs_enterActive]
      exact h.2 hb
  obtain ⟨x, hx⟩ := hplaced
  unfold promoteToActive
  show merged (if s.active.length < _ then _ else _) = if s.active.length < _ then _ else _
  split_ifs
  · unfold removeAt
    rw [merged_setBuf_of_placed hx (fun l => l.eraseIdx i)
      (fun l l' hlt => List.eraseIdx_append_of_lt_length hlt l'), henter]
  · rfl

theorem merged_advance {b : Buf} {i : Nat} {e e' : Entry K} (h : Placed s b i e) :
    merged (s.advance cfg b i e') = (merged s).advance cfg (mergedBuf b) i e' := by
  unfold advance
  split_ifs
  · exact merged_retireRequest h
  · exact merged_promoteToActive h
  · rfl

theorem merged_enqueueRead (req : Request Command K) (s : ControllerBase K) :
    merged (s.enqueueRead req) = (merged s).enqueueRead req := by
  have hset := merged_setBuf (b := .read) (by decide) (by decide)
    (s.read ++ [Entry.ofRequest s.nextUid req]) s
  have hbufs := congrArg ControllerBase.bufs hset
  unfold merged enqueueRead
  congr 1

theorem merged_enqueueWrite (req : Request Command K) (s : ControllerBase K) :
    merged (s.enqueueWrite req) = (merged s).enqueueWrite req := by
  have hset := merged_setBuf (b := .write) (by decide) (by decide)
    (s.write ++ [Entry.ofRequest s.nextUid req]) s
  have hbufs := congrArg ControllerBase.bufs hset
  unfold merged enqueueWrite
  congr 1

/-- A `send` does not look at the requests that are merged. -/
theorem merged_send {apply : Request Command K → AddrVec} {req req' : Request Command K}
    {accepted : Bool} (h : s.send cfg apply req = .ok (accepted, req', s')) :
    (merged s).send cfg apply req = .ok (accepted, req', merged s') := by
  unfold send at h ⊢
  split_ifs at h ⊢
  rw [Except.ok.injEq] at h ⊢
  unfold sendMapped at h ⊢
  rw [show (merged s).bufferedWriteAddrs = s.bufferedWriteAddrs from rfl,
    show (merged s).read = s.read from rfl, show (merged s).write = s.write from rfl,
    show (merged s).clk = s.clk from rfl, ← merged_enqueueRead, ← merged_enqueueWrite]
  split_ifs at h ⊢
  all_goals
    cases h
    rfl

theorem resolved_merged (h : Resolved s s') : Resolved (merged s) (merged s') := by
  refine ⟨?_, fun b => ?_⟩
  · have hrest := h.rest
    unfold merged
    rw [hrest]
  · cases b with
    | priority =>
        show (s'.bufs .prac ++ s'.bufs .priority).map bare = (s.bufs .prac ++ s.bufs .priority).map bare
        rw [List.map_append, List.map_append, h.bare, h.bare]
    | prac => rfl
    | _ => exact h.bare _

/-! ## The invariant -/

/-- A closing command is issued to no bank with an active request, except that the column command of an
active request may close its own bank. -/
def ClosesOwnColumn : Event → Prop
  | .issued uid c _ targets active =>
      c.commandMeta.isClosing = true → ∀ t ∈ targets, ∀ a ∈ active, a.2 = t.1 →
        a.1 = uid ∧ c ∈ columnCommands
  | _ => True

/-- The terminal commands of a recovery. -/
def recoveryCommands : List Command := [.PREab, .RFMab]

theorem of_mem_recoveryCommands {c : Command} (h : c ∈ recoveryCommands) :
    c ∈ oneStepCommands ∧ c ∉ columnCommands := by
  cases c <;> revert h <;> decide

/-- What holds of the buffers between calls, and after the issue of a command. -/
structure RecoveryRest (s : ControllerBase K) : Prop where
  log : ∀ ev ∈ s.log, ClosesOwnColumn ev
  finals : ∀ e ∈ s.bufs .prac, e.final ∈ recoveryCommands

structure RecoveryInv (cfg : Config) (s : ControllerBase K) : Prop extends RecoveryRest s where
  active : ActiveInv cfg (merged s)

/-- The invariant between the issue of a command and the advance of its request. -/
structure RecoveryMid (cfg : Config) (b : Buf) (i : Nat) (e : Entry K) (s : ControllerBase K) : Prop
    extends RecoveryRest s where
  active : ActiveMid cfg (mergedBuf b) i e (merged s)
  placed : Placed s b i e

theorem ClosesOwnColumn.of_not_isIssue {ev : Event} (h : isIssue ev = false) : ClosesOwnColumn ev := by
  cases ev with
  | issued uid c addr targets active => cases h
  | _ => trivial

/-- Steps that issue nothing and add no recovery requests. -/
theorem RecoveryRest.frame (h : RecoveryRest s)
    (hlog : ∃ evs, s'.log = s.log ++ evs ∧ ∀ ev ∈ evs, isIssue ev = false)
    (hprac : ∀ e ∈ s'.bufs .prac, ∃ e₀ ∈ s.bufs .prac, e.final = e₀.final) : RecoveryRest s' := by
  obtain ⟨evs, hlog, hevs⟩ := hlog
  refine ⟨fun ev hev => ?_, fun e he => ?_⟩
  · rw [hlog, List.mem_append] at hev
    rcases hev with hev | hev
    · exact h.log ev hev
    · exact .of_not_isIssue (hevs ev hev)
  · obtain ⟨e₀, he₀, hfinal⟩ := hprac e he
    rw [hfinal]
    exact h.finals e₀ he₀

/-- Nothing that is seen through the merge changes. -/
theorem RecoveryInv.frame (h : RecoveryInv cfg s)
    (hdevice : s'.device = s.device) (hcount : s'.activePerBank = s.activePerBank)
    (hbufs : s'.bufs = s.bufs)
    (hlog : ∃ evs, s'.log = s.log ++ evs ∧ ∀ ev ∈ evs, isIssue ev = false) : RecoveryInv cfg s' := by
  have hmerged : (merged s').bufs = (merged s).bufs := by
    unfold merged
    rw [hbufs]
  have hlegal : LegalInv cfg False (merged s') :=
    h.active.legal.frame hdevice hlog (hmerged ▸ h.active.legal.finals)
  refine ⟨h.toRecoveryRest.frame hlog fun e he => ⟨e, hbufs ▸ he, rfl⟩,
    h.active.frame hlegal hdevice hcount ?_ hlog⟩
  unfold ControllerBase.active
  rw [hmerged]

theorem recoveryInv_init : RecoveryInv cfg (ControllerBase.init cfg : ControllerBase K) where
  log := fun _ hev => absurd hev List.not_mem_nil
  finals := fun _ he => absurd he List.not_mem_nil
  active := by
    have hinit : merged (ControllerBase.init cfg : ControllerBase K) = ControllerBase.init cfg := by
      unfold merged ControllerBase.init
      congr 1
      funext b
      cases b <;> rfl
    rw [hinit]
    exact activeInv_init

theorem recoveryInv_keptBySend (hspec : OneStep cfg.spec) :
    KeptBySend cfg (fun _ => True) (RecoveryInv (K := K) cfg) := by
  intro s req accepted s' _ h hsend
  obtain ⟨hreq, rfl | rfl⟩ := prioritySend_eq_ok hsend
  · refine ⟨⟨h.log, h.finals⟩, ?_⟩
    rw [merged_enqueuePriority]
    exact h.active.enqueuePriority hspec hreq
  · exact h

theorem recoveryMid_keptBySend (hspec : OneStep cfg.spec) (b : Buf) (i : Nat) (e : Entry K) :
    KeptBySend cfg (fun _ => True) (RecoveryMid cfg b i e) := by
  intro s req accepted s' _ h hsend
  obtain ⟨hreq, rfl | rfl⟩ := prioritySend_eq_ok hsend
  · refine ⟨⟨h.log, h.finals⟩, ?_, getElem?_enqueuePriority h.placed.1, h.placed.2⟩
    rw [merged_enqueuePriority]
    exact h.active.enqueuePriority hspec hreq
  · exact h

theorem RecoveryInv.send (hspec : OneStep cfg.spec) (h : RecoveryInv cfg s)
    {apply : Request Command K → AddrVec} {req req' : Request Command K} {accepted : Bool}
    (hsend : s.send cfg apply req = .ok (accepted, req', s')) : RecoveryInv cfg s' := by
  obtain ⟨-, -, -, -, -, hlog⟩ := send_frame hsend
  refine ⟨h.toRecoveryRest.frame hlog fun e he => ⟨e, ?_, rfl⟩, h.active.send hspec (merged_send hsend)⟩
  rcases send_cases hsend with ⟨-, -, heq⟩ | ⟨-, -, -, heq⟩ | ⟨-, -, heq⟩ | ⟨-, -, -, heq⟩ | ⟨-, heq⟩
  all_goals
    obtain rfl := congrArg (fun r => r.2.2) heq
    exact he

theorem RecoveryInv.preTick (hspec : OneStep cfg.spec) (h : RecoveryInv cfg s) {inputs : TickInputs K}
    (hpre : s.preTick cfg inputs = .ok s') : RecoveryInv cfg s' := by
  refine preTick_preserves (recoveryInv_keptBySend hspec) (fun _ _ => trivial)
    (fun s p hs => hs.frame rfl rfl rfl ⟨[], by simp, by simp⟩) (fun _ _ => trivial)
    (fun _ _ => trivial) ?_ hpre
  obtain ⟨stats, heq, -⟩ := tickPrologue_eq s
  rw [heq]
  refine h.frame rfl rfl rfl ⟨_, rfl, fun ev hev => ?_⟩
  obtain ⟨p, -, rfl⟩ := List.mem_map.mp hev
  rfl

/-! ## Injection -/

theorem RecoveryInv.enqueuePrac (h : RecoveryInv cfg s) {req : Request Command K}
    (hreq : ∃ c ∈ recoveryCommands, req.finalCommand = some c) :
    RecoveryInv cfg (PRACConfig.enqueuePrac s req) := by
  unfold PRACConfig.enqueuePrac
  split_ifs
  · obtain ⟨c, hc, hfinal⟩ := hreq
    have hlast : (Entry.ofRequest s.nextUid req).final = c := by
      simp [Entry.final, Entry.ofRequest, hfinal]
    have hlog : ∃ evs, s.log = s.log ++ evs ∧ ∀ ev ∈ evs, isIssue ev = false := ⟨[], by simp, by simp⟩
    refine ⟨⟨h.log, fun e he => ?_⟩, h.active.frame ?_ rfl rfl rfl hlog⟩
    · rw [bufs_setBuf, if_pos rfl, List.mem_append, List.mem_singleton] at he
      rcases he with he | rfl
      · exact h.finals e he
      · rw [hlast]
        exact hc
    · refine h.active.legal.frame rfl hlog fun b e he => ?_
      have hfinals := h.active.legal.finals
      cases b with
      | priority =>
          have hmem : e ∈ (s.bufs .prac ++ [Entry.ofRequest s.nextUid req]) ++ s.bufs .priority := he
          simp only [List.mem_append, List.mem_singleton] at hmem
          rcases hmem with (hmem | rfl) | hmem
          · exact hfinals .priority e (List.mem_append_left _ hmem)
          · exact ⟨by rw [hlast]; exact (of_mem_recoveryCommands hc).1, fun hb => absurd rfl hb⟩
          · exact hfinals .priority e (List.mem_append_right _ hmem)
      | prac => exact absurd he List.not_mem_nil
      | active => exact hfinals .active e he
      | read => exact hfinals .read e he
      | write => exact hfinals .write e he
      | activating => exact hfinals .activating e he
  · exact h

theorem RecoveryInv.injectRecoveryCommands {p : PRACConfig} {d : Derived K PRACState}
    (h : RecoveryInv cfg d.base) : RecoveryInv cfg (p.injectRecoveryCommands cfg d).base := by
  have hfold : ∀ (reqs : List (Request Command K)) (s : ControllerBase K), RecoveryInv cfg s →
      (∀ req ∈ reqs, ∃ c ∈ recoveryCommands, req.finalCommand = some c) →
      RecoveryInv cfg (reqs.foldl PRACConfig.enqueuePrac s) := by
    intro reqs
    induction reqs with
    | nil => exact fun s hs _ => hs
    | cons req reqs ih =>
        intro s hs hreqs
        exact ih _ (hs.enqueuePrac (hreqs req List.mem_cons_self))
          fun r hr => hreqs r (List.mem_cons_of_mem _ hr)
  unfold PRACConfig.injectRecoveryCommands
  split_ifs
  · refine hfold _ _ h fun req hreq => ?_
    unfold PRACConfig.recoveryRequests at hreq
    simp only [List.mem_append, List.mem_map, List.mem_flatMap] at hreq
    rcases hreq with ⟨r, -, rfl⟩ | ⟨_, -, r, -, rfl⟩
    · exact ⟨.PREab, by decide, rfl⟩
    · exact ⟨.RFMab, by decide, rfl⟩
  · exact h

theorem RecoveryInv.resolved (h : RecoveryInv cfg s) (hres : Resolved s s') : RecoveryInv cfg s' := by
  refine ⟨h.toRecoveryRest.frame ⟨[], by rw [hres.rest, List.append_nil], by simp⟩ fun e he => ?_,
    h.active.resolved (resolved_merged hres)⟩
  obtain ⟨e₀, he₀, hbare⟩ := exists_bare_eq (hres.bare .prac) he
  exact ⟨e₀, he₀, (of_bare_eq hbare).2.2.2.2.1⟩

/-! ## Serving -/

theorem prepared_opened (hopen : cfg.rowPolicy = .opened) (s : ControllerBase K) (e : Entry K) :
    s.prepared cfg e = { e with isStatUpdated := true } := by
  unfold prepared tryUpgradeCommand
  rw [hopen]

theorem not_upgradeOverActive (hopen : cfg.rowPolicy = .opened) (s : ControllerBase K) (b : Buf)
    (e : Entry K) : ¬ UpgradeOverActive cfg s b e := by
  rintro ⟨-, hne, -⟩
  refine hne ?_
  unfold tryUpgradeCommand
  rw [hopen]

/-- Issuing the command of a candidate. -/
theorem RecoveryInv.issued (hspec : OneStep cfg.spec) (hopen : cfg.rowPolicy = .opened)
    (h : RecoveryInv cfg s) {b : Buf} {i : Nat} {e : Entry K} (hplaced : Placed s b i e)
    (hcand : Candidate cfg (merged s) (mergedBuf b) i e) (stats : Stats) (p : RowPolicyState) :
    RecoveryMid cfg b i (s.prepared cfg e) (s.issued cfg b i (s.prepared cfg e) stats p) := by
  have hprepared : (merged s).prepared cfg e = s.prepared cfg e := by
    rw [prepared_opened hopen, prepared_opened hopen]
  have hnot := not_upgradeOverActive hopen (merged s) (mergedBuf b) e
  have hfinal : (s.prepared cfg e).final = e.final := by
    rw [prepared_opened hopen]
    rfl
  refine ⟨⟨fun ev hev => ?_, fun x hx => ?_⟩, ?_, ?_, fun hb => ?_⟩
  · rcases List.mem_append.mp hev with hev | hev
    · exact h.log ev hev
    · rw [List.mem_singleton.mp hev]
      intro hclosing t ht x hx hbank
      obtain ⟨t, ht', rfl⟩ := List.mem_map.mp ht
      obtain ⟨a, ha, rfl⟩ := List.mem_map.mp hx
      obtain ⟨j, ha⟩ := List.mem_iff_getElem?.mp ha
      rw [← hprepared] at hclosing ht' ⊢
      obtain ⟨hb, rfl⟩ := closes_only_own hspec h.active hcand hnot hclosing ht' ha hbank
      rw [hb] at hcand
      refine ⟨?_, (prepared_active hspec h.active hcand).2⟩
      rw [prepared_uid, Option.some.inj (ha.symm.trans hcand.getElem)]
  · rw [bufs_issued] at hx
    split_ifs at hx with hb
    · subst hb
      rcases List.mem_or_eq_of_mem_set hx with hmem | rfl
      · exact h.finals x hmem
      · rw [hfinal]
        exact h.finals e (List.mem_of_getElem? hplaced.1)
    · exact h.finals x hx
  · rw [merged_issued hplaced, ← hprepared]
    exact h.active.issued hspec hcand hnot stats p
  · have hlt := (List.getElem?_eq_some_iff.mp hplaced.1).1
    simp [hlt]
  · subst hb
    exact hplaced.2 rfl

theorem RecoveryMid.advance {b : Buf} {i : Nat} {e : Entry K} (h : RecoveryMid cfg b i e s) :
    RecoveryInv cfg (s.advance cfg b i e) := by
  refine ⟨h.toRecoveryRest.frame (advance_log cfg b i e s) fun x hx => ?_, ?_⟩
  · exact ⟨x, (mem_bufs_advance hx).resolve_right fun hact => absurd hact.1 (by decide), rfl⟩
  · rw [merged_advance h.placed]
    exact h.active.advance

theorem RecoveryInv.serveCandidate (hspec : OneStep cfg.spec) (hopen : cfg.rowPolicy = .opened)
    (h : RecoveryInv cfg s) {b : Buf} {i : Nat} {e : Entry K} (hplaced : Placed s b i e)
    (hcand : Candidate cfg (merged s) (mergedBuf b) i e) {onIssue : List (Request Command K)}
    (hserve : s.serveCandidate cfg onIssue b i e = .ok s') : RecoveryInv cfg s' := by
  obtain ⟨stats, p, t, -, hsend, rfl⟩ := serveCandidate_eq_ok hplaced.1 hserve
  have hmid := h.issued hspec hopen hplaced hcand stats p
  exact (prioritySendAll_preserves (recoveryMid_keptBySend hspec b i _) (fun _ _ => trivial) hmid
    hsend).advance

/-! ## Recovery requests that have to wait -/

/-- The recovery requests, by terminal command and address, among which the next tick chooses: those
that are queued, and those that it is about to queue. -/
def PRACConfig.waiting (cfg : Config) (p : PRACConfig) (d : Derived K PRACState) :
    List (Command × AddrVec) :=
  (d.base.bufs .prac).map (fun e => (e.final, e.addrVec)) ++
    if d.own.recoverySetup = false ∧ d.own.recoveryStart.any (· ≤ d.base.clk + 1 + (p.nRP + 5)) then
      (p.recoveryRequests cfg).map fun r : Request Command K => ((Entry.ofRequest 0 r).final, r.addrVec)
    else []

/-- The next command on the way to a terminal command is ready at `clk`, and it would close the bank of
an active request. -/
def Threatens (cfg : Config) (s : ControllerBase K) (clk : Int) (x : Command × AddrVec) : Prop :=
  let c := s.device.getPreqCommand cfg.spec x.1 x.2
  c.commandMeta.isClosing = true ∧ s.device.checkTiming c x.2 clk = true ∧
    ∃ a ∈ s.active, bankOf cfg a ∈ s.device.targetBanks cfg.spec c x.2

/-- The next command of some active request is ready at `clk` and fits in before the recovery. -/
def ActiveGoes (cfg : Config) (p : PRACConfig) (own : PRACState) (s : ControllerBase K) (clk : Int) :
    Prop :=
  ∃ a ∈ s.active,
    s.device.checkTiming (resolve cfg.spec s.device a).cmd a.addrVec clk = true ∧
      p.fits cfg clk own (resolve cfg.spec s.device a) = true

/-- If the call is a tick: whenever a waiting recovery request could close the bank of an active request
at the next clock, some active request could go out then. -/
def RecoveryWaits (cfg : Config) (p : PRACConfig) (d : Derived K PRACState) :
    (ControllerKind.prac p).Call K → Prop
  | .tick _ =>
      ∀ x ∈ p.waiting cfg d, Threatens cfg d.base (d.base.clk + 1) x →
        ActiveGoes cfg p d.own d.base (d.base.clk + 1)
  | _ => True

instance (cfg : Config) (s : ControllerBase K) (clk : Int) (x : Command × AddrVec) :
    Decidable (Threatens cfg s clk x) :=
  inferInstanceAs (Decidable (_ ∧ _ ∧ _))

instance (cfg : Config) (p : PRACConfig) (own : PRACState) (s : ControllerBase K) (clk : Int) :
    Decidable (ActiveGoes cfg p own s clk) :=
  inferInstanceAs (Decidable (∃ a ∈ s.active, _))

instance (cfg : Config) (p : PRACConfig) (d : Derived K PRACState) :
    ∀ c : (ControllerKind.prac p).Call K, Decidable (RecoveryWaits cfg p d c)
  | .tick _ => inferInstanceAs (Decidable (∀ x ∈ p.waiting cfg d, _))
  | .send _ _ => inferInstanceAs (Decidable True)
  | .prioritySend _ => inferInstanceAs (Decidable True)

/-- A command that `would_close_active` objects to visits the bank of an active request. -/
theorem exists_active_of_wouldCloseActive (hcount : ∀ b, s.activePerBank b = activeCount cfg s b)
    {e : Entry K} (h : s.wouldCloseActive cfg e = true) :
    e.cmd.commandMeta.isClosing = true ∧
      ∃ a ∈ s.active, bankOf cfg a ∈ s.device.targetBanks cfg.spec e.cmd e.addrVec := by
  have hactive : ∀ t, s.activePerBank t ≠ 0 → ∃ a ∈ s.active, bankOf cfg a = t := by
    intro t ht
    rw [hcount] at ht
    have hpos : 0 < activeCount cfg s t := by omega
    exact List.mem_map.mp (List.count_pos_iff.mp hpos)
  unfold wouldCloseActive at h
  split_ifs at h with hclosing hempty
  refine ⟨by simpa using hclosing, ?_⟩
  unfold DRAMDevice.targetBanks Standard.targetBanks
  cases htarget : e.cmd.bankTarget with
  | single =>
      simp only [htarget, decide_eq_true_eq] at h
      obtain ⟨a, ha, hbank⟩ := hactive _ (ne_of_gt h)
      exact ⟨a, ha, List.mem_singleton.mpr hbank⟩
  | all =>
      simp only [htarget, List.any_eq_true, Bool.and_eq_true, decide_eq_true_eq] at h
      obtain ⟨i, hi, ⟨hne, -⟩, hmatch⟩ := h
      obtain ⟨a, ha, hbank⟩ := hactive _ hne
      refine ⟨a, ha, List.mem_map.mpr ⟨i, List.mem_filter.mpr ⟨hi, hmatch⟩, hbank.symm⟩⟩
  | sameBank =>
      simp only [htarget, List.any_eq_true, Bool.and_eq_true, decide_eq_true_eq] at h
      obtain ⟨i, hi, ⟨hne, hid⟩, hmatch⟩ := h
      obtain ⟨a, ha, hbank⟩ := hactive _ hne
      refine ⟨a, ha, List.mem_map.mpr ⟨i, List.mem_filter.mpr ⟨hi, ?_⟩, hbank.symm⟩⟩
      simpa [hmatch] using hid

/-- So a recovery request that is chosen closes no bank with an active request, if it had to wait for
the active requests. -/
theorem not_wouldCloseActive_of_waits (hspec : OneStep cfg.spec) (h : RecoveryInv cfg s) {p : PRACConfig}
    {own : PRACState}
    (hwaits : ∀ x ∈ s.bufs .prac, Threatens cfg s s.clk (x.final, x.addrVec) → ActiveGoes cfg p own s s.clk)
    {i : Nat} (hfound : p.schedule cfg own s = (s', some (.prac, i))) {e : Entry K}
    (hchosen : Chosen cfg s' .prac i e) : s.wouldCloseActive cfg e = false := by
  have hres : Resolved s s' := by
    have hsched := pracSchedule_resolved cfg p own s
    rwa [hfound] at hsched
  have hdevice : s'.device = s.device := by rw [hres.rest]
  have hclk : s'.clk = s.clk := by rw [hres.rest]
  by_contra hclose
  have hclose : s.wouldCloseActive cfg e = true := Bool.not_eq_false _ ▸ hclose
  obtain ⟨hclosing, hactive⟩ := exists_active_of_wouldCloseActive h.active.count hclose
  have hcmd := hchosen.cmd
  have htiming := hchosen.timing
  rw [hdevice] at hcmd htiming
  rw [hclk] at htiming
  obtain ⟨x, hx, hbare⟩ := exists_bare_eq (hres.bare .prac) (List.mem_of_getElem? hchosen.getElem)
  obtain ⟨-, -, haddr, -, hfinal, -⟩ := of_bare_eq hbare
  -- an active request could go out, and none was picked
  obtain ⟨a, ha, hready, hfits⟩ : ActiveGoes cfg p own s s.clk := by
    refine hwaits x hx ?_
    rw [← haddr, ← hfinal]
    unfold Threatens
    rw [← hcmd]
    exact ⟨hclosing, htiming, hactive⟩
  have hcol : a.final ∈ columnCommands := (h.active.legal.finals .active a ha).2 (by decide)
  have hnext : (resolve cfg.spec s.device a).cmd = a.final :=
    getPreqCommand_of_openWith hspec hcol (h.active.rowOpen a ha)
  have hlate := not_ready_of_pickBestReadyFrom_none (active_none_of_pracSchedule hfound) ha hnext hfits
  exact absurd (hready.symm.trans hlate) (by decide)

/-! ## Runs -/

theorem recoveryInv_serve (hspec : OneStep cfg.spec) (hopen : cfg.rowPolicy = .opened) {p : PRACConfig}
    {own : PRACState} (h : RecoveryInv cfg s)
    (hwaits : ∀ x ∈ s.bufs .prac, Threatens cfg s s.clk (x.final, x.addrVec) → ActiveGoes cfg p own s s.clk)
    {onIssue : List (Request Command K)} {d : Derived K PRACState} {issued : Option Command}
    (hserve : p.serve cfg onIssue own (p.schedule cfg own s) = .ok (d, issued)) :
    RecoveryInv cfg d.base := by
  have hres := pracSchedule_resolved cfg p own s
  rcases hfound : p.schedule cfg own s with ⟨t, - | ⟨b, i⟩⟩
  all_goals
    rw [hfound] at hres hserve
    have ht := h.resolved hres
  · cases hserve
    exact ht
  · obtain ⟨e, hchosen, hfrom⟩ := pracSchedule_found hfound
    have hplaced : Placed t b i e := by
      refine ⟨hchosen.getElem, ?_⟩
      rintro rfl
      rcases hfrom with ⟨hb, -⟩ | ⟨hb, -⟩ | ⟨-, hempty, -⟩
      · cases hb
      · cases hb
      · exact hempty
    have hcand : Candidate cfg (merged t) (mergedBuf b) i e := by
      refine ⟨⟨hplaced.getElem_merged, hchosen.cmd, hchosen.timing⟩, ?_⟩
      rcases hfrom with ⟨rfl, -⟩ | ⟨rfl, -⟩ | ⟨-, -, -, hclose⟩
      · exact .inl rfl
      · have hclose := not_wouldCloseActive_of_waits hspec h hwaits hfound hchosen
        exact .inr ((hres.wouldCloseActive e).trans hclose)
      · exact .inr hclose
    unfold PRACConfig.serve at hserve
    simp only [hchosen.getElem] at hserve
    obtain ⟨u, hu, heq⟩ := except_map_eq_ok.mp hserve
    cases heq
    exact ht.serveCandidate hspec hopen hplaced hcand hu

/-- What the tick does before its choice leaves the device and the active and the recovery requests
alone. -/
structure BeforeChoice (s s' : ControllerBase K) : Prop where
  clk : s'.clk = s.clk + 1
  device : s'.device = s.device
  active : s'.active = s.active
  prac : s'.bufs .prac = s.bufs .prac

theorem beforeChoice_preTick {inputs : TickInputs K} (h : s.preTick cfg inputs = .ok s') :
    BeforeChoice s s' := by
  have hsend : KeptBySend cfg (fun _ => True) (BeforeChoice s) := by
    intro t req accepted t' _ ht hsend
    obtain ⟨-, rfl | rfl⟩ := prioritySend_eq_ok hsend
    · exact ⟨ht.clk, ht.device, ht.active, ht.prac⟩
    · exact ht
  refine preTick_preserves hsend (fun _ _ => trivial) (fun t p ht => ⟨ht.clk, ht.device, ht.active, ht.prac⟩)
    (fun _ _ => trivial) (fun _ _ => trivial) ?_ h
  obtain ⟨stats, heq, -⟩ := tickPrologue_eq s
  rw [heq]
  exact ⟨rfl, rfl, rfl, rfl⟩

theorem mem_foldl_enqueuePrac {reqs : List (Request Command K)} {e : Entry K}
    (h : e ∈ (reqs.foldl PRACConfig.enqueuePrac s).bufs .prac) :
    e ∈ s.bufs .prac ∨ ∃ r ∈ reqs, (e.final, e.addrVec) = ((Entry.ofRequest 0 r).final, r.addrVec) := by
  induction reqs generalizing s with
  | nil => exact .inl h
  | cons r reqs ih =>
      rcases ih h with hmem | ⟨r', hr', heq⟩
      · unfold PRACConfig.enqueuePrac at hmem
        split_ifs at hmem
        · rw [bufs_setBuf, if_pos rfl, List.mem_append, List.mem_singleton] at hmem
          rcases hmem with hmem | rfl
          · exact .inl hmem
          · exact .inr ⟨r, List.mem_cons_self, rfl⟩
        · exact .inl hmem
      · exact .inr ⟨r', List.mem_cons_of_mem _ hr', heq⟩

theorem foldl_enqueuePrac_frame (reqs : List (Request Command K)) (s : ControllerBase K) :
    (reqs.foldl PRACConfig.enqueuePrac s).clk = s.clk ∧
      (reqs.foldl PRACConfig.enqueuePrac s).device = s.device ∧
      (reqs.foldl PRACConfig.enqueuePrac s).active = s.active := by
  induction reqs generalizing s with
  | nil => exact ⟨rfl, rfl, rfl⟩
  | cons r reqs ih =>
      obtain ⟨hclk, hdevice, hactive⟩ := ih (PRACConfig.enqueuePrac s r)
      have hstep : (PRACConfig.enqueuePrac s r).clk = s.clk ∧
          (PRACConfig.enqueuePrac s r).device = s.device ∧
          (PRACConfig.enqueuePrac s r).active = s.active := by
        unfold PRACConfig.enqueuePrac
        split_ifs <;> exact ⟨rfl, rfl, rfl⟩
      exact ⟨hclk.trans hstep.1, hdevice.trans hstep.2.1, hactive.trans hstep.2.2⟩

/-- What is queued for a recovery at the choice was waiting before the tick. -/
theorem mem_waiting_of_inject {p : PRACConfig} {d : Derived K PRACState} (hbefore : BeforeChoice d.base s)
    {e : Entry K} (he : e ∈ (p.injectRecoveryCommands cfg { d with base := s }).base.bufs .prac) :
    (e.final, e.addrVec) ∈ p.waiting cfg d := by
  unfold PRACConfig.injectRecoveryCommands at he
  unfold PRACConfig.waiting
  rw [List.mem_append, ← hbefore.prac, ← hbefore.clk]
  split_ifs at he with hdue
  · rw [if_pos hdue]
    rcases mem_foldl_enqueuePrac he with hmem | ⟨r, hr, heq⟩
    · exact .inl (List.mem_map.mpr ⟨e, hmem, rfl⟩)
    · exact .inr (List.mem_map.mpr ⟨r, hr, heq.symm⟩)
  · exact .inl (List.mem_map.mpr ⟨e, he, rfl⟩)

/-- The condition on the state before the tick, at its choice. -/
theorem RecoveryWaits.atChoice {p : PRACConfig} {d : Derived K PRACState} {inputs : TickInputs K}
    (hwaits : RecoveryWaits cfg p d (.tick inputs)) (hpre : d.base.preTick cfg inputs = .ok s) :
    let t := p.injectRecoveryCommands cfg { d with base := s }
    ∀ x ∈ t.base.bufs .prac, Threatens cfg t.base t.base.clk (x.final, x.addrVec) →
      ActiveGoes cfg p t.own t.base t.base.clk := by
  intro t x hx hthreat
  have hbefore := beforeChoice_preTick hpre
  obtain ⟨hclk, hdevice, hactive, hstart⟩ : t.base.clk = d.base.clk + 1 ∧ t.base.device = d.base.device ∧
      t.base.active = d.base.active ∧ t.own.recoveryStart = d.own.recoveryStart := by
    simp only [t]
    unfold PRACConfig.injectRecoveryCommands
    split_ifs
    · obtain ⟨hc, hd, ha⟩ := foldl_enqueuePrac_frame (p.recoveryRequests cfg) s
      exact ⟨hc.trans hbefore.clk, hd.trans hbefore.device, ha.trans hbefore.active, rfl⟩
    · exact ⟨hbefore.clk, hbefore.device, hbefore.active, rfl⟩
  have hgoes := hwaits _ (mem_waiting_of_inject hbefore hx)
  unfold Threatens ActiveGoes PRACConfig.fits at *
  rw [hclk, hdevice, hactive] at hthreat
  rw [hclk, hdevice, hactive, hstart]
  exact hgoes hthreat

theorem recoveryInv_call (hspec : OneStep cfg.spec) (hopen : cfg.rowPolicy = .opened) {p : PRACConfig}
    {d d' : Derived K PRACState} {c : (ControllerKind.prac p).Call K} (h : RecoveryInv cfg d.base)
    (hwaits : RecoveryWaits cfg p d c) (hcall : (ControllerKind.prac p).call cfg c d = .ok d') :
    RecoveryInv cfg d'.base := by
  cases c with
  | send apply req =>
      obtain ⟨⟨accepted, req', t⟩, ht, rfl⟩ := except_map_eq_ok.mp hcall
      exact h.send hspec ht
  | prioritySend req =>
      obtain ⟨⟨accepted, t⟩, ht, rfl⟩ := except_map_eq_ok.mp hcall
      exact recoveryInv_keptBySend hspec d.base req accepted t trivial h ht
  | tick inputs =>
      obtain ⟨s₁, hpre, htick⟩ := except_bind_eq_ok.mp hcall
      obtain ⟨⟨d₂, issued⟩, hserve, htick⟩ := except_bind_eq_ok.mp htick
      obtain ⟨s₃, hpost, htick⟩ := except_bind_eq_ok.mp htick
      cases htick
      have h₁ : RecoveryInv cfg (p.injectRecoveryCommands cfg { d with base := s₁ }).base :=
        RecoveryInv.injectRecoveryCommands (h.preTick hspec hpre)
      have h₂ := recoveryInv_serve hspec hopen h₁ (hwaits.atChoice hpre) hserve
      exact prioritySendAll_preserves (recoveryInv_keptBySend hspec) (fun _ _ => trivial) h₂ hpost

/-- The next command of a recovery request is no column command. -/
theorem getPreqCommand_recovery (hspec : OneStep cfg.spec) (h : RecoveryInv cfg s) {e : Entry K}
    (he : e ∈ s.bufs .prac) : s.device.getPreqCommand cfg.spec e.final e.addrVec ∉ columnCommands := by
  obtain ⟨hone, hnot⟩ := of_mem_recoveryCommands (h.finals e he)
  rcases getPreqCommand_oneStep hspec h.active.legal.banks hone e.addrVec with
    ⟨hr, -⟩ | ⟨hr, -⟩ | ⟨-, hcol, -⟩ | ⟨hr, href, -⟩ | ⟨hr, hclock⟩ | hpre
  · exact fun hcol => absurd (hr ▸ hcol) (by decide)
  · exact fun hcol => absurd (hr ▸ hcol) (by decide)
  · exact absurd hcol hnot
  · exact fun hcol => (of_mem_refreshCommands href).2.2 (hr ▸ hcol)
  · exact fun hcol => (of_mem_clockCommands hclock).2.2.1 (hr ▸ hcol)
  · exact (of_mem_prechargeCommands hpre).2.2.1

/-- In every run in which, whenever a waiting recovery request could close the bank of an active request,
some active request can go out instead: the counters are exact; no closing command is issued to a bank
with an active request, except that the column command of an active request may close its own, which no
recovery request ever issues; and once no request is active every counter is zero and no command is held
back. -/
theorem recovery_closes_no_active (cfg : Config) (hspec : OneStep cfg.spec)
    (hopen : cfg.rowPolicy = .opened) (p : PRACConfig) (d : Derived K PRACState)
    (hd : (ControllerKind.prac p).ReachedIf cfg (RecoveryWaits cfg p) d) :
    (∀ b, d.base.activePerBank b = activeCount cfg d.base b) ∧
      (∀ ev ∈ d.base.log, ClosesOwnColumn ev) ∧
      (∀ e ∈ d.base.bufs .prac,
        d.base.device.getPreqCommand cfg.spec e.final e.addrVec ∉ columnCommands) ∧
      (d.base.active = [] →
        (∀ b, d.base.activePerBank b = 0) ∧ ∀ e, d.base.wouldCloseActive cfg e = false) := by
  have hinv : RecoveryInv cfg d.base := by
    refine Reachable.invariant (fun d : Derived K PRACState => RecoveryInv cfg d.base)
      recoveryInv_init ?_ hd
    rintro t c t' ht ⟨hwaits, hcall⟩
    exact recoveryInv_call hspec hopen ht hwaits hcall
  have hcount : ∀ b, d.base.activePerBank b = activeCount cfg d.base b := hinv.active.count
  refine ⟨hcount, hinv.log, fun e he => getPreqCommand_recovery hspec hinv he, fun hempty => ⟨?_, ?_⟩⟩
  · intro b
    rw [hcount, activeCount, hempty]
    rfl
  · intro e
    unfold wouldCloseActive
    rw [hempty]
    simp

/-! ## A small instance

The small DDR instance with refresh management for all banks; a single activation raises the alert. -/

def smallRFMTimingCons (level : Nat) (c : Command) : List (TimingConsEntry Command) :=
  match level, c with
  | 1, .ACT => [{ cmd := .PREab, val := 5 }]
  | 1, .RD => [{ cmd := .PREab, val := 3 }]
  | 1, .PREab => [{ cmd := .ACT, val := 2 }, { cmd := .RFMab, val := 2 }]
  | 1, .RFMab => [{ cmd := .ACT, val := 3 }, { cmd := .RFMab, val := 3 }]
  | _, _ => smallTimingCons level c

def smallRFM : Standard :=
  { smallDDR with
    commands_complete := Command.mem_all
    timingCons := smallRFMTimingCons
    supports := fun c => c ∈ [Command.ACT, .PREpb, .PREab, .RD, .WR, .RDA, .WRA, .REFab, .RFMab] }

def smallRFMConfig : Config := { smallConfig with spec := smallRFM, rowPolicy := .opened }

theorem isDDR_smallRFM : IsDDR smallRFM where
  supports := fun c hc => by
    revert hc
    cases c <;> decide
  readCommand := rfl
  writeCommand := rfl

/-- A read of the small row and some ticks. -/
def smallReadCalls (p : PRACConfig) (ticks : Nat) : List ((ControllerKind.prac p).Call Unit) :=
  .send (fun _ => smallRow) (Request.ofAddr 64 Request.read) ::
    List.replicate ticks (.tick ({} : TickInputs Unit))

/-- A recovery with enough time before it: the read is served, the banks are closed and managed. -/
theorem recovery_closes_no_active_small : ∃ d : Derived Unit PRACState,
    (ControllerKind.prac (smallPRAC 20)).ReachedIf smallRFMConfig
      (RecoveryWaits smallRFMConfig (smallPRAC 20)) d ∧
    (d.base.log.filterMap fun ev =>
      match ev with
      | .issued _ c _ _ _ => some c
      | _ => none) = [.ACT, .RD, .PREab, .RFMab] ∧
    (∀ ev ∈ d.base.log, ClosesOwnColumn ev) ∧ ∀ b, d.base.activePerBank b = 0 := by
  have hrun : (ControllerKind.prac (smallPRAC 20)).watch smallRFMConfig
      (fun (d : Derived Unit PRACState) c => decide (RecoveryWaits smallRFMConfig (smallPRAC 20) d c))
      (smallReadCalls (smallPRAC 20) 22)
      (fun d : Derived Unit PRACState =>
        (d.base.log.filterMap fun ev =>
          match ev with
          | .issued _ c _ _ _ => some c
          | _ => none, d.base.active.length)) =
      .ok ([.ACT, .RD, .PREab, .RFMab], 0) := by
    decide +kernel
  obtain ⟨d, hreach, hobs⟩ :=
    ControllerKind.reachedIf_of_watch (fun (_ : Derived Unit PRACState) _ h => of_decide_eq_true h) hrun
  obtain ⟨hcmds, hactive⟩ := Prod.mk.inj hobs
  obtain ⟨-, hlog, -, hzero⟩ :=
    recovery_closes_no_active smallRFMConfig isDDR_smallRFM.oneStep rfl (smallPRAC 20) d hreach
  exact ⟨d, hreach, hcmds, hlog, (hzero (List.length_eq_zero_iff.mp hactive)).1⟩

/-- An alert that leaves six cycles: the read is activated but may not be issued before the recovery,
whose precharge closes its row; it is activated again, promoted from the active buffer into itself, and
served, and one count of its bank is left. -/
theorem recovery_closes_active_row : IsDDR smallRFMConfig.spec ∧ ∃ d : Derived Unit PRACState,
    (ControllerKind.prac (smallPRAC 6)).Reached smallRFMConfig d ∧
      (∃ ev ∈ d.base.log, ¬ ClosesOwnColumn ev) ∧
      d.base.active = [] ∧ d.base.read = [] ∧ d.base.write = [] ∧
      d.base.activePerBank 0 ≠ activeCount smallRFMConfig d.base 0 ∧ d.base.activePerBank 0 ≠ 0 := by
  have hrun : (ControllerKind.prac (smallPRAC 6)).watch smallRFMConfig (fun _ _ => true)
      (smallReadCalls (smallPRAC 6) 10)
      (fun d : Derived Unit PRACState =>
        (d.base.log.filter isIssue, d.base.active.length, d.base.read.length, d.base.write.length,
          d.base.activePerBank 0)) =
      .ok ([.issued 0 .ACT smallRow [(0, ⟨.closed, []⟩)] [],
        .issued 1 .PREab [0, 0, -1, -1, 0, 0] [(0, ⟨.opened, [5]⟩), (1, ⟨.closed, []⟩)] [(0, 0)],
        .issued 0 .ACT smallRow [(0, ⟨.closed, []⟩)] [(0, 0)],
        .issued 0 .RD smallRow [(0, ⟨.opened, [5]⟩)] [(0, 0)]], 0, 0, 0, 1) := by
    decide +kernel
  obtain ⟨d, hreach, hobs⟩ := ControllerKind.reachedIf_of_watch (fun _ _ _ => trivial) hrun
  simp only [Prod.mk.injEq, List.length_eq_zero_iff] at hobs
  obtain ⟨hlog, hactive, hread, hwrite, hcount⟩ := hobs
  refine ⟨isDDR_smallRFM, d, hreach.mono fun _ _ _ h => h.2,
    ⟨.issued 1 .PREab [0, 0, -1, -1, 0, 0] [(0, ⟨.opened, [5]⟩), (1, ⟨.closed, []⟩)] [(0, 0)], ?_, ?_⟩,
    hactive, hread, hwrite, ?_, ?_⟩
  · refine List.mem_of_mem_filter (p := isIssue) ?_
    rw [hlog]
    simp
  · intro hcloses
    exact absurd (hcloses rfl _ List.mem_cons_self _ List.mem_cons_self rfl).2 (by decide)
  · rw [hcount, activeCount, hactive]
    decide
  · rw [hcount]
    decide

end Ramulator.Controller
