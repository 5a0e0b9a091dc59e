/-
# Ramulator.Controller.Scheduler — the two request schedulers and candidate selection.

`get_best_request` of FRFCFS and of FRFCFS-RowHit (`controller/scheduler/impl/`): both resolve the
next command of every request in the buffer, then scan the buffer once, keeping the best eligible
request. The row-hit scheduler makes one more class of requests ineligible: those that would close a
row which an earlier request still hits. On top of it stand the selection helpers of the controller
base.
-/
import Ramulator.Controller.Base

namespace Ramulator.Controller

open Ramulator.Base (Request)
open Ramulator.Dram

variable {K : Type}

/-! ## Schedulers -/

/-- Derive the next command of a request from the state of its banks. -/
def resolve (spec : Standard) (d : DRAMDevice) (e : Entry K) : Entry K :=
  { e with command := some (d.getPreqCommand spec e.final e.addrVec) }

/-- The incumbent of a scan: its place in the buffer, the request, and whether its timing is met. -/
structure Incumbent (K : Type) where
  index : Nat
  entry : Entry K
  timingOk : Bool

/-- One iteration of the scan: an eligible request replaces the incumbent if only its timing is met,
or if both are alike and it arrived earlier. -/
def challenge (eligible timingOk : Entry K → Bool) (incumbent : Option (Incumbent K))
    (challenger : Entry K × Nat) : Option (Incumbent K) :=
  let (e, i) := challenger
  if eligible e = false then incumbent
  else
    match incumbent with
    | none => some ⟨i, e, timingOk e⟩
    | some c =>
        if c.timingOk ≠ timingOk e then
          if timingOk e then some ⟨i, e, true⟩ else some c
        else if e.arrive < c.entry.arrive then some ⟨i, e, c.timingOk⟩
        else some c

/-- The scan over a buffer. -/
def scan (eligible timingOk : Entry K → Bool) (buf : List (Entry K)) : Option (Incumbent K) :=
  buf.zipIdx.foldl (challenge eligible timingOk) none

/-- The earliest arrival among the row hits of each bank (`m_bank_rowhit_flags`, `.._arrivals`). -/
def rowhitArrivals (spec : Standard) (d : DRAMDevice) (buf : List (Entry K)) : Int → Option Int :=
  buf.foldl
    (fun arrivals e =>
      let bank := spec.flatBankId e.addrVec
      if d.checkRowbufferHit spec e.final e.addrVec && 0 ≤ bank && bank < spec.bankCount then
        match arrivals bank with
        | none => Function.update arrivals bank (some e.arrive)
        | some t => if e.arrive < t then Function.update arrivals bank (some e.arrive) else arrivals
      else arrivals)
    (fun _ => none)

/-- `would_preempt_rowhit`. -/
def wouldPreemptRowhit (spec : Standard) (arrivals : Int → Option Int) (e : Entry K) : Bool :=
  if e.cmd.commandMeta.isClosing = false then false
  else if e.cmd = e.final then false
  else if e.cmd.bankTarget ≠ .single then false
  else
    match arrivals (spec.flatBankId e.addrVec) with
    | none => false
    | some t => t ≤ e.arrive

/-- `get_best_request`: the buffer with every next command resolved, and the chosen request with its
index. -/
def getBestRequest (cfg : Config) (d : DRAMDevice) (clk : Int) (filter : Entry K → Bool)
    (buf : List (Entry K)) : List (Entry K) × Option (Incumbent K) :=
  let buf := buf.map (resolve cfg.spec d)
  let timingOk := fun e : Entry K => d.checkTiming e.cmd e.addrVec clk
  match cfg.scheduler with
  | .frfcfs => (buf, scan filter timingOk buf)
  | .frfcfsRowHit =>
      let arrivals := rowhitArrivals cfg.spec d buf
      (buf, scan (fun e => filter e && !wouldPreemptRowhit cfg.spec arrivals e) timingOk buf)

/-! ## Candidate selection -/

namespace ControllerBase

/-- `pick_best_ready_from`: the index of the candidate, if its timing is met. -/
def pickBestReadyFrom (cfg : Config) (b : Buf) (filter : Entry K → Bool) (s : ControllerBase K) :
    ControllerBase K × Option Nat :=
  let (buf, best) := getBestRequest cfg s.device s.clk filter (s.bufs b)
  let s := s.setBuf b buf
  match best with
  | none => (s, none)
  | some c =>
      if s.device.checkTiming c.entry.cmd c.entry.addrVec s.clk then (s, some c.index) else (s, none)

/-- `pick_priority_if`: only the first priority request is looked at. -/
def pickPriorityIf (cfg : Config) (filter : Entry K → Bool) (s : ControllerBase K) :
    ControllerBase K × Bool :=
  match s.priority with
  | [] => (s, false)
  | e :: rest =>
      let e := resolve cfg.spec s.device e
      let s := s.setBuf .priority (e :: rest)
      (s, s.device.checkTiming e.cmd e.addrVec s.clk && !s.wouldCloseActive cfg e && filter e)

/-- `pick_rw_if`. -/
def pickRwIf (cfg : Config) (filter : Entry K → Bool) (s : ControllerBase K) :
    ControllerBase K × Option (Buf × Nat) :=
  let s := s.setWriteMode cfg
  let b := if s.isWriteMode then Buf.write else Buf.read
  let (s', c) := s.pickBestReadyFrom cfg b fun e => !s.wouldCloseActive cfg e && filter e
  (s', c.map fun i => (b, i))

end ControllerBase

/-! ## What a scan returns -/

/-- The incumbent stands where the scan found it, and was eligible. -/
def Incumbent.Sound (eligible timingOk : Entry K → Bool) (buf : List (Entry K)) (c : Incumbent K) :
    Prop :=
  buf[c.index]? = some c.entry ∧ eligible c.entry = true ∧ c.timingOk = timingOk c.entry

theorem challenge_sound {eligible timingOk : Entry K → Bool} {buf : List (Entry K)} {e : Entry K}
    {i : Nat} (hi : buf[i]? = some e) {incumbent : Option (Incumbent K)}
    (hinc : ∀ c, incumbent = some c → c.Sound eligible timingOk buf) (c : Incumbent K)
    (hc : challenge eligible timingOk incumbent (e, i) = some c) :
    c.Sound eligible timingOk buf := by
  unfold challenge at hc
  cases hel : eligible e with
  | false => exact hinc c (by simpa [hel] using hc)
  | true =>
      cases incumbent with
      | none =>
          obtain rfl : _ = c := by simpa [hel] using hc
          exact ⟨hi, hel, rfl⟩
      | some c₀ =>
          have h₀ := hinc c₀ rfl
          simp only [hel, Bool.true_eq_false, if_false] at hc
          split_ifs at hc with hne hok hlt
          · obtain rfl : _ = c := by simpa using hc
            exact ⟨hi, hel, hok.symm⟩
          · obtain rfl : c₀ = c := by simpa using hc
            exact h₀
          · obtain rfl : _ = c := by simpa using hc
            exact ⟨hi, hel, by simpa using hne⟩
          · obtain rfl : c₀ = c := by simpa using hc
            exact h₀

theorem scan_sound {eligible timingOk : Entry K → Bool} {buf : List (Entry K)} {c : Incumbent K}
    (h : scan eligible timingOk buf = some c) : c.Sound eligible timingOk buf := by
  have hfold : ∀ (l : List (Entry K × Nat)) (incumbent : Option (Incumbent K)),
      (∀ x ∈ l, buf[x.2]? = some x.1) →
      (∀ c, incumbent = some c → c.Sound eligible timingOk buf) →
      ∀ c, l.foldl (challenge eligible timingOk) incumbent = some c →
        c.Sound eligible timingOk buf := by
    intro l
    induction l with
    | nil => exact fun _ _ hinc => hinc
    | cons x l ih =>
        intro incumbent hl hinc
        refine ih _ (fun y hy => hl y (List.mem_cons_of_mem _ hy)) ?_
        exact challenge_sound (hl x List.mem_cons_self) hinc
  refine hfold buf.zipIdx none ?_ (by simp) c h
  rintro ⟨e, i⟩ hx
  simpa using List.mem_zipIdx_iff_getElem?.mp hx

/-- Both schedulers resolve the whole buffer and return one of its eligible requests. -/
theorem getBestRequest_spec (cfg : Config) (d : DRAMDevice) (clk : Int) (filter : Entry K → Bool)
    (buf : List (Entry K)) :
    (getBestRequest cfg d clk filter buf).1 = buf.map (resolve cfg.spec d) ∧
      ∀ c, (getBestRequest cfg d clk filter buf).2 = some c →
        (buf.map (resolve cfg.spec d))[c.index]? = some c.entry ∧ filter c.entry = true := by
  unfold getBestRequest
  cases cfg.scheduler with
  | frfcfs =>
      refine ⟨rfl, fun c hc => ?_⟩
      obtain ⟨hi, hel, -⟩ := scan_sound hc
      exact ⟨hi, hel⟩
  | frfcfsRowHit =>
      refine ⟨rfl, fun c hc => ?_⟩
      obtain ⟨hi, hel, -⟩ := scan_sound hc
      simp only [Bool.and_eq_true] at hel
      exact ⟨hi, hel.1⟩

end Ramulator.Controller
