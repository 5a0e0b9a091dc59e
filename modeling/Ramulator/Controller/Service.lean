/-
# Ramulator.Controller.Service — every accepted request is served exactly once.

A request is copied between the buffers, the pending reads and the outside. The bookkeeping is done on
admission numbers: the number of a read for which `send` returned true is found exactly once in the read
buffer, in the active buffer, among the pending reads and in the completions of the log, and likewise for
writes. Completions come on time and in the order of the pending queue.

`priority_send` takes requests of any type but counts direct commands only, so a request of another type
that goes through it is served without having been counted. The statistics balance in the runs in which it
is given direct commands.
-/
import Ramulator.Controller.Steps
import Mathlib.Data.List.TakeWhile

namespace Ramulator.Controller

open Ramulator.Base (Request)
open Ramulator.Dram Ramulator.Lib ControllerBase

variable {K : Type}

/-! ## What the log says -/

/-- The number of an accepted request. -/
def acceptance : Event → Option Nat
  | .accepted uid _ _ _ => some uid
  | _ => none

def readAcceptance : Event → Option Nat
  | .accepted uid typeId _ _ => if typeId = Request.read then some uid else none
  | _ => none

def writeAcceptance : Event → Option Nat
  | .accepted uid typeId _ _ => if typeId = Request.write then some uid else none
  | _ => none

def readCompletion : Event → Option Nat
  | .completedRead uid _ _ _ _ => some uid
  | _ => none

def writeCompletion : Event → Option Nat
  | .completedWrite uid _ _ => some uid
  | _ => none

/-- A departure notification. -/
def departure : Event → Option (Nat × Int)
  | .departureScheduled uid depart => some (uid, depart)
  | _ => none

/-- A completed request with its departure. -/
def completion : Event → Option (Nat × Int)
  | .completedRead uid _ depart _ _ => some (uid, depart)
  | .completedWrite uid clk _ => some (uid, clk)
  | _ => none

/-- The place of a completed read in the pending queue. -/
def completionOrder : Event → Option (Int × Nat)
  | .completedRead _ _ depart sequence _ => some (depart, sequence)
  | _ => none

/-- The order of the pending queue. -/
def Earlier (a b : Int × Nat) : Prop := a.1 < b.1 ∨ (a.1 = b.1 ∧ a.2 < b.2)

/-- Reads complete at the tick of their departure. -/
def OnTime : Event → Prop
  | .completedRead _ clk depart _ _ => clk = depart
  | _ => True

/-! ## Requests in the buffers -/

def isRead (e : Entry K) : Bool := e.typeId == Request.read

def isWrite (e : Entry K) : Bool := e.typeId == Request.write

/-- The number of requests in the buffers that satisfy `p`. -/
def inBufs (p : Entry K → Bool) (s : ControllerBase K) : Nat :=
  (s.bufs .active).countP p + (s.bufs .priority).countP p + (s.bufs .read).countP p +
    (s.bufs .write).countP p + (s.bufs .activating).countP p + (s.bufs .prac).countP p

/-- The request of type `t` with number `u`. -/
def tagged (t : Int) (u : Nat) (e : Entry K) : Bool := e.typeId == t && e.uid == u

variable {cfg : Config} {s s' : ControllerBase K}

theorem inBufs_setBuf (p : Entry K → Bool) (b : Buf) (l : List (Entry K)) (s : ControllerBase K) :
    inBufs p (s.setBuf b l) + (s.bufs b).countP p = inBufs p s + l.countP p := by
  cases b <;> simp [inBufs] <;> omega

theorem inBufs_append (p : Entry K → Bool) (b : Buf) (e : Entry K) (s : ControllerBase K) :
    inBufs p (s.setBuf b (s.bufs b ++ [e])) = inBufs p s + if p e then 1 else 0 := by
  have h := inBufs_setBuf p b (s.bufs b ++ [e]) s
  rw [List.countP_append, List.countP_singleton] at h
  omega

theorem inBufs_removeAt (p : Entry K → Bool) {b : Buf} {i : Nat} {e : Entry K}
    (hi : (s.bufs b)[i]? = some e) :
    inBufs p (s.removeAt b i) + (if p e then 1 else 0) = inBufs p s := by
  have h := inBufs_setBuf p b ((s.bufs b).eraseIdx i) s
  have herase := countP_eraseIdx p hi
  unfold removeAt
  omega

theorem inBufs_congr {p : Entry K → Bool} (h : s'.bufs = s.bufs) : inBufs p s' = inBufs p s := by
  unfold inBufs
  rw [h]

theorem inBufs_issued (p : Entry K → Bool) {b : Buf} {i : Nat} {e e' : Entry K}
    (hi : (s.bufs b)[i]? = some e) (hp : p e' = p e) (stats : Stats) (rp : RowPolicyState) :
    inBufs p (s.issued cfg b i e' stats rp) = inBufs p s := by
  have h := inBufs_setBuf p b ((s.bufs b).set i e') s
  have hset := countP_set_of_eq p hi hp
  have hcongr : inBufs p (s.issued cfg b i e' stats rp) =
      inBufs p (s.setBuf b ((s.bufs b).set i e')) := inBufs_congr rfl
  omega

theorem inBufs_resolved {p : Entry K → Bool} (hp : ∀ e, p (bare e) = p e) (hres : Resolved s s') :
    inBufs p s' = inBufs p s := by
  have hbuf : ∀ b, (s'.bufs b).countP p = (s.bufs b).countP p := by
    intro b
    have h := congrArg (List.countP p) (hres.bare b)
    rwa [List.countP_map, List.countP_map, show p ∘ bare = p from funext hp] at h
  unfold inBufs
  rw [hbuf, hbuf, hbuf, hbuf, hbuf, hbuf]

/-! ## The pending queue -/

/-- The pending reads in order, each with its departure ahead. -/
structure PendingOk (s : ControllerBase K) : Prop where
  sorted : s.pending.Pairwise fun p q => p.before q = true
  ahead : ∀ p ∈ s.pending, s.clk < p.depart
  sequence : ∀ p ∈ s.pending, p.sequence < s.pendingSequence

/-- If `f` fails from some point of a sorted list on, `dropWhile` leaves only failures. -/
theorem dropWhile_all_not {α : Type} {R : α → α → Prop} {f : α → Bool} {l : List α}
    (hl : l.Pairwise R) (hf : ∀ a b, R a b → f a = false → f b = false) :
    ∀ x ∈ l.dropWhile f, f x = false := by
  intro x hx
  have hhead := List.head?_dropWhile_not f l
  have hdrop := hl.sublist (List.dropWhile_sublist f)
  cases hd : l.dropWhile f with
  | nil => simp [hd] at hx
  | cons a rest =>
      rw [hd] at hx hhead hdrop
      rcases List.mem_cons.mp hx with rfl | hx
      · exact hhead
      · exact hf a x ((List.pairwise_cons.mp hdrop).1 x hx) hhead

theorem before_iff {p q : PendingRead K} :
    p.before q = true ↔ Earlier (p.depart, p.sequence) (q.depart, q.sequence) := by
  simp [PendingRead.before, Earlier]

theorem pushPending_perm (e : Entry K) (s : ControllerBase K) :
    (s.pushPending e).pending.Perm (⟨e.depart, s.pendingSequence, e⟩ :: s.pending) := by
  unfold pushPending
  refine List.perm_middle.trans (List.Perm.cons _ ?_)
  rw [List.takeWhile_append_dropWhile]

/-- The queue stays in order: a new read has the highest sequence number. -/
theorem pushPending_sorted (h : PendingOk s) (e : Entry K) :
    (s.pushPending e).pending.Pairwise fun p q => p.before q = true := by
  unfold pushPending
  dsimp only
  generalize hp : (⟨e.depart, s.pendingSequence, e⟩ : PendingRead K) = p
  have hseq : ∀ q ∈ s.pending, q.sequence < p.sequence := by
    rw [← hp]
    exact h.sequence
  have hsplit := h.sorted
  rw [← List.takeWhile_append_dropWhile (p := (·.before p)) (l := s.pending)] at hsplit
  obtain ⟨htake, hdrop, hcross⟩ := List.pairwise_append.mp hsplit
  have hlow : ∀ q ∈ s.pending.takeWhile (·.before p), q.before p = true := by
    intro q hq
    have := List.mem_takeWhile_imp hq
    exact this
  -- what is not before the new read comes after it
  have hhigh : ∀ q ∈ s.pending.dropWhile (·.before p), p.before q = true := by
    intro q hq
    have hnot := dropWhile_all_not (f := (·.before p)) h.sorted (fun a b hab ha => by
      rw [← Bool.not_eq_true, before_iff] at ha ⊢
      rw [before_iff] at hab
      unfold Earlier at ha hab ⊢
      simp only at ha hab ⊢
      omega) q hq
    have hlt := hseq q ((List.dropWhile_sublist _).subset hq)
    rw [← Bool.not_eq_true, before_iff] at hnot
    rw [before_iff]
    unfold Earlier at hnot ⊢
    simp only at hnot ⊢
    omega
  refine List.pairwise_append.mpr ⟨htake, List.pairwise_cons.mpr ⟨hhigh, hdrop⟩, ?_⟩
  intro q hq r hr
  rcases List.mem_cons.mp hr with rfl | hr
  · exact hlow q hq
  · exact hcross q hq r hr

theorem PendingOk.push (h : PendingOk s) {e : Entry K} (he : s.clk < e.depart) :
    PendingOk (s.pushPending e) := by
  have hmem : ∀ p, p ∈ (s.pushPending e).pending →
      p = ⟨e.depart, s.pendingSequence, e⟩ ∨ p ∈ s.pending := by
    intro p hp
    exact List.mem_cons.mp ((pushPending_perm e s).mem_iff.mp hp)
  refine ⟨pushPending_sorted h e, fun p hp => ?_, fun p hp => ?_⟩
  · rcases hmem p hp with rfl | hp
    · exact he
    · exact h.ahead p hp
  · rcases hmem p hp with rfl | hp
    · exact Nat.lt_succ_self _
    · exact Nat.lt_succ_of_lt (h.sequence p hp)

/-! ## The invariant -/

/-- What a buffer holds: the read and the write buffer hold accepted requests of their type, the priority
buffer none that was accepted, and the buffers of other controllers stay empty. With `strict` the priority
buffer holds direct commands only. -/
def TypeOk (strict : Prop) (s : ControllerBase K) (b : Buf) (e : Entry K) : Prop :=
  match b with
  | .active => True
  | .priority =>
      e.uid < s.nextUid ∧ e.uid ∉ s.log.filterMap acceptance ∧ (strict → e.typeId = -1)
  | .read => e.typeId = Request.read
  | .write => e.typeId = Request.write
  | .activating | .prac => False

variable {strict : Prop}

theorem TypeOk.congr {b : Buf} {e e' : Entry K} (h : TypeOk strict s b e) (huid : e'.uid = e.uid)
    (htype : e'.typeId = e.typeId) : TypeOk strict s b e' := by
  unfold TypeOk at h ⊢
  rwa [huid, htype]

/-- The numbers that the books are kept for: those of accepted requests and those still to come; with
`strict` all of them. -/
def Tracked (strict : Prop) (s : ControllerBase K) (u : Nat) : Prop :=
  strict ∨ u ∈ s.log.filterMap acceptance ∨ s.nextUid ≤ u

structure ServiceInv (strict : Prop) (s : ControllerBase K) : Prop where
  reads : ∀ u, Tracked strict s u → (s.log.filterMap readAcceptance).count u =
    inBufs (tagged Request.read u) s + s.pending.countP (·.req.uid == u) +
      (s.log.filterMap readCompletion).count u
  writes : ∀ u, Tracked strict s u → (s.log.filterMap writeAcceptance).count u =
    inBufs (tagged Request.write u) s + (s.log.filterMap writeCompletion).count u
  departures : ∀ d, (s.log.filterMap departure).count d =
    s.pending.countP (fun p => (p.req.uid, p.depart) == d) + (s.log.filterMap completion).count d
  types : ∀ b, ∀ e ∈ s.bufs b, TypeOk strict s b e
  fresh : ∀ u ∈ s.log.filterMap acceptance, u < s.nextUid
  distinct : (s.log.filterMap acceptance).Nodup
  pending : PendingOk s
  order : (s.log.filterMap completionOrder).Pairwise Earlier
  past : ∀ c ∈ s.log.filterMap completionOrder, c.1 ≤ s.clk
  onTime : ∀ ev ∈ s.log, OnTime ev
  numReads : s.stats.numReadReqs = (s.log.filterMap readAcceptance).length
  numReadsServed : s.stats.numReadReqsServed = (s.log.filterMap readCompletion).length
  numWrites : s.stats.numWriteReqs = (s.log.filterMap writeAcceptance).length
  numWritesServed : s.stats.numWriteReqsServed + s.stats.numWriteReqsCoalesced =
    (s.log.filterMap writeCompletion).length

/-- The balance of a step that logs `evs`: what it accepts, it puts somewhere, and what it completes or
announces, it takes from somewhere. -/
structure Balanced (strict : Prop) (s s' : ControllerBase K) (evs : List Event) : Prop where
  log : s'.log = s.log ++ evs
  reads : ∀ u, Tracked strict s' u → (evs.filterMap readAcceptance).count u + inBufs (tagged Request.read u) s +
    s.pending.countP (·.req.uid == u) = inBufs (tagged Request.read u) s' +
      s'.pending.countP (·.req.uid == u) + (evs.filterMap readCompletion).count u
  writes : ∀ u, Tracked strict s' u → (evs.filterMap writeAcceptance).count u + inBufs (tagged Request.write u) s =
    inBufs (tagged Request.write u) s' + (evs.filterMap writeCompletion).count u
  departures : ∀ d, (evs.filterMap departure).count d +
    s.pending.countP (fun p => (p.req.uid, p.depart) == d) =
      s'.pending.countP (fun p => (p.req.uid, p.depart) == d) + (evs.filterMap completion).count d
  fresh : (evs.filterMap acceptance = [] ∧ s.nextUid ≤ s'.nextUid) ∨
    (evs.filterMap acceptance = [s.nextUid] ∧ s'.nextUid = s.nextUid + 1)
  clk : s.clk ≤ s'.clk
  order : (evs.filterMap completionOrder).Pairwise Earlier
  window : ∀ c ∈ evs.filterMap completionOrder, s.clk < c.1 ∧ c.1 ≤ s'.clk
  onTime : ∀ ev ∈ evs, OnTime ev
  numReads : s'.stats.numReadReqs = s.stats.numReadReqs + (evs.filterMap readAcceptance).length
  numReadsServed : s'.stats.numReadReqsServed =
    s.stats.numReadReqsServed + (evs.filterMap readCompletion).length
  numWrites : s'.stats.numWriteReqs = s.stats.numWriteReqs + (evs.filterMap writeAcceptance).length
  numWritesServed : s'.stats.numWriteReqsServed + s'.stats.numWriteReqsCoalesced =
    s.stats.numWriteReqsServed + s.stats.numWriteReqsCoalesced +
      (evs.filterMap writeCompletion).length

/-- What the books are kept for after a step they were kept for before. -/
theorem Balanced.tracked {evs : List Event} (hstep : Balanced strict s s' evs) {u : Nat}
    (hu : Tracked strict s' u) : Tracked strict s u := by
  rcases hu with hstrict | hmem | hlate
  · exact .inl hstrict
  · rw [hstep.log, List.filterMap_append, List.mem_append] at hmem
    rcases hmem with hmem | hmem
    · exact .inr (.inl hmem)
    · rcases hstep.fresh with ⟨hnone, -⟩ | ⟨hone, -⟩
      · rw [hnone] at hmem
        exact absurd hmem List.not_mem_nil
      · rw [hone, List.mem_singleton] at hmem
        exact .inr (.inr hmem.ge)
  · rcases hstep.fresh with ⟨-, huid⟩ | ⟨-, huid⟩
    · exact .inr (.inr (huid.trans hlate))
    · exact .inr (.inr (by omega))

/-- What a buffer holds stays in order when a new request is accepted. -/
theorem Balanced.typeOk {evs : List Event} (hstep : Balanced strict s s' evs) {b : Buf} {e : Entry K}
    (h : TypeOk strict s b e) : TypeOk strict s' b e := by
  cases b with
  | priority =>
      obtain ⟨hlt, hnot, htype⟩ := h
      have huid : s.nextUid ≤ s'.nextUid := by
        rcases hstep.fresh with ⟨-, huid⟩ | ⟨-, huid⟩ <;> omega
      refine ⟨hlt.trans_le huid, fun hmem => ?_, htype⟩
      rw [hstep.log, List.filterMap_append, List.mem_append] at hmem
      rcases hmem with hmem | hmem
      · exact hnot hmem
      · rcases hstep.fresh with ⟨hnone, -⟩ | ⟨hone, -⟩
        · rw [hnone] at hmem
          exact absurd hmem List.not_mem_nil
        · rw [hone, List.mem_singleton] at hmem
          exact absurd hmem hlt.ne
  | _ => exact h

/-- Balanced steps keep the books. -/
theorem ServiceInv.step_of (h : ServiceInv strict s) (evs : List Event) (hstep : Balanced strict s s' evs)
    (htypes : ∀ b, ∀ e ∈ s'.bufs b, TypeOk strict s' b e) (hpending : PendingOk s') :
    ServiceInv strict s' := by
  -- every account is a count of events, so those of the step are added to those before
  have happend : ∀ {α : Type} (f : Event → Option α),
      s'.log.filterMap f = s.log.filterMap f ++ evs.filterMap f := by
    intro α f
    rw [hstep.log, List.filterMap_append]
  constructor
  case reads =>
    intro u hu
    have h₁ := h.reads u (hstep.tracked hu)
    have h₂ := hstep.reads u hu
    rw [happend, happend, List.count_append, List.count_append]
    omega
  case writes =>
    intro u hu
    have h₁ := h.writes u (hstep.tracked hu)
    have h₂ := hstep.writes u hu
    rw [happend, happend, List.count_append, List.count_append]
    omega
  case departures =>
    intro d
    have h₁ := h.departures d
    have h₂ := hstep.departures d
    rw [happend, happend, List.count_append, List.count_append]
    omega
  case types => exact htypes
  case fresh =>
    intro u hu
    rw [happend] at hu
    rcases hstep.fresh with ⟨hnone, huid⟩ | ⟨hone, huid⟩
    · rw [hnone, List.append_nil] at hu
      exact Nat.lt_of_lt_of_le (h.fresh u hu) huid
    · rw [hone, List.mem_append, List.mem_singleton] at hu
      rw [huid]
      rcases hu with hu | rfl
      · exact Nat.lt_succ_of_lt (h.fresh u hu)
      · exact Nat.lt_succ_self _
  case distinct =>
    rw [happend]
    rcases hstep.fresh with ⟨hnone, -⟩ | ⟨hone, -⟩
    · rw [hnone, List.append_nil]
      exact h.distinct
    · rw [hone]
      refine List.nodup_append.mpr ⟨h.distinct, by simp, fun u hu v hv => ?_⟩
      rw [List.mem_singleton.mp hv]
      exact Nat.ne_of_lt (h.fresh u hu)
  case pending => exact hpending
  case order =>
    rw [happend]
    refine List.pairwise_append.mpr ⟨h.order, hstep.order, fun c hc d hd => .inl ?_⟩
    exact Int.lt_of_le_of_lt (h.past c hc) (hstep.window d hd).1
  case past =>
    intro c hc
    rw [happend, List.mem_append] at hc
    rcases hc with hc | hc
    · exact Int.le_trans (h.past c hc) hstep.clk
    · exact (hstep.window c hc).2
  case onTime =>
    intro ev hev
    rw [hstep.log, List.mem_append] at hev
    rcases hev with hev | hev
    · exact h.onTime ev hev
    · exact hstep.onTime ev hev
  case numReads => rw [happend, List.length_append, hstep.numReads, h.numReads]
  case numReadsServed => rw [happend, List.length_append, hstep.numReadsServed, h.numReadsServed]
  case numWrites => rw [happend, List.length_append, hstep.numWrites, h.numWrites]
  case numWritesServed =>
    rw [happend, List.length_append, hstep.numWritesServed, h.numWritesServed]

/-- The same, if what the buffers hold was in order before. -/
theorem ServiceInv.step (h : ServiceInv strict s) (evs : List Event) (hstep : Balanced strict s s' evs)
    (htypes : ∀ b, ∀ e ∈ s'.bufs b, TypeOk strict s b e) (hpending : PendingOk s') : ServiceInv strict s' :=
  h.step_of evs hstep (fun b e he => hstep.typeOk (htypes b e he)) hpending

/-- Steps that log nothing but issued commands and move no read or write. -/
theorem Balanced.of_issues {evs : List Event} (hlog : s'.log = s.log ++ evs)
    (hevs : ∀ ev ∈ evs, isIssue ev = true) (hclk : s'.clk = s.clk)
    (hpending : s'.pending = s.pending) (huid : s.nextUid ≤ s'.nextUid)
    (hreads : ∀ u, Tracked strict s' u →
      inBufs (tagged Request.read u) s' = inBufs (tagged Request.read u) s)
    (hwrites : ∀ u, Tracked strict s' u →
      inBufs (tagged Request.write u) s' = inBufs (tagged Request.write u) s)
    (hstats : s'.stats.numReadReqs = s.stats.numReadReqs ∧
      s'.stats.numReadReqsServed = s.stats.numReadReqsServed ∧
      s'.stats.numWriteReqs = s.stats.numWriteReqs ∧
      s'.stats.numWriteReqsServed = s.stats.numWriteReqsServed ∧
      s'.stats.numWriteReqsCoalesced = s.stats.numWriteReqsCoalesced) : Balanced strict s s' evs := by
  -- commands neither accept nor complete anything
  have hnone : ∀ {α : Type} (f : Event → Option α), (∀ ev, isIssue ev = true → f ev = none) →
      evs.filterMap f = [] := by
    intro α f hf
    exact List.filterMap_eq_nil_iff.mpr fun ev hev => hf ev (hevs ev hev)
  obtain ⟨hst₁, hst₂, hst₃, hst₄, hst₅⟩ := hstats
  have hacc := hnone acceptance (by intro ev; cases ev <;> simp [isIssue, acceptance])
  have hracc := hnone readAcceptance (by intro ev; cases ev <;> simp [isIssue, readAcceptance])
  have hwacc := hnone writeAcceptance (by intro ev; cases ev <;> simp [isIssue, writeAcceptance])
  have hrcomp := hnone readCompletion (by intro ev; cases ev <;> simp [isIssue, readCompletion])
  have hwcomp := hnone writeCompletion (by intro ev; cases ev <;> simp [isIssue, writeCompletion])
  have hdep := hnone departure (by intro ev; cases ev <;> simp [isIssue, departure])
  have hcomp := hnone completion (by intro ev; cases ev <;> simp [isIssue, completion])
  have hord := hnone completionOrder (by intro ev; cases ev <;> simp [isIssue, completionOrder])
  constructor
  case log => exact hlog
  case reads =>
    intro u hu
    simp [hracc, hrcomp, hreads u hu, hpending]
  case writes =>
    intro u hu
    simp [hwacc, hwcomp, hwrites u hu]
  case departures => simp [hdep, hcomp, hpending]
  case fresh => exact .inl ⟨hacc, huid⟩
  case clk => rw [hclk]
  case order => rw [hord]; exact List.Pairwise.nil
  case window => simp [hord]
  case onTime =>
    intro ev hev
    have hiss := hevs ev hev
    cases ev <;> simp_all [isIssue, OnTime]
  case numReads => simp [hst₁, hracc]
  case numReadsServed => simp [hst₂, hrcomp]
  case numWrites => simp [hst₃, hwacc]
  case numWritesServed => simp [hst₄, hst₅, hwcomp]

/-! ## Admission -/

/-- One more request of the right type at the end of a buffer. -/
theorem ServiceInv.types_append (h : ServiceInv strict s) {b : Buf} {e : Entry K}
    (he : TypeOk strict s b e) :
    ∀ b', ∀ e' ∈ (s.setBuf b (s.bufs b ++ [e])).bufs b', TypeOk strict s b' e' := by
  intro b' e' he'
  rw [bufs_setBuf] at he'
  split_ifs at he' with hb
  · rcases List.mem_append.mp he' with hmem | hmem
    · exact hb ▸ h.types b e' hmem
    · rw [List.mem_singleton.mp hmem, hb]
      exact he
  · exact h.types b' e' he'

theorem inBufs_enqueueRead (t : Int) (u : Nat) (req : Request Command K) (s : ControllerBase K) :
    inBufs (tagged t u) (s.enqueueRead req) =
      inBufs (tagged t u) s + if req.typeId == t && s.nextUid == u then 1 else 0 :=
  inBufs_append (tagged t u) .read (Entry.ofRequest s.nextUid req) s

theorem inBufs_enqueueWrite (t : Int) (u : Nat) (req : Request Command K) (s : ControllerBase K) :
    inBufs (tagged t u) (s.enqueueWrite req) =
      inBufs (tagged t u) s + if req.typeId == t && s.nextUid == u then 1 else 0 :=
  inBufs_append (tagged t u) .write (Entry.ofRequest s.nextUid req) s

theorem inBufs_enqueuePriority (t : Int) (u : Nat) (req : Request Command K)
    (s : ControllerBase K) : inBufs (tagged t u) (s.enqueuePriority req) =
      inBufs (tagged t u) s + if req.typeId == t && s.nextUid == u then 1 else 0 :=
  inBufs_append (tagged t u) .priority (Entry.ofRequest s.nextUid req) s

theorem enqueueRead_balanced {req : Request Command K} (hreq : req.typeId = Request.read) :
    Balanced strict s (s.enqueueRead req) [.accepted s.nextUid Request.read req.addr .buffered] := by
  have hpending : (s.enqueueRead req).pending = s.pending := rfl
  constructor
  case log => rw [← hreq]; rfl
  case reads =>
    intro u _
    rw [inBufs_enqueueRead, hpending]
    simp [readAcceptance, readCompletion, hreq, List.filterMap_cons, List.count_singleton]
    omega
  case writes =>
    intro u _
    rw [inBufs_enqueueRead]
    simp [writeAcceptance, writeCompletion, hreq, List.filterMap_cons, Request.read, Request.write]
  case departures => simp [departure, completion, hpending, List.filterMap_cons]
  case fresh => exact .inr ⟨rfl, rfl⟩
  case clk => exact Int.le_refl _
  case order => exact List.Pairwise.nil
  case window => simp [completionOrder, List.filterMap_cons]
  case onTime => simp [OnTime]
  all_goals rfl

theorem enqueueWrite_balanced {req : Request Command K} (hreq : req.typeId = Request.write) :
    Balanced strict s (s.enqueueWrite req) [.accepted s.nextUid Request.write req.addr .buffered] := by
  have hpending : (s.enqueueWrite req).pending = s.pending := rfl
  constructor
  case log => rw [← hreq]; rfl
  case reads =>
    intro u _
    rw [inBufs_enqueueWrite, hpending]
    simp [readAcceptance, readCompletion, hreq, List.filterMap_cons, Request.read, Request.write]
  case writes =>
    intro u _
    rw [inBufs_enqueueWrite]
    simp [writeAcceptance, writeCompletion, hreq, List.filterMap_cons, List.count_singleton]
    omega
  case departures => simp [departure, completion, hpending, List.filterMap_cons]
  case fresh => exact .inr ⟨rfl, rfl⟩
  case clk => exact Int.le_refl _
  case order => exact List.Pairwise.nil
  case window => simp [completionOrder, List.filterMap_cons]
  case onTime => simp [OnTime]
  all_goals rfl

theorem countP_pushPending (f : PendingRead K → Bool) (e : Entry K) (s : ControllerBase K) :
    (s.pushPending e).pending.countP f =
      s.pending.countP f + if f ⟨e.depart, s.pendingSequence, e⟩ then 1 else 0 := by
  rw [(pushPending_perm e s).countP_eq f, List.countP_cons]

theorem forward_balanced (req : Request Command K) (hreq : req.typeId = Request.read) :
    Balanced strict s (s.forward req).2.2 [.accepted s.nextUid Request.read req.addr .forwarded,
      .departureScheduled s.nextUid (s.clk + 1)] := by
  rw [forward_eq, hreq]
  have hpush := fun f => countP_pushPending f (forwarded req s) s
  constructor
  case reads =>
    intro u _
    have hp := hpush (·.req.uid == u)
    dsimp only at hp ⊢
    rw [hp]
    simp [readAcceptance, readCompletion, List.filterMap_cons, List.count_singleton, forwarded,
      Entry.ofRequest, inBufs, pushPending]
    omega
  case writes =>
    intro u _
    simp [writeAcceptance, writeCompletion, List.filterMap_cons, Request.read, Request.write, inBufs,
      pushPending]
  case departures =>
    intro d
    have hp := hpush (fun p => (p.req.uid, p.depart) == d)
    dsimp only at hp ⊢
    rw [hp]
    simp [departure, completion, List.filterMap_cons, List.count_singleton, forwarded,
      Entry.ofRequest]
    omega
  case log => rfl
  case fresh => exact .inr ⟨rfl, rfl⟩
  case clk => exact Int.le_refl _
  case order => exact List.Pairwise.nil
  case window => simp [completionOrder, List.filterMap_cons]
  case onTime => simp [OnTime]
  all_goals rfl

theorem coalesce_balanced {req : Request Command K} (hreq : req.typeId = Request.write) :
    Balanced strict s (s.coalesce req).2.2 [.accepted s.nextUid Request.write req.addr .coalesced,
      .departureScheduled s.nextUid s.clk,
      .completedWrite s.nextUid s.clk req.callback.isSome] := by
  rw [coalesce_eq, hreq]
  constructor
  case reads =>
    intro u _
    simp [readAcceptance, readCompletion, List.filterMap_cons, Request.read, Request.write, inBufs]
  case writes =>
    intro u _
    simp [writeAcceptance, writeCompletion, List.filterMap_cons, inBufs]
    omega
  case departures =>
    intro d
    simp [departure, completion, List.filterMap_cons]
    omega
  case log => rfl
  case fresh => exact .inr ⟨rfl, rfl⟩
  case clk => exact Int.le_refl _
  case order => exact List.Pairwise.nil
  case window => simp [completionOrder, List.filterMap_cons]
  case onTime => simp [OnTime]
  all_goals rfl

theorem ServiceInv.send (h : ServiceInv strict s) {apply : Request Command K → AddrVec}
    {req req' : Request Command K} {accepted : Bool}
    (hsend : s.send cfg apply req = .ok (accepted, req', s')) : ServiceInv strict s' := by
  rcases send_cases hsend with ⟨ht, -, heq⟩ | ⟨ht, -, -, heq⟩ | ⟨ht, -, heq⟩ | ⟨ht, -, -, heq⟩ | ⟨-, heq⟩
  all_goals
    obtain rfl := congrArg (fun r => r.2.2) heq
  · refine h.step _ (forward_balanced (mapped cfg apply req) ht) ?_ ?_
    · rw [forward_eq]
      exact h.types
    · rw [forward_eq]
      have hpush := h.pending.push (e := forwarded (mapped cfg apply req) s) (Int.lt_succ _)
      exact ⟨hpush.sorted, hpush.ahead, hpush.sequence⟩
  · refine h.step _ (enqueueRead_balanced ht) (h.types_append ht) ?_
    exact ⟨h.pending.sorted, h.pending.ahead, h.pending.sequence⟩
  · refine h.step _ (coalesce_balanced ht) ?_ ?_
    · rw [coalesce_eq]
      exact h.types
    · rw [coalesce_eq]
      exact ⟨h.pending.sorted, h.pending.ahead, h.pending.sequence⟩
  · refine h.step _ (enqueueWrite_balanced ht) (h.types_append ht) ?_
    exact ⟨h.pending.sorted, h.pending.ahead, h.pending.sequence⟩
  · exact h

/-- A priority request gets a number that is not kept in the books, unless it is a direct command. -/
theorem serviceInv_keptBySend :
    KeptBySend cfg (fun req => strict → req.typeId = -1) (ServiceInv (K := K) strict) := by
  intro s req accepted s' hreq h hsend
  obtain ⟨-, rfl | rfl⟩ := prioritySend_eq_ok hsend
  · have hlog : (s.enqueuePriority req).log = s.log ++ [] := by
      simp [enqueuePriority, setStats, setBuf]
    have huid : (s.enqueuePriority req).nextUid = s.nextUid + 1 := rfl
    -- the number of the request is tracked only if it is a direct command
    have hapart : ∀ u, Tracked strict (s.enqueuePriority req) u → req.typeId = -1 ∨ s.nextUid ≠ u := by
      rintro u (hstrict | hmem | hlate)
      · exact .inl (hreq hstrict)
      · rw [hlog, List.append_nil] at hmem
        exact .inr (h.fresh u hmem).ne'
      · rw [huid] at hlate
        exact .inr (by omega)
    have htypes : ∀ b, ∀ e ∈ (s.enqueuePriority req).bufs b, TypeOk strict (s.enqueuePriority req) b e := by
      intro b e he
      have hbufs : (s.enqueuePriority req).bufs =
          (s.setBuf .priority (s.priority ++ [Entry.ofRequest s.nextUid req])).bufs := rfl
      rw [hbufs, bufs_setBuf] at he
      split_ifs at he with hb
      · subst hb
        unfold TypeOk
        rw [hlog, List.append_nil, huid]
        rcases List.mem_append.mp he with hmem | hmem
        · obtain ⟨hlt, hnot, htype⟩ := h.types .priority e hmem
          exact ⟨Nat.lt_succ_of_lt hlt, hnot, htype⟩
        · obtain rfl := List.mem_singleton.mp hmem
          exact ⟨Nat.lt_succ_self _, fun hmem => absurd (h.fresh _ hmem) (Nat.lt_irrefl _), hreq⟩
      · have hok := h.types b e he
        cases b <;> first | exact hok | exact absurd rfl hb
    refine h.step_of [] (.of_issues hlog (by simp) rfl rfl (Nat.le_succ _) (fun u hu => ?_)
      (fun u hu => ?_) ?_) htypes ⟨h.pending.sorted, h.pending.ahead, h.pending.sequence⟩
    · rw [inBufs_enqueuePriority]
      rcases hapart u hu with htype | hne
      · simp [htype, Request.read]
      · simp [hne]
    · rw [inBufs_enqueuePriority]
      rcases hapart u hu with htype | hne
      · simp [htype, Request.write]
      · simp [hne]
    · unfold enqueuePriority setStats setBuf
      dsimp only
      split_ifs <;> exact ⟨rfl, rfl, rfl, rfl, rfl⟩
  · exact h

/-! ## Completion -/

theorem filterMap_readEvent_none {α : Type} (clk : Int) (f : Event → Option α)
    (hf : ∀ p : PendingRead K, f (readEvent clk p) = none) (l : List (PendingRead K)) :
    (l.map (readEvent clk)).filterMap f = [] := by
  rw [List.filterMap_map, List.filterMap_eq_nil_iff]
  exact fun p _ => hf p

theorem filterMap_readEvent_some {α : Type} (clk : Int) (f : Event → Option α)
    {g : PendingRead K → α} (hf : ∀ p, f (readEvent clk p) = some (g p))
    (l : List (PendingRead K)) : (l.map (readEvent clk)).filterMap f = l.map g := by
  rw [List.filterMap_map, ← List.filterMap_eq_map]
  exact List.filterMap_congr fun p _ => hf p

/-- Departures are ahead of the clock, so what is due departs now. -/
theorem PendingOk.depart_of_due (h : PendingOk s) {p : PendingRead K} (hp : p ∈ s.due) :
    p.depart = s.clk + 1 := by
  have hle := List.mem_takeWhile_imp hp
  have hlt := h.ahead p ((List.takeWhile_sublist _).subset hp)
  simp only [decide_eq_true_eq] at hle
  omega

/-- What is not due departs later, as the queue is sorted. -/
theorem PendingOk.later (h : PendingOk s) {p : PendingRead K}
    (hp : p ∈ s.pending.dropWhile (·.depart ≤ s.clk + 1)) : s.clk + 1 < p.depart := by
  have hnot := dropWhile_all_not h.sorted (fun a b hab ha => by
    rw [before_iff] at hab
    unfold Earlier at hab
    simp only [decide_eq_false_iff_not] at ha hab ⊢
    omega) p hp
  simpa using hnot

theorem tickPrologue_balanced (h : PendingOk s) :
    Balanced strict s s.tickPrologue (s.due.map (readEvent (s.clk + 1))) ∧ PendingOk s.tickPrologue := by
  obtain ⟨stats, heq, hst₁, hst₂, hst₃, hst₄, hst₅⟩ := tickPrologue_eq s
  rw [heq]
  -- what is due leaves the queue, and each of it is completed
  have hsplit : s.due ++ s.pending.dropWhile (·.depart ≤ s.clk + 1) = s.pending :=
    List.takeWhile_append_dropWhile
  have hcount : ∀ f : PendingRead K → Bool, s.due.countP f +
      (s.pending.dropWhile (·.depart ≤ s.clk + 1)).countP f = s.pending.countP f := by
    intro f
    rw [← List.countP_append, hsplit]
  have hacc := filterMap_readEvent_none (s.clk + 1) acceptance (fun _ => rfl) s.due
  have hracc := filterMap_readEvent_none (s.clk + 1) readAcceptance (fun _ => rfl) s.due
  have hwacc := filterMap_readEvent_none (s.clk + 1) writeAcceptance (fun _ => rfl) s.due
  have hwcomp := filterMap_readEvent_none (s.clk + 1) writeCompletion (fun _ => rfl) s.due
  have hdep := filterMap_readEvent_none (s.clk + 1) departure (fun _ => rfl) s.due
  have hrcomp := filterMap_readEvent_some (s.clk + 1) readCompletion (fun _ => rfl) s.due
  have hcomp := filterMap_readEvent_some (s.clk + 1) completion (fun _ => rfl) s.due
  have hord := filterMap_readEvent_some (s.clk + 1) completionOrder (fun _ => rfl) s.due
  refine ⟨?_, h.sorted.sublist (List.dropWhile_sublist _), fun p hp => h.later hp,
    fun p hp => h.sequence p ((List.dropWhile_sublist _).subset hp)⟩
  constructor
  case log => rfl
  case reads =>
    intro u _
    have hcnt := hcount (·.req.uid == u)
    rw [hracc, hrcomp]
    simp only [List.count, List.countP_map, List.countP_nil, Function.comp_def, inBufs] at hcnt ⊢
    omega
  case writes =>
    intro u _
    rw [hwacc, hwcomp]
    simp [inBufs]
  case departures =>
    intro d
    have hcnt := hcount (fun p => (p.req.uid, p.depart) == d)
    rw [hdep, hcomp]
    simp only [List.count, List.countP_map, List.countP_nil, Function.comp_def] at hcnt ⊢
    omega
  case fresh => exact .inl ⟨hacc, Nat.le_refl _⟩
  case clk => exact Int.le_of_lt (Int.lt_succ _)
  case order =>
    rw [hord, List.pairwise_map]
    exact (h.sorted.sublist (List.takeWhile_sublist _)).imp fun hpq => before_iff.mp hpq
  case window =>
    intro c hc
    rw [hord] at hc
    obtain ⟨p, hp, rfl⟩ := List.mem_map.mp hc
    have hdue := h.depart_of_due hp
    dsimp only
    omega
  case onTime =>
    intro ev hev
    obtain ⟨p, hp, rfl⟩ := List.mem_map.mp hev
    exact (h.depart_of_due hp).symm
  case numReads => rw [hracc]; exact hst₁
  case numReadsServed => rw [hrcomp, List.length_map]; exact hst₂
  case numWrites => rw [hwacc]; exact hst₃
  case numWritesServed => rw [hwcomp]; dsimp only; rw [hst₄, hst₅]; rfl

theorem ServiceInv.tickPrologue (h : ServiceInv strict s) : ServiceInv strict s.tickPrologue := by
  obtain ⟨hstep, hpending⟩ := tickPrologue_balanced h.pending
  refine h.step _ hstep ?_ hpending
  obtain ⟨stats, heq, -⟩ := tickPrologue_eq s
  rw [heq]
  exact h.types

/-! ## Issue and advance -/

theorem ServiceInv.resolved (h : ServiceInv strict s) (hres : Resolved s s') : ServiceInv strict s' := by
  have hrest := hres.rest
  have hpending : s'.pending = s.pending := by rw [hrest]
  have hclk : s'.clk = s.clk := by rw [hrest]
  have hseq : s'.pendingSequence = s.pendingSequence := by rw [hrest]
  refine h.step [] (.of_issues (by rw [hrest, List.append_nil]) (by simp) hclk hpending
    (by rw [hrest]) (fun u _ => inBufs_resolved (fun _ => rfl) hres)
    (fun u _ => inBufs_resolved (fun _ => rfl) hres) (by rw [hrest]; simp)) ?_ ?_
  · intro b e he
    obtain ⟨e₀, he₀, hbare⟩ := exists_bare_eq (hres.bare b) he
    exact (h.types b e₀ he₀).congr (of_bare_eq hbare).1 (of_bare_eq hbare).2.2.2.1
  · refine ⟨?_, ?_, ?_⟩
    · rw [hpending]
      exact h.pending.sorted
    · rw [hpending, hclk]
      exact h.pending.ahead
    · rw [hpending, hseq]
      exact h.pending.sequence

theorem ServiceInv.issued (h : ServiceInv strict s) {b : Buf} {i : Nat} {e : Entry K}
    (hi : (s.bufs b)[i]? = some e) {stats : Stats} (hstats : SameCounts s.stats stats)
    (p : RowPolicyState) : ServiceInv strict (s.issued cfg b i (s.prepared cfg e) stats p) := by
  have htag : ∀ t u, tagged t u (s.prepared cfg e) = tagged t u e := by
    intro t u
    unfold tagged
    rw [prepared_typeId, prepared_uid]
  refine h.step _ (.of_issues rfl (by simp [isIssue]) rfl rfl (Nat.le_refl _)
    (fun u _ => inBufs_issued _ hi (htag _ u) stats p) (fun u _ => inBufs_issued _ hi (htag _ u) stats p)
    ?_) ?_ ⟨h.pending.sorted, h.pending.ahead, h.pending.sequence⟩
  · have hst : (s.issued cfg b i (s.prepared cfg e) stats p).stats = stats := rfl
    rw [hst, hstats]
    simp
  · intro b' e' he'
    rw [bufs_issued] at he'
    split_ifs at he' with hb
    · rcases List.mem_or_eq_of_mem_set he' with hmem | rfl
      · exact hb ▸ h.types b e' hmem
      · exact hb ▸ (h.types b e (List.mem_of_getElem? hi)).congr (prepared_uid cfg s e) (prepared_typeId cfg s e)
    · exact h.types b' e' he'

theorem inBufs_retireRequest (cfg : Config) (p : Entry K → Bool) {b : Buf} {i : Nat} {e : Entry K}
    (hi : (s.bufs b)[i]? = some e) :
    inBufs p (s.retireRequest cfg b i e) + (if p e then 1 else 0) = inBufs p s := by
  have hbufs := (finish_frame cfg e (s.leave cfg b e)).2.1
  have hi' : (((s.leave cfg b e).finish cfg e).bufs b)[i]? = some e := by
    rw [hbufs]
    exact hi
  rw [← inBufs_congr (p := p) (s := s) hbufs]
  exact inBufs_removeAt p hi'

theorem retireRequest_read {b : Buf} {i : Nat} {e : Entry K} (htype : e.typeId = Request.read) :
    s.retireRequest cfg b i e =
      { ((s.leave cfg b e).pushPending { e with depart := s.clk + cfg.spec.readLatency }).removeAt b i
        with log := s.log ++ [.departureScheduled e.uid (s.clk + cfg.spec.readLatency)] } := by
  unfold retireRequest finish
  rw [if_pos htype]
  rfl

theorem retireRequest_write {b : Buf} {i : Nat} {e : Entry K} (htype : e.typeId = Request.write) :
    s.retireRequest cfg b i e =
      { (s.leave cfg b e).removeAt b i with
        log := s.log ++ [.departureScheduled e.uid s.clk,
          .completedWrite e.uid s.clk e.callback.isSome]
        stats := { s.stats with numWriteReqsServed := s.stats.numWriteReqsServed + 1 } } := by
  unfold retireRequest finish
  rw [if_neg (by rw [htype]; decide), if_pos htype]
  simp [leave, removeAt, setBuf, setStats, record, notifyDepartureScheduled]

theorem retireRequest_other (cfg : Config) {b : Buf} {i : Nat} {e : Entry K} (hread : e.typeId ≠ Request.read)
    (hwrite : e.typeId ≠ Request.write) :
    ∃ n, s.retireRequest cfg b i e =
      { (s.leave cfg b e).removeAt b i with
        stats := { s.stats with numMaintenanceReqsServed := n } } := by
  unfold retireRequest finish
  rw [if_neg hread, if_neg hwrite]
  split_ifs
  · exact ⟨s.stats.numMaintenanceReqsServed + 1, rfl⟩
  · exact ⟨s.stats.numMaintenanceReqsServed, rfl⟩

/-- A retiring read becomes pending, with its departure announced. -/
theorem retire_read_balanced {b : Buf} {i : Nat} {e : Entry K} (hi : (s.bufs b)[i]? = some e)
    (htype : e.typeId = Request.read) :
    Balanced strict s (s.retireRequest cfg b i e)
      [.departureScheduled e.uid (s.clk + cfg.spec.readLatency)] := by
  have hbufs := fun p => inBufs_retireRequest cfg p hi
  rw [retireRequest_read htype] at hbufs ⊢
  have hpush := fun f => countP_pushPending f { e with depart := s.clk + cfg.spec.readLatency }
    (s.leave cfg b e)
  constructor
  case reads =>
    intro u _
    have h₁ := hbufs (tagged Request.read u)
    have h₂ := hpush (·.req.uid == u)
    simp only [tagged, htype, removeAt, setBuf] at h₁ h₂ ⊢
    simp [readAcceptance, readCompletion, List.filterMap_cons, leave] at h₁ h₂ ⊢
    omega
  case writes =>
    intro u _
    have h₁ := hbufs (tagged Request.write u)
    simp [tagged, htype, writeAcceptance, writeCompletion, List.filterMap_cons, Request.read,
      Request.write] at h₁ ⊢
    omega
  case departures =>
    intro d
    have h₂ := hpush (fun p => (p.req.uid, p.depart) == d)
    simp only [removeAt, setBuf] at h₂ ⊢
    simp [departure, completion, List.filterMap_cons, List.count_singleton, leave] at h₂ ⊢
    omega
  case log => rfl
  case fresh => exact .inl ⟨rfl, Nat.le_refl _⟩
  case clk => exact Int.le_refl _
  case order => exact List.Pairwise.nil
  case window => simp [completionOrder, List.filterMap_cons]
  case onTime => simp [OnTime]
  all_goals rfl

/-- A retiring write is announced and completes at once. -/
theorem retire_write_balanced {b : Buf} {i : Nat} {e : Entry K} (hi : (s.bufs b)[i]? = some e)
    (htype : e.typeId = Request.write) :
    Balanced strict s (s.retireRequest cfg b i e)
      [.departureScheduled e.uid s.clk, .completedWrite e.uid s.clk e.callback.isSome] := by
  have hbufs := fun p => inBufs_retireRequest cfg p hi
  rw [retireRequest_write htype] at hbufs ⊢
  have hpending : ((s.leave cfg b e).removeAt b i).pending = s.pending := rfl
  constructor
  case reads =>
    intro u _
    have h₁ := hbufs (tagged Request.read u)
    simp [tagged, htype, readAcceptance, readCompletion, List.filterMap_cons, Request.read,
      Request.write, hpending] at h₁ ⊢
    omega
  case writes =>
    intro u _
    have h₁ := hbufs (tagged Request.write u)
    simp [tagged, htype, writeAcceptance, writeCompletion, List.filterMap_cons,
      List.count_singleton] at h₁ ⊢
    omega
  case departures =>
    intro d
    simp [departure, completion, List.filterMap_cons, hpending]
    omega
  case log => rfl
  case fresh => exact .inl ⟨rfl, Nat.le_refl _⟩
  case clk => exact Int.le_refl _
  case order => exact List.Pairwise.nil
  case window => simp [completionOrder, List.filterMap_cons]
  case onTime => simp [OnTime]
  case numWritesServed => exact Nat.add_right_comm _ _ _
  all_goals rfl

theorem types_removeAt {P : Buf → Entry K → Prop} (h : ∀ b, ∀ e ∈ s.bufs b, P b e) (b : Buf) (i : Nat) :
    ∀ b', ∀ e ∈ (s.removeAt b i).bufs b', P b' e :=
  fun b' e he => h b' e (mem_bufs_removeAt he)

theorem ServiceInv.retire (h : ServiceInv strict s) (hlat : 1 ≤ cfg.spec.readLatency) {b : Buf} {i : Nat}
    {e : Entry K} (hi : (s.bufs b)[i]? = some e) : ServiceInv strict (s.retireRequest cfg b i e) := by
  have htypes : ∀ b', ∀ e' ∈ (s.retireRequest cfg b i e).bufs b', TypeOk strict s b' e' := by
    refine types_removeAt ?_ b i
    rw [(finish_frame cfg e (s.leave cfg b e)).2.1]
    exact h.types
  by_cases hread : e.typeId = Request.read
  · refine h.step _ (retire_read_balanced hi hread) htypes ?_
    rw [retireRequest_read hread]
    have hleave : PendingOk (s.leave cfg b e) :=
      ⟨h.pending.sorted, h.pending.ahead, h.pending.sequence⟩
    have hpush := hleave.push (e := { e with depart := s.clk + cfg.spec.readLatency })
      (show s.clk < s.clk + cfg.spec.readLatency by omega)
    exact ⟨hpush.sorted, hpush.ahead, hpush.sequence⟩
  by_cases hwrite : e.typeId = Request.write
  · refine h.step _ (retire_write_balanced hi hwrite) htypes ?_
    rw [retireRequest_write hwrite]
    exact ⟨h.pending.sorted, h.pending.ahead, h.pending.sequence⟩
  · have hbufs := fun p => inBufs_retireRequest cfg p hi
    obtain ⟨n, heq⟩ := retireRequest_other cfg (s := s) (b := b) (i := i) hread hwrite
    rw [heq] at hbufs htypes ⊢
    refine h.step [] (.of_issues (List.append_nil _).symm (by simp) rfl rfl (Nat.le_refl _) ?_ ?_
      ⟨rfl, rfl, rfl, rfl, rfl⟩) htypes ⟨h.pending.sorted, h.pending.ahead, h.pending.sequence⟩
    · intro u _
      have h₁ := hbufs (tagged Request.read u)
      simpa [tagged, hread] using h₁
    · intro u _
      have h₁ := hbufs (tagged Request.write u)
      simpa [tagged, hwrite] using h₁

theorem ServiceInv.promote (h : ServiceInv strict s) {b : Buf} {i : Nat} {e : Entry K}
    (hi : (s.bufs b)[i]? = some e) : ServiceInv strict (s.promoteToActive cfg b i e) := by
  unfold promoteToActive
  split_ifs with hroom
  · -- the request is appended to the active buffer, which moves no place in any buffer
    have hi' : ((s.enterActive cfg b e).bufs b)[i]? = some e := by
      rw [bufs_enterActive]
      split_ifs with hb
      · subst hb
        exact (List.getElem?_append_left (List.getElem?_eq_some_iff.mp hi).1).trans hi
      · exact hi
    have hbufs : ∀ p, inBufs p ((s.enterActive cfg b e).removeAt b i) = inBufs p s := by
      intro p
      have h₁ := inBufs_removeAt p hi'
      have h₂ : inBufs p (s.enterActive cfg b e) = inBufs p s + if p e then 1 else 0 :=
        inBufs_append p .active e s
      omega
    refine h.step [] (.of_issues (List.append_nil _).symm (by simp) rfl rfl (Nat.le_refl _)
      (fun u _ => hbufs _) (fun u _ => hbufs _) ⟨rfl, rfl, rfl, rfl, rfl⟩) ?_
      ⟨h.pending.sorted, h.pending.ahead, h.pending.sequence⟩
    exact types_removeAt (h.types_append (b := .active) (e := e) trivial) b i
  · exact h

theorem ServiceInv.advance (h : ServiceInv strict s) (hlat : 1 ≤ cfg.spec.readLatency) {b : Buf} {i : Nat}
    {e : Entry K} (hi : (s.bufs b)[i]? = some e) : ServiceInv strict (s.advance cfg b i e) := by
  unfold ControllerBase.advance
  split_ifs
  · exact h.retire hlat hi
  · exact h.promote hi
  · exact h

/-! ## Every run -/

/-- The requests that a hook of this call enqueues, or the call itself, are direct commands
(`Request::Cmd`), as those of every refresh manager, row policy and plugin are. -/
def CommandsOnly : Call K → Prop
  | .send _ _ => True
  | .prioritySend req => req.typeId = -1
  | .tick inputs =>
      ∀ r ∈ inputs.refresh ++ inputs.preSchedule ++ inputs.onIssue ++ inputs.postSchedule,
        r.typeId = -1

theorem ServiceInv.call (h : ServiceInv strict s) (hlat : 1 ≤ cfg.spec.readLatency) {c : Call K}
    (hc : strict → CommandsOnly c) (hcall : Controller.call cfg c s = .ok s') : ServiceInv strict s' := by
  cases c with
  | send apply req =>
      obtain ⟨⟨accepted, req', t⟩, ht, rfl⟩ := except_map_eq_ok.mp hcall
      exact h.send ht
  | prioritySend req =>
      obtain ⟨⟨accepted, t⟩, ht, rfl⟩ := except_map_eq_ok.mp hcall
      exact serviceInv_keptBySend s req accepted t hc h ht
  | tick inputs =>
      refine tick_preserves (fun req => strict → req.typeId = -1) (fun _ _ _ => True) (ServiceInv strict)
        (fun b i e s => ServiceInv strict s ∧ (s.bufs b)[i]? = some e) serviceInv_keptBySend ?_
        (fun _ _ _ => rfl) ?_ (fun s hs => hs.tickPrologue) (fun s s' hres hs => hs.resolved hres) ?_
        (fun s b i e hQ => hQ.1.advance hlat hQ.2) (fun r hr hstrict => hc hstrict r hr)
        (fun _ _ _ _ _ _ _ => trivial) h hcall
      · intro b i e s req accepted s' hreq hQ hsend
        refine ⟨serviceInv_keptBySend s req accepted s' hreq hQ.1 hsend, ?_⟩
        obtain ⟨-, rfl | rfl⟩ := prioritySend_eq_ok hsend
        · exact getElem?_enqueuePriority hQ.2
        · exact hQ.2
      · intro s p hs
        exact hs.step [] (.of_issues (List.append_nil _).symm (by simp) rfl rfl (Nat.le_refl _)
          (fun _ _ => rfl) (fun _ _ => rfl) ⟨rfl, rfl, rfl, rfl, rfl⟩) hs.types
          ⟨hs.pending.sorted, hs.pending.ahead, hs.pending.sequence⟩
      · intro s b i e stats p hs _ hcand hcounts
        refine ⟨hs.issued hcand.getElem hcounts p, ?_⟩
        have hlt := (List.getElem?_eq_some_iff.mp hcand.getElem).1
        simp [hlt]

end Ramulator.Controller
