/-
# Ramulator.Gem5.PortSteps — every step keeps the invariant, and raises no assert.

The invariant of the ports and of the tokens is joined by that of the retry flags and of the stack. A step
that begins in the middle of a service or of an admission goes on to its end with the rest of the call
popped, so that what holds between calls (`Calm`) has a name of its own.
-/
import Ramulator.Gem5.PortInvariant

namespace Ramulator.Gem5

open Ramulator.Lib

variable {n : Nat} {w w' : World n} {p : Fin n} {clockEdgeFirst : Bool}

/-! ## Retry flags and the stack -/

/-- The ports that a service is still to look at. -/
def Frame.pending : Frame n → List (Fin n)
  | .memoryTick => List.finRange n
  | .sendRetryReq rest => rest
  | _ => []

def pendingPorts (stack : List (Frame n)) : List (Fin n) := stack.flatMap Frame.pending

def Frame.ofMemory : Frame n → Bool
  | .memoryTick => true
  | .enqueueing .. => true
  | _ => false

def entering : List (Frame n) → Bool
  | .enqueueing .. :: _ => true
  | _ => false

/-- Each flag that was set is answered or stands, and one that stands was set in the last service, or the
service that is under way will look at it. The ports in `rest` are still to be looked at. -/
structure RetryOk (rest : List (Fin n)) (w : World n) : Prop where
  counted : ∀ p, w.asked p = w.answered p + (w.portStates p).retryReq.toNat
  timely : ∀ p, (w.portStates p).retryReq = true → w.askedAt p = w.services ∨ p ∈ rest ++ pendingPorts w.stack
  entering : ∀ p pkt token reads writes, .enqueueing p pkt token reads writes ∈ w.stack →
    (w.portStates p).retryReq = false

/-- The memory system can only be the last that was called. -/
structure StackOk (w : World n) : Prop where
  admission : w.admissionInProgress = Gem5.entering w.stack
  tail : ∀ f ∈ w.stack.tail, f.ofMemory = false

/-- The memory system is not called. -/
structure Calm (w : World n) : Prop where
  admission : w.admissionInProgress = false
  stack : ∀ f ∈ w.stack, f.ofMemory = false

structure Inv (w : World n) : Prop where
  ports : PortsOk w
  tokens : TokensOk w
  retry : RetryOk [] w
  stack : StackOk w
  signals : ∀ e ∈ w.signals, e = (0, false)

/-- The invariant while nobody has called the memory system, and a service is to look at `rest`. -/
structure CalmInv (rest : List (Fin n)) (w : World n) : Prop where
  ports : PortsOk w
  tokens : TokensOk w
  retry : RetryOk rest w
  calm : Calm w
  signals : ∀ e ∈ w.signals, e = (0, false)

theorem entering_eq_false {stack : List (Frame n)} (h : ∀ f ∈ stack, f.ofMemory = false) : entering stack = false := by
  cases stack with
  | nil => rfl
  | cons f stack =>
      have hf := h f List.mem_cons_self
      cases f with
      | enqueueing => cases hf
      | _ => rfl

theorem Calm.stackOk (h : Calm w) : StackOk w := by
  refine ⟨?_, fun f hf => h.stack f (List.mem_of_mem_tail hf)⟩
  rw [h.admission, entering_eq_false h.stack]

theorem CalmInv.inv (h : CalmInv [] w) : Inv w := ⟨h.ports, h.tokens, h.retry, h.calm.stackOk, h.signals⟩

theorem Calm.not_enqueueing (h : Calm w) {p : Fin n} {pkt : Packet} {token : Nat} {reads writes} :
    Frame.enqueueing p pkt token reads writes ∉ w.stack := fun hmem => by
  have := h.stack _ hmem
  cases this

/-- It is the turn of a peer. -/
theorem Inv.calm (h : Inv w) (hturn : peerTurn w.stack = true) : CalmInv [] w := by
  refine ⟨h.ports, h.tokens, h.retry, ⟨?_, ?_⟩, h.signals⟩
  · rw [h.stack.admission]
    cases hstack : w.stack with
    | nil => rfl
    | cons f stack =>
        rw [hstack] at hturn
        cases f with
        | enqueueing => cases hturn
        | _ => rfl
  · intro f hf
    have htail := h.stack.tail
    cases hstack : w.stack with
    | nil =>
        rw [hstack] at hf
        cases hf
    | cons g stack =>
        rw [hstack] at hf hturn htail
        rcases List.mem_cons.mp hf with rfl | hf
        · cases f with
          | sendTimingResp => rfl
          | sendRetryReq => rfl
          | memoryTick => cases hturn
          | synchronizing => cases hturn
          | enqueueing => cases hturn
        · exact htail f hf

theorem RetryOk.of_same {rest rest' : List (Fin n)} (h : RetryOk rest w)
    (hports : ∀ p, (w'.portStates p).retryReq = (w.portStates p).retryReq) (hasked : w'.asked = w.asked)
    (hanswered : w'.answered = w.answered) (haskedAt : w'.askedAt = w.askedAt) (hservices : w'.services = w.services)
    (hpending : ∀ p ∈ rest ++ pendingPorts w.stack, p ∈ rest' ++ pendingPorts w'.stack)
    (hstack : ∀ p pkt token reads writes, .enqueueing p pkt token reads writes ∈ w'.stack →
      .enqueueing p pkt token reads writes ∈ w.stack) : RetryOk rest' w' := by
  refine ⟨fun p => ?_, fun p hp => ?_, fun p pkt token reads writes hin => ?_⟩
  · rw [hasked, hanswered, hports]
    exact h.counted p
  · rw [hports] at hp
    rw [haskedAt, hservices]
    exact (h.timely p hp).imp id (hpending p)
  · rw [hports]
    exact h.entering p pkt token reads writes (hstack _ _ _ _ _ hin)

/-! ## The drain signal -/

/-- A step has done no more than to signal, with nothing outstanding and no admission in progress. -/
def Signalled (w w' : World n) : Prop :=
  ∃ d l, w' = { w with drainSignalDeferred := d, signals := w.signals ++ l } ∧ ∀ e ∈ l, e = (0, false)

theorem nbrOutstanding_ends (w : World n) : Ends (nbrOutstanding w) (fun k => k = w.outstanding) Exhausted := by
  unfold nbrOutstanding
  split
  · exact .inr rfl
  · rfl

theorem Signalled.refl (w : World n) : Signalled w w := ⟨w.drainSignalDeferred, [], by simp, nofun⟩

theorem Signalled.signal (hout : w.outstanding = 0) (hadmission : w.admissionInProgress = false) :
    Signalled w (signalDrainDone w) := by
  refine ⟨w.drainSignalDeferred, [(w.outstanding, w.admissionInProgress)], rfl, ?_⟩
  intro e he
  rw [List.mem_singleton.mp he, hout, hadmission]

theorem maybeSignalDrainDone_ends (w : World n) : Ends (maybeSignalDrainDone w) (Signalled w) Exhausted := by
  refine (nbrOutstanding_ends w).bind fun k hk => ?_
  split
  · exact Signalled.refl w
  · next hzero =>
    split
    · exact ⟨true, [], by simp, nofun⟩
    · next hadmission => exact Signalled.signal (by omega) (by simpa using hadmission)

theorem endAdmission_ends (h : w.admissionInProgress = true) :
    Ends (endAdmission w) (Signalled { w with admissionInProgress := false }) Exhausted := by
  unfold endAdmission
  rw [if_neg (by rw [h]; decide)]
  split
  · refine (nbrOutstanding_ends _).bind fun k hk => ?_
    split
    · next hzero =>
      obtain ⟨d, l, hw, hl⟩ := Signalled.signal
        (w := { w with admissionInProgress := false, drainSignalDeferred := false }) (by omega) rfl
      exact ⟨d, l, hw, hl⟩
    · exact ⟨false, [], by simp, nofun⟩
  · exact Signalled.refl _

theorem Inv.signalled (h : Inv w) (hw : Signalled w w') : Inv w' := by
  obtain ⟨d, l, rfl, hl⟩ := hw
  refine ⟨⟨h.ports.distinct, h.ports.each, h.ports.positive⟩,
    h.tokens.of_same rfl rfl rfl rfl rfl fun _ _ _ _ _ hin => hin,
    h.retry.of_same (fun _ => rfl) rfl rfl rfl rfl (fun _ hp => hp) fun _ _ _ _ _ hin => hin,
    ⟨h.stack.admission, h.stack.tail⟩, ?_⟩
  intro e he
  rcases List.mem_append.mp he with he | he
  · exact h.signals e he
  · exact hl e he

/-! ## Admission -/

theorem mem_cons_enqueueing {f : Frame n} {stack : List (Frame n)} (hf : f.ofMemory = false) {p : Fin n} {pkt : Packet}
    {token : Nat} {reads writes} (h : .enqueueing p pkt token reads writes ∈ f :: stack) :
    .enqueueing p pkt token reads writes ∈ stack := by
  rcases List.mem_cons.mp h with rfl | h
  · cases hf
  · exact h

/-- A request is entered under a token that nothing has. -/
theorem beginRequest_ends (h : CalmInv [] w) (hretry : (w.portStates p).retryReq = false) (pkt : Packet) :
    Ends (beginRequest p pkt w) Inv Exhausted := by
  have hnew : ∀ b, (w.nextAdmissionToken, b) ∉ w.held := fun b hmem => absurd (h.tokens.held_lt _ hmem) (lt_irrefl _)
  have hread : w.nextAdmissionToken ∉ w.outstandingReads.map Prod.fst := by
    rw [h.tokens.reads]
    exact hnew true
  have hwrite : w.nextAdmissionToken ∉ w.outstandingWrites := by
    rw [h.tokens.writes]
    exact hnew false
  unfold beginRequest
  simp only
  rw [if_neg (by rw [h.calm.admission]; decide)]
  split
  · exact .inl rfl
  · rw [if_neg (by simp [hread, hwrite])]
    have hkeep : ∀ {t : Nat} {b : Bool}, t ≠ w.nextAdmissionToken →
        ((t, b) ∈ (w.nextAdmissionToken, pkt.isRead) :: w.held ↔ (t, b) ∈ w.held) := by
      intro t b ht
      simp [ht]
    refine ⟨h.ports.of_same (fun _ => rfl) rfl rfl rfl rfl, ⟨?_, ?_, ?_, h.tokens.distinct, ?_, ?_, ?_⟩,
      ⟨h.retry.counted, h.retry.timely, ?_⟩, ⟨rfl, h.calm.stack⟩, h.signals⟩
    · intro c hc
      rcases List.mem_cons.mp hc with rfl | hc
      · exact Nat.lt_succ_self _
      · exact Nat.lt_succ_of_lt (h.tokens.held_lt c hc)
    · intro t
      cases pkt.isRead with
      | true => simp [h.tokens.reads]
      | false => simp [h.tokens.reads]
    · intro t
      cases pkt.isRead with
      | true => simp [h.tokens.writes]
      | false => simp [h.tokens.writes]
    · exact fun a ha => Nat.lt_succ_of_lt (h.tokens.accessed_lt a ha)
    · intro a ha hheld
      exact h.tokens.fresh a ha ((hkeep (h.tokens.accessed_lt a ha).ne).mp hheld)
    · intro p' pkt' token reads writes hin
      obtain ⟨rfl, rfl, rfl, rfl, rfl⟩ : p' = p ∧ pkt' = pkt ∧ token = w.nextAdmissionToken ∧
          reads = w.outstandingReads ∧ writes = w.outstandingWrites := by
        rcases List.mem_cons.mp hin with heq | hin
        · simpa using heq
        · exact absurd hin h.calm.not_enqueueing
      have hreads : w.outstandingReads.filter (fun e => decide ((e.1, true) ∈ (w.nextAdmissionToken, pkt'.isRead) :: w.held)) =
          w.outstandingReads := by
        refine List.filter_eq_self.mpr fun e he => decide_eq_true (List.mem_cons_of_mem _ ?_)
        exact (h.tokens.reads e.1).mp (List.mem_map_of_mem he)
      have hwrites : w.outstandingWrites.filter (fun t => decide ((t, false) ∈ (w.nextAdmissionToken, pkt'.isRead) :: w.held)) =
          w.outstandingWrites := by
        refine List.filter_eq_self.mpr fun t ht => decide_eq_true (List.mem_cons_of_mem _ ?_)
        exact (h.tokens.writes t).mp ht
      refine ⟨Nat.lt_succ_self _, ?_, ?_, fun hisWrite => ⟨?_, fun a ha => (h.tokens.accessed_lt a ha).ne⟩⟩
      · rw [hreads]
        show (if pkt'.isRead then List.filter _ (if pkt'.isRead then _ :: w.outstandingReads else w.outstandingReads)
          else if pkt'.isRead then _ :: w.outstandingReads else w.outstandingReads) = w.outstandingReads
        cases pkt'.isRead with
        | true =>
            rw [if_pos rfl, if_pos rfl, List.filter_cons_of_neg (by simp)]
            refine List.filter_eq_self.mpr fun e he => decide_eq_true ?_
            exact fun heq => hread (heq ▸ List.mem_map_of_mem he)
        | false => rfl
      · rw [hwrites]
        show (if pkt'.isRead then (if pkt'.isRead then w.outstandingWrites else _ :: w.outstandingWrites)
          else List.filter _ (if pkt'.isRead then w.outstandingWrites else _ :: w.outstandingWrites)) =
            w.outstandingWrites
        cases pkt'.isRead with
        | true => rfl
        | false =>
            rw [if_neg (by decide), if_neg (by decide), List.filter_cons_of_neg (by simp)]
            exact List.filter_eq_self.mpr fun t ht => decide_eq_true fun heq => hwrite (heq ▸ ht)
      · show (w.nextAdmissionToken, true) ∉ (w.nextAdmissionToken, pkt'.isRead) :: w.held
        rw [hisWrite]
        simpa using hnew true
    · intro p' pkt' token reads writes hin
      rcases List.mem_cons.mp hin with heq | hin
      · obtain ⟨rfl, -⟩ := (Frame.enqueueing.injEq ..).mp heq
        exact hretry
      · exact absurd hin h.calm.not_enqueueing

theorem acceptRequest_ends (h : CalmInv [] w) (p : Fin n) (pkt : Packet) : Ends (acceptRequest p pkt w) Inv Exhausted := by
  unfold acceptRequest
  split
  · exact h.inv
  · next hretry => exact beginRequest_ends h (by simpa using hretry) pkt

/-! ## Service -/

theorem endService_ends (h : CalmInv [] w) : Ends (endService clockEdgeFirst w) Inv Exhausted := by
  unfold endService
  split
  · next p pkt stack hstack =>
    have hmem : ∀ f ∈ stack, f ∈ w.stack := fun f hf => hstack ▸ List.mem_cons_of_mem _ hf
    refine acceptRequest_ends ?_ p pkt
    refine ⟨h.ports.of_same (fun _ => rfl) rfl rfl rfl ?_, h.tokens.of_same rfl rfl rfl rfl rfl ?_,
      h.retry.of_same (fun _ => rfl) rfl rfl rfl rfl ?_ ?_, ⟨h.calm.admission, ?_⟩, h.signals⟩
    · rw [hstack, sendings_cons rfl]
    · exact fun _ _ _ _ _ hin => hmem _ hin
    · intro q hq
      rw [hstack] at hq
      exact hq
    · exact fun _ _ _ _ _ hin => hmem _ hin
    · exact fun f hf => h.calm.stack f (hmem f hf)
  · refine CalmInv.inv ⟨h.ports.of_same (fun _ => rfl) rfl rfl rfl rfl,
      h.tokens.of_same rfl rfl rfl rfl rfl fun _ _ _ _ _ hin => hin,
      h.retry.of_same (fun _ => rfl) rfl rfl rfl rfl (fun _ hq => hq) fun _ _ _ _ _ hin => hin,
      ⟨h.calm.admission, h.calm.stack⟩, h.signals⟩

/-- The loop looks at every port: by induction on those that are left. -/
theorem retryLoop_ends (rest : List (Fin n)) (h : CalmInv rest w) :
    Ends (retryLoop clockEdgeFirst rest w) Inv Exhausted := by
  induction rest with
  | nil => exact endService_ends h
  | cons p rest ih =>
      unfold retryLoop
      split
      · next hretry =>
        refine CalmInv.inv ⟨h.ports.of_same (fun q => ?_) rfl rfl rfl (sendings_cons rfl _),
          h.tokens.of_same rfl rfl rfl rfl rfl fun _ _ _ _ _ hin => mem_cons_enqueueing rfl hin, ⟨fun q => ?_, fun q hq => ?_, ?_⟩,
          ⟨h.calm.admission, ?_⟩, h.signals⟩
        · by_cases hq : q = p
          · subst hq
            simp [World.setPort]
          · simp [World.setPort, Function.update_of_ne hq]
        · have hcounted := h.retry.counted q
          by_cases hq : q = p
          · subst hq
            rw [hretry] at hcounted
            simpa [World.setPort] using hcounted
          · simpa [World.setPort, Function.update_of_ne hq] using hcounted
        · by_cases hqp : q = p
          · subst hqp
            simp [World.setPort] at hq
          · have hq' : (w.portStates q).retryReq = true := by simpa [World.setPort, Function.update_of_ne hqp] using hq
            refine (h.retry.timely q hq').imp id fun hin => ?_
            rcases List.mem_cons.mp hin with heq | hin
            · exact absurd heq hqp
            · exact hin
        · exact fun _ _ _ _ _ hin => absurd (mem_cons_enqueueing rfl hin) h.calm.not_enqueueing
        · intro f hf
          rcases List.mem_cons.mp hf with rfl | hf
          · rfl
          · exact h.calm.stack f hf
      · next hretry =>
        refine ih ⟨h.ports, h.tokens, ⟨h.retry.counted, fun q hq => ?_, h.retry.entering⟩, h.calm, h.signals⟩
        refine (h.retry.timely q hq).imp id fun hin => ?_
        rcases List.mem_cons.mp hin with rfl | hin
        · exact absurd hq hretry
        · exact hin

/-- What is left of the stack when a call of the memory system or of a peer returns. -/
theorem Inv.popped {f : Frame n} {stack : List (Frame n)} (h : Inv w) (hstack : w.stack = f :: stack)
    (hsending : f.sending = none) (hentering : entering w.stack = false) :
    CalmInv f.pending { w with stack } := by
  have hmem : ∀ g ∈ stack, g ∈ w.stack := fun g hg => hstack ▸ List.mem_cons_of_mem _ hg
  have htail := h.stack.tail
  rw [hstack] at htail
  refine ⟨h.ports.of_same (fun _ => rfl) rfl rfl rfl ?_, h.tokens.of_same rfl rfl rfl rfl rfl ?_,
    h.retry.of_same (fun _ => rfl) rfl rfl rfl rfl ?_ ?_, ⟨?_, htail⟩, h.signals⟩
  · rw [hstack, sendings_cons hsending]
  · exact fun _ _ _ _ _ hin => hmem _ hin
  · intro q hq
    rw [hstack] at hq
    exact hq
  · exact fun _ _ _ _ _ hin => hmem _ hin
  · exact h.stack.admission.trans hentering

/-- A service begins. -/
theorem tick_inv (h : CalmInv [] w) : Inv (tick clockEdgeFirst w) := by
  refine ⟨h.ports.of_same (fun _ => rfl) rfl rfl rfl (sendings_cons rfl _), h.tokens.of_same rfl rfl rfl rfl rfl ?_,
    ⟨h.retry.counted, fun q _ => .inr ?_, ?_⟩, ⟨h.calm.admission, h.calm.stack⟩, h.signals⟩
  · intro p pkt token reads writes hin
    rcases List.mem_cons.mp hin with heq | hin
    · cases heq
    · exact hin
  · exact List.mem_append_right _ (List.mem_append_left _ (List.mem_finRange q))
  · intro p pkt token reads writes hin
    rcases List.mem_cons.mp hin with heq | hin
    · cases heq
    · exact absurd hin h.calm.not_enqueueing

theorem push_synchronizing (h : CalmInv [] w) (p : Fin n) (pkt : Packet) :
    CalmInv [] (w.push (.synchronizing p pkt)) := by
  refine ⟨h.ports.of_same (fun _ => rfl) rfl rfl rfl (sendings_cons rfl _),
    h.tokens.of_same rfl rfl rfl rfl rfl fun _ _ _ _ _ hin => mem_cons_enqueueing rfl hin,
    h.retry.of_same (fun _ => rfl) rfl rfl rfl rfl (fun _ hq => hq) fun _ _ _ _ _ hin => mem_cons_enqueueing rfl hin,
    ⟨h.calm.admission, ?_⟩, h.signals⟩
  intro f hf
  rcases List.mem_cons.mp hf with rfl | hf
  · rfl
  · exact h.calm.stack f hf

/-! ## Completions and returns -/

/-- An access changes the ports and what was accessed, and no retry flag. -/
theorem accessAndRespond_frame (token : Nat) (pkt : Packet) (p : Fin n) (w : World n) :
    ∃ portStates accessed, accessAndRespond token pkt p w = { w with portStates, accessed } ∧
      ∀ q, (portStates q).retryReq = (w.portStates q).retryReq := by
  unfold accessAndRespond
  split
  · refine ⟨_, _, rfl, fun q => ?_⟩
    by_cases hq : q = p
    · subst hq
      rw [Function.update_self]
      rfl
    · rw [Function.update_of_ne hq]
  · exact ⟨w.portStates, w.accessed, rfl, fun _ => rfl⟩

theorem RetryOk.accessAndRespond {rest : List (Fin n)} (h : RetryOk rest w) (token : Nat) (pkt : Packet) (p : Fin n) :
    RetryOk rest (accessAndRespond token pkt p w) := by
  obtain ⟨portStates, accessed, heq, hretry⟩ := accessAndRespond_frame token pkt p w
  rw [heq]
  exact h.of_same hretry rfl rfl rfl rfl (fun _ hq => hq) fun _ _ _ _ _ hin => hin

theorem StackOk.accessAndRespond (h : StackOk w) (token : Nat) (pkt : Packet) (p : Fin n) :
    StackOk (accessAndRespond token pkt p w) := by
  obtain ⟨portStates, accessed, heq, -⟩ := accessAndRespond_frame token pkt p w
  rw [heq]
  exact ⟨h.admission, h.tail⟩

theorem accessAndRespond_signals (token : Nat) (pkt : Packet) (p : Fin n) (w : World n) :
    (accessAndRespond token pkt p w).signals = w.signals := by
  obtain ⟨portStates, accessed, heq, -⟩ := accessAndRespond_frame token pkt p w
  rw [heq]

theorem readCompleted_ends (h : Inv w) {token : Nat} (hheld : (token, true) ∈ w.held) :
    Ends (complete token true w) Inv Exhausted := by
  unfold complete readCompleted
  simp only [if_true]
  obtain ⟨e, he, rfl⟩ := List.mem_map.mp ((h.tokens.reads token).mpr hheld)
  cases hlookup : w.outstandingReads.lookup e.1 with
  | none =>
      have := List.lookup_eq_none_iff.mp hlookup e he
      simp at this
  | some found =>
      obtain ⟨pkt, p⟩ := found
      refine (maybeSignalDrainDone_ends _).mono fun w' hw' => Inv.signalled ?_ hw'
      have htaken := h.tokens.takeRead e.1
      refine ⟨PortsOk.accessAndRespond ?_ _ _ _, htaken.accessAndRespond (h.tokens.held_lt _ hheld) ?_ ?_ ?_ pkt p,
        RetryOk.accessAndRespond ?_ _ _ _, StackOk.accessAndRespond ?_ _ _ _, ?_⟩
      · exact h.ports.of_same (fun _ => rfl) rfl rfl rfl rfl
      · exact fun hmem => by simpa using (List.mem_filter.mp hmem).2
      · rintro a ha heq
        exact h.tokens.fresh a ha (heq ▸ hheld)
      · rintro p' pkt' t reads writes hin hisWrite rfl
        exact ((h.tokens.entering p' pkt' _ reads writes hin).write hisWrite).1 hheld
      · exact h.retry.of_same (fun _ => rfl) rfl rfl rfl rfl (fun _ hq => hq) fun _ _ _ _ _ hin => hin
      · exact ⟨h.stack.admission, h.stack.tail⟩
      · rw [accessAndRespond_signals]
        exact h.signals

theorem writeCompleted_ends (h : Inv w) {token : Nat} (hheld : (token, false) ∈ w.held) :
    Ends (complete token false w) Inv Exhausted := by
  unfold complete writeCompleted
  simp only [Bool.false_eq_true, if_false]
  rw [if_pos ((h.tokens.writes token).mpr hheld)]
  refine (maybeSignalDrainDone_ends _).mono fun w' hw' => Inv.signalled ?_ hw'
  exact ⟨h.ports.of_same (fun _ => rfl) rfl rfl rfl rfl, h.tokens.takeWrite token,
    h.retry.of_same (fun _ => rfl) rfl rfl rfl rfl (fun _ hq => hq) fun _ _ _ _ _ hin => hin,
    ⟨h.stack.admission, h.stack.tail⟩, h.signals⟩

/-- What the invariant says when `receive_external_requests` returns, with its frame popped. -/
theorem Inv.entered {p : Fin n} {pkt : Packet} {token : Nat} {reads writes} {stack : List (Frame n)} (h : Inv w)
    (hstack : w.stack = .enqueueing p pkt token reads writes :: stack) :
    w.admissionInProgress = true ∧ CalmInv [] { w with stack, admissionInProgress := false } ∧
      Entering w pkt token reads writes ∧ (w.portStates p).retryReq = false := by
  have hmem : ∀ g ∈ stack, g ∈ w.stack := fun g hg => hstack ▸ List.mem_cons_of_mem _ hg
  have hhead : .enqueueing p pkt token reads writes ∈ w.stack := hstack ▸ List.mem_cons_self
  have htail := h.stack.tail
  rw [hstack] at htail
  refine ⟨?_, ⟨h.ports.of_same (fun _ => rfl) rfl rfl rfl ?_, h.tokens.of_same rfl rfl rfl rfl rfl ?_,
    h.retry.of_same (fun _ => rfl) rfl rfl rfl rfl ?_ ?_, ⟨rfl, htail⟩, h.signals⟩,
    h.tokens.entering _ _ _ _ _ hhead, h.retry.entering _ _ _ _ _ hhead⟩
  · rw [h.stack.admission, hstack]
    rfl
  · rw [hstack, sendings_cons rfl]
  · exact fun _ _ _ _ _ hin => hmem _ hin
  · intro q hq
    rw [hstack] at hq
    exact hq
  · exact fun _ _ _ _ _ hin => hmem _ hin

/-- A rejected request leaves what was outstanding before it, less what was completed meanwhile. -/
theorem reject_outstanding {pkt : Packet} {token : Nat} {reads writes} (h : Entering w pkt token reads writes)
    (p : Fin n) :
    (reject p pkt token w).outstandingReads = reads.filter (fun e => (e.1, true) ∈ w.held) ∧
      (reject p pkt token w).outstandingWrites = writes.filter (fun t => (t, false) ∈ w.held) ∧
      ((reject p pkt token w).portStates p).retryReq = true := by
  refine ⟨h.reads, h.writes, ?_⟩
  show (Function.update w.portStates p _ p).retryReq = true
  rw [Function.update_self]

/-- The rejection of a request that the memory system has not completed. -/
theorem reject_inv {pkt : Packet} {token : Nat} (h : CalmInv [] w) (hretry : (w.portStates p).retryReq = false) :
    CalmInv [] (reject p pkt token w) := by
  have hports : ∀ q, ((reject p pkt token w).portStates q) =
      { w.portStates q with retryReq := ((reject p pkt token w).portStates q).retryReq } := by
    intro q
    show Function.update w.portStates p { w.portStates p with retryReq := true } q =
      { w.portStates q with retryReq := (Function.update w.portStates p { w.portStates p with retryReq := true } q).retryReq }
    by_cases hq : q = p
    · subst hq
      rw [Function.update_self]
    · rw [Function.update_of_ne hq]
  refine ⟨h.ports.of_same hports rfl rfl rfl rfl, ?_, ⟨fun q => ?_, fun q hq => ?_, ?_⟩,
    ⟨h.calm.admission, h.calm.stack⟩, h.signals⟩
  · unfold reject
    cases pkt.isRead with
    | true =>
        exact (h.tokens.takeRead token).of_same rfl rfl rfl rfl rfl fun _ _ _ _ _ hin => hin
    | false =>
        exact (h.tokens.takeWrite token).of_same rfl rfl rfl rfl rfl fun _ _ _ _ _ hin => hin
  · have hcounted := h.retry.counted q
    show Function.update w.asked p (w.asked p + 1) q =
      w.answered q + (Function.update w.portStates p { w.portStates p with retryReq := true } q).retryReq.toNat
    by_cases hq : q = p
    · subst hq
      rw [Function.update_self, Function.update_self, hcounted, hretry]
      rfl
    · rw [Function.update_of_ne hq, Function.update_of_ne hq]
      exact hcounted
  · show Function.update w.askedAt p w.services q = w.services ∨ q ∈ [] ++ pendingPorts w.stack
    by_cases hqp : q = p
    · subst hqp
      rw [Function.update_self]
      exact .inl rfl
    · rw [Function.update_of_ne hqp]
      refine h.retry.timely q ?_
      have hq' : (Function.update w.portStates p { w.portStates p with retryReq := true } q).retryReq = true := hq
      rwa [Function.update_of_ne hqp] at hq'
  · exact fun _ _ _ _ _ hin => absurd hin h.calm.not_enqueueing

theorem requestReturned_ends {p : Fin n} {pkt : Packet} {token : Nat} {reads writes} {stack : List (Frame n)}
    {success : Bool} (h : Inv w) (hstack : w.stack = .enqueueing p pkt token reads writes :: stack)
    (hheld : success = false → (token, pkt.isRead) ∈ w.held) :
    Ends (requestReturned p pkt token success { w with stack }) Inv Exhausted := by
  obtain ⟨hadmission, hcalm, hentering, hretry⟩ := h.entered hstack
  unfold requestReturned
  cases success with
  | true =>
      rw [if_pos rfl]
      cases hread : pkt.isRead with
      | true =>
          have hends := endAdmission_ends (w := { w with stack }) hadmission
          exact hends.mono fun w' hw' => hcalm.inv.signalled hw'
      | false =>
          rw [if_neg (by decide)]
          obtain ⟨portStates, accessed, heq, -⟩ := accessAndRespond_frame token pkt p { w with stack }
          have hdone : (accessAndRespond token pkt p { w with stack, admissionInProgress := false }) =
              { accessAndRespond token pkt p { w with stack } with admissionInProgress := false } := by
            unfold accessAndRespond
            split <;> rfl
          refine (endAdmission_ends (by rw [heq]; exact hadmission)).mono fun w' hw' => Inv.signalled ?_ hw'
          rw [← hdone]
          obtain ⟨hnotRead, hnotAccessed⟩ := hentering.write hread
          refine ⟨hcalm.ports.accessAndRespond _ _ _, hcalm.tokens.accessAndRespond hentering.token_lt hnotRead hnotAccessed
            ?_ _ _, hcalm.retry.accessAndRespond _ _ _, hcalm.calm.stackOk.accessAndRespond _ _ _, ?_⟩
          · exact fun _ _ _ _ _ hin => absurd hin hcalm.calm.not_enqueueing
          · rw [accessAndRespond_signals]
            exact hcalm.signals
  | false =>
      have htoken := hheld rfl
      rw [if_neg (by decide), if_neg ?_]
      · have hends := endAdmission_ends (w := reject p pkt token { w with stack }) hadmission
        refine hends.mono fun w' hw' => Inv.signalled ?_ hw'
        have hrejected : CalmInv [] (reject p pkt token { w with stack, admissionInProgress := false }) :=
          reject_inv hcalm hretry
        exact hrejected.inv
      · cases hread : pkt.isRead with
        | true =>
            rw [hread] at htoken
            simpa using (h.tokens.reads token).mpr htoken
        | false =>
            rw [hread] at htoken
            simpa using (h.tokens.writes token).mpr htoken

/-! ## Responses -/

/-- A response is handed to a peer, and nothing else has changed. -/
theorem sent_inv {portStates : Fin n → PortState} {refused : Fin n → Bool} {pkt : Packet} {queued : Nat}
    (h : CalmInv [] w) (heq : w' = { w with portStates, refused, stack := w'.stack })
    (hpushed : w'.stack = .sendTimingResp p pkt queued :: w.stack) (hports : PortsOk w')
    (hretry : ∀ q, (portStates q).retryReq = (w.portStates q).retryReq) : Inv w' := by
  have hmem : ∀ {q : Fin n} {pkt' : Packet} {token : Nat} {reads writes},
      .enqueueing q pkt' token reads writes ∈ w'.stack → .enqueueing q pkt' token reads writes ∈ w.stack := by
    intro q pkt' token reads writes hin
    rw [hpushed] at hin
    exact mem_cons_enqueueing rfl hin
  have hstack : StackOk w' := by
    refine ⟨?_, ?_⟩
    · rw [hpushed, heq]
      exact h.calm.admission
    · rw [hpushed]
      exact h.calm.stack
  have hpending : pendingPorts w'.stack = pendingPorts w.stack := by
    rw [hpushed]
    rfl
  rw [heq] at hmem hpending hports hstack ⊢
  refine ⟨hports, h.tokens.of_same rfl rfl rfl rfl rfl fun _ _ _ _ _ hin => hmem hin,
    h.retry.of_same hretry rfl rfl rfl rfl (fun q hq => ?_) fun _ _ _ _ _ hin => hmem hin, hstack, h.signals⟩
  rw [hpending]
  exact hq

theorem update_retryReq {s : PortState} (hs : s.retryReq = (w.portStates p).retryReq) (q : Fin n) :
    (Function.update w.portStates p s q).retryReq = (w.portStates q).retryReq := by
  by_cases hq : q = p
  · subst hq
    rw [Function.update_self, hs]
  · rw [Function.update_of_ne hq]

theorem sendResponseEvent_ends (h : Inv w) (hstack : w.stack = []) (hevent : (w.portStates p).sendResponseEvent = true) :
    Ends (sendResponse p (w.setPort p { w.portStates p with sendResponseEvent := false })) Inv Exhausted := by
  have hport := h.ports.each p
  rw [hstack, sendings_nil] at hport
  have hwaiting := hport.waiting rfl
  have hretry : (w.portStates p).retryResp = false := by
    cases hresp : (w.portStates p).retryResp with
    | false => rfl
    | true =>
        rw [hwaiting.exclusive hresp] at hevent
        cases hevent
  have hrefused : Function.update w.refused p false = w.refused := by
    rw [Function.update_eq_self_iff, hport.refused, hretry]
  obtain ⟨w', hsend, heq, ⟨pkt, queued, hpushed⟩, hports⟩ :=
    h.ports.sendResponse (p := p) (s := { w.portStates p with sendResponseEvent := false })
      (by rw [hstack]; exact List.not_mem_nil) rfl (hwaiting.awake.mpr (.inr hevent)) hretry rfl
  have hworld : { w.setPort p { w.portStates p with sendResponseEvent := false } with
      refused := Function.update w.refused p false } = w.setPort p { w.portStates p with sendResponseEvent := false } := by
    rw [hrefused]
    rfl
  rw [hworld] at hsend
  rw [hsend]
  exact sent_inv (h.calm (by rw [hstack]; rfl)) heq hpushed hports (update_retryReq rfl)

theorem recvRespRetry_ends (h : Inv w) (hturn : peerTurn w.stack = true) (hrefused : w.refused p = true) :
    Ends (recvRespRetry p w) Inv Exhausted := by
  have hport := h.ports.each p
  have hretry : (w.portStates p).retryResp = true := by
    rw [← hport.refused]
    exact hrefused
  -- a peer that refused a response looks at none
  have hfree : (sendings w.stack).lookup p = none := by
    cases hlookup : (sendings w.stack).lookup p with
    | none => rfl
    | some l =>
        have hsending := (hport.sending l hlookup).noRetry
        rw [hretry] at hsending
        cases hsending
  have hwaiting := hport.waiting hfree
  have hnotIn : p ∉ (sendings w.stack).map Prod.fst := by
    intro hmem
    obtain ⟨l, hl, rfl⟩ := List.mem_map.mp hmem
    have := List.lookup_eq_none_iff.mp hfree l hl
    simp at this
  unfold recvRespRetry
  rw [if_neg (by rw [hretry]; decide)]
  obtain ⟨w', hsend, heq, ⟨pkt, queued, hpushed⟩, hports⟩ :=
    h.ports.sendResponse (s := { w.portStates p with retryResp := false }) hnotIn rfl
      (hwaiting.awake.mpr (.inl hretry)) rfl (hwaiting.exclusive hretry)
  rw [hsend]
  exact sent_inv (h.calm hturn) heq hpushed hports (update_retryReq rfl)

/-- The stack below a call to a peer. -/
theorem Inv.answered {pkt : Packet} {queued : Nat} {stack : List (Frame n)} (h : Inv w)
    (hstack : w.stack = .sendTimingResp p pkt queued :: stack) {s : PortState} {r : Bool} {sent : List Packet}
    (hs : s.retryReq = (w.portStates p).retryReq) (hport : PortOk s r (accessedAt w.accessed p) sent none) :
    Inv { w with
      stack
      portStates := Function.update w.portStates p s
      refused := Function.update w.refused p r
      sent := Function.update w.sent p sent } := by
  obtain ⟨-, -, hdistinct, hnone, hothers⟩ := h.ports.head hstack
  have hmem : ∀ f ∈ stack, f ∈ w.stack := fun f hf => hstack ▸ List.mem_cons_of_mem _ hf
  have htail := h.stack.tail
  have hpositive := h.ports.positive
  rw [hstack] at htail
  rw [hstack, sendings_send] at hpositive
  refine ⟨⟨hdistinct, fun q => ?_, fun l hl => hpositive l (List.mem_cons_of_mem _ hl)⟩,
    h.tokens.of_same rfl rfl rfl rfl rfl fun _ _ _ _ _ hin => hmem _ hin,
    h.retry.of_same (update_retryReq hs) rfl rfl rfl rfl (fun q hq => ?_) fun _ _ _ _ _ hin => hmem _ hin,
    Calm.stackOk ⟨?_, htail⟩, h.signals⟩
  · show PortOk (Function.update w.portStates p s q) (Function.update w.refused p r q) (accessedAt w.accessed q)
      (Function.update w.sent p sent q) ((sendings stack).lookup q)
    by_cases hq : q = p
    · subst hq
      rw [Function.update_self, Function.update_self, Function.update_self, hnone]
      exact hport
    · rw [Function.update_of_ne hq, Function.update_of_ne hq, Function.update_of_ne hq, ← hothers q hq]
      exact h.ports.each q
  · rw [hstack] at hq
    exact hq
  · rw [h.stack.admission, hstack]
    rfl

/-- The answer of a peer; one that refuses must not have had anything queued meanwhile. -/
theorem responseAnswered_ends {pkt : Packet} {queued : Nat} {stack : List (Frame n)} {success : Bool} (h : Inv w)
    (hstack : w.stack = .sendTimingResp p pkt queued :: stack)
    (hsame : success = false → (w.portStates p).responseQueue.length = queued) :
    Ends (responseAnswered p pkt success { w with stack }) Inv Exhausted := by
  obtain ⟨hport, hqueued, -⟩ := h.ports.head hstack
  unfold responseAnswered
  cases success with
  | true =>
      rw [if_pos rfl]
      refine (maybeSignalDrainDone_ends _).mono fun w' hw' => Inv.signalled ?_ hw'
      have hpopped : Inv { w with
          stack
          portStates := Function.update w.portStates p (w.portStates p).pop
          refused := Function.update w.refused p (w.refused p)
          sent := Function.update w.sent p (w.sent p ++ [pkt]) } :=
        h.answered hstack rfl (hport.pop hqueued)
      rw [Function.update_eq_self] at hpopped
      exact hpopped
  | false =>
      obtain ⟨hevent, hrefused⟩ := hport.refuse (hsame rfl)
      rw [if_neg (by decide), if_neg (by show ¬ (w.portStates p).sendResponseEvent = true; rw [hevent]; decide)]
      have hanswered : Inv { w with
          stack
          portStates := Function.update w.portStates p { w.portStates p with retryResp := true }
          refused := Function.update w.refused p true
          sent := Function.update w.sent p (w.sent p) } :=
        h.answered hstack rfl hrefused
      rw [Function.update_eq_self] at hanswered
      exact hanswered

/-! ## Any step -/

/-- No response was queued on a port while its peer looked at one that it then refuses. -/
def Undisturbed (w : World n) : Event n → Prop
  | .responseAnswered false => ∀ p pkt queued stack, w.stack = .sendTimingResp p pkt queued :: stack →
      (w.portStates p).responseQueue.length = queued
  | _ => True

/-- A step that the others may make, and that finds the queue undisturbed, keeps the invariant. -/
theorem step_ends (h : Inv w) {e : Event n} (hallowed : Allowed w e) (hquiet : Undisturbed w e) :
    Ends (step clockEdgeFirst e w) Inv Exhausted := by
  cases e with
  | recvTimingReq p pkt edge =>
      have hcalm := h.calm hallowed
      show Ends (recvTimingReq clockEdgeFirst p pkt edge w) Inv Exhausted
      unfold recvTimingReq
      split
      · exact tick_inv (push_synchronizing hcalm p pkt)
      · exact acceptRequest_ends hcalm p pkt
  | complete token isRead =>
      cases isRead with
      | true => exact readCompleted_ends h hallowed.2
      | false => exact writeCompleted_ends h hallowed.2
  | requestReturned success =>
      obtain ⟨p, pkt, token, reads, writes, stack, hstack, hheld⟩ := hallowed
      unfold step
      simp only [hstack]
      exact requestReturned_ends h hstack hheld
  | memoryTicked =>
      obtain ⟨stack, hstack⟩ := hallowed
      unfold step
      simp only [hstack]
      exact retryLoop_ends _ (h.popped hstack rfl (by rw [hstack]; rfl))
  | retryReqReturned =>
      obtain ⟨rest, stack, hstack⟩ := hallowed
      unfold step
      simp only [hstack]
      exact retryLoop_ends _ (h.popped hstack rfl (by rw [hstack]; rfl))
  | sendResponseEvent p => exact sendResponseEvent_ends h hallowed.1 hallowed.2
  | responseAnswered success =>
      obtain ⟨p, pkt, queued, stack, hstack⟩ := hallowed
      unfold step
      simp only [hstack]
      refine responseAnswered_ends h hstack ?_
      rintro rfl
      exact hquiet p pkt queued stack hstack
  | recvRespRetry p => exact recvRespRetry_ends h hallowed.1 hallowed.2
  | tickEvent timingMode =>
      have hcalm := h.calm (by rw [show w.stack = [] from hallowed]; rfl)
      show Ends (if timingMode then .ok (tick clockEdgeFirst w) else .ok w) Inv Exhausted
      cases timingMode with
      | true => exact tick_inv hcalm
      | false => exact h
  | synchronizeClock edge =>
      have hcalm := h.calm hallowed
      show Ends (if synchronizes clockEdgeFirst edge w then .ok (tick clockEdgeFirst w) else .ok w) Inv Exhausted
      split
      · exact tick_inv hcalm
      · exact h
  | drain => exact (nbrOutstanding_ends w).bind fun _ _ => h

theorem Inv.start : Inv (World.start : World n) :=
  ⟨.start, .start, ⟨fun _ => rfl, nofun, nofun⟩, ⟨rfl, nofun⟩, nofun⟩

end Ramulator.Gem5
