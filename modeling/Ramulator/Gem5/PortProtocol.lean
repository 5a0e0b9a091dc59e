/-
# Ramulator.Gem5.PortProtocol — no response is lost or sent twice, and no drain is signalled early.

What a user of the ports relies on, for every order of requests, completions, responses, retries and services,
with requests that arrive from inside a call. It rests on one condition: that a peer which refuses a response
has not, before it does so, caused another response to be queued on the same port. `sendResponse` looks at
the event again after a response that was taken, but asserts it after one that was refused.
-/
import Ramulator.Gem5.PortSteps

namespace Ramulator.Gem5

open Ramulator.Lib

variable {n : Nat}

/-- A step that the others may make, and that runs to its end. -/
def next (clockEdgeFirst : Bool) (w : World n) (e : Event n) (w' : World n) : Prop :=
  Allowed w e ∧ step clockEdgeFirst e w = .ok w'

/-- The same, with the queue undisturbed. -/
def quietNext (clockEdgeFirst : Bool) (w : World n) (e : Event n) (w' : World n) : Prop :=
  Undisturbed w e ∧ next clockEdgeFirst w e w'

/-- What the ports promise. -/
structure Protocol (clockEdgeFirst : Bool) (w : World n) : Prop where
  /-- The responses that a port sent are the first of those that were accessed for it. -/
  inOrder : ∀ p, accessedAt w.accessed p = w.sent p ++ (w.portStates p).responseQueue
  /-- No admission is accessed twice. -/
  once : (w.accessed.map Access.token).Nodup
  /-- A queue that no peer looks at waits for the event or for the peer. -/
  awake : ∀ p, (∀ pkt queued, .sendTimingResp p pkt queued ∉ w.stack) → (w.portStates p).responseQueue ≠ [] →
    (w.portStates p).retryResp = true ∨ (w.portStates p).sendResponseEvent = true
  /-- A request is rejected by a port that waits for a retry, with no effect. -/
  refused : ∀ p pkt, (w.portStates p).retryReq = true → acceptRequest p pkt w = .ok w
  /-- One that the memory system rejects leaves what was outstanding, less what was completed meanwhile. -/
  rejected : ∀ p pkt token reads writes stack w', w.stack = .enqueueing p pkt token reads writes :: stack →
    step clockEdgeFirst (.requestReturned false) w = .ok w' →
    w'.outstandingReads = reads.filter (fun e => (e.1, true) ∈ w.held) ∧
      w'.outstandingWrites = writes.filter (fun t => (t, false) ∈ w.held) ∧ (w'.portStates p).retryReq = true
  /-- Each `retryReq` is answered by a `sendRetryReq`, or stands. -/
  answered : ∀ p, w.asked p = w.answered p + (w.portStates p).retryReq.toNat
  /-- One that stands was set since the last service began, if that service is not to look at its port yet. -/
  timely : ∀ p, (w.portStates p).retryReq = true → p ∉ pendingPorts w.stack → w.askedAt p = w.services
  /-- `signalDrainDone` comes with nothing outstanding and no admission in progress. -/
  drained : ∀ e ∈ w.signals, e = (0, false)

theorem sendings_lookup_eq_none {stack : List (Frame n)} {p : Fin n}
    (h : ∀ pkt queued, .sendTimingResp p pkt queued ∉ stack) : (sendings stack).lookup p = none := by
  rw [List.lookup_eq_none_iff]
  rintro l hl
  obtain ⟨f, hf, hsending⟩ := List.mem_filterMap.mp hl
  cases f with
  | sendTimingResp q pkt queued =>
      obtain rfl := Option.some.inj hsending
      have hne : p ≠ q := by
        rintro rfl
        exact h pkt queued hf
      simpa using hne
  | _ => cases hsending

theorem Inv.protocol {w : World n} (h : Inv w) (clockEdgeFirst : Bool) : Protocol clockEdgeFirst w := by
  constructor
  case inOrder => exact fun p => (h.ports.each p).fifo
  case once => exact h.tokens.distinct
  case awake =>
    intro p hfree hne
    exact ((h.ports.each p).waiting (sendings_lookup_eq_none hfree)).awake.mp hne
  case refused =>
    intro p pkt hretry
    unfold acceptRequest
    rw [if_pos hretry]
  case rejected =>
    intro p pkt token reads writes stack w' hstack hstep
    obtain ⟨hadmission, -, hentering, -⟩ := h.entered hstack
    unfold step requestReturned at hstep
    simp only [hstack, Bool.false_eq_true, if_false] at hstep
    split at hstep
    · cases hstep
    · have hends := endAdmission_ends (w := reject p pkt token { w with stack }) hadmission
      obtain ⟨d, l, rfl, -⟩ := hends.of_ok hstep
      exact reject_outstanding hentering p
  case answered => exact h.retry.counted
  case timely =>
    intro p hretry hpending
    exact (h.retry.timely p hretry).resolve_right hpending
  case drained => exact h.signals

/-- The event of a port is scheduled if something was queued while its peer looked, and then a refusal fails
its assert. -/
theorem step_of_disturbed {w : World n} (h : Inv w) {clockEdgeFirst : Bool} {e : Event n} (hallowed : Allowed w e)
    (hdisturbed : ¬Undisturbed w e) : step clockEdgeFirst e w = .error .refusedWhileScheduled := by
  cases e with
  | responseAnswered success =>
      cases success with
      | true => exact absurd trivial hdisturbed
      | false =>
          obtain ⟨p, pkt, queued, stack, hstack⟩ := hallowed
          have hsending := (h.ports.head hstack).1.sending _ rfl
          have hne : (w.portStates p).responseQueue.length ≠ queued := by
            intro heq
            refine hdisturbed fun p' pkt' queued' stack' hstack' => ?_
            rw [hstack] at hstack'
            cases hstack'
            exact heq
          have hevent : (w.portStates p).sendResponseEvent = true :=
            hsending.event.mpr (lt_of_le_of_ne hsending.grown (Ne.symm hne))
          unfold step responseAnswered
          simp only [hstack, Bool.false_eq_true, if_false]
          rw [if_pos hevent]
  | _ => exact absurd trivial hdisturbed

theorem reachable_inv {clockEdgeFirst : Bool} {w : World n} (h : Reachable .start (quietNext clockEdgeFirst) w) :
    Inv w := by
  refine h.invariant Inv Inv.start ?_
  rintro s e s' hs ⟨hquiet, hallowed, hstep⟩
  exact (step_ends hs hallowed hquiet).of_ok hstep

/-- In every run that disturbs no queue the ports keep their promises, and no step fails an assert or meets an
unknown token; a step that disturbs a queue fails its assert. -/
theorem ports_keep_protocol {clockEdgeFirst : Bool} {w : World n}
    (h : Reachable .start (quietNext clockEdgeFirst) w) :
    Protocol clockEdgeFirst w ∧ ∀ e, Allowed w e →
      (Undisturbed w e → ∀ f, step clockEdgeFirst e w = .error f → Exhausted f) ∧
        (¬Undisturbed w e → step clockEdgeFirst e w = .error .refusedWhileScheduled) := by
  have hinv := reachable_inv h
  refine ⟨hinv.protocol clockEdgeFirst, fun e hallowed => ⟨fun hquiet f hf => ?_, step_of_disturbed hinv hallowed⟩⟩
  exact (step_ends hinv hallowed hquiet).of_error hf

/-! ### A peer that asks and refuses -/

/-- A read, and a write that wants its response. -/
def aRead : Packet := { ptr := 1, isRead := true, needsResponse := true }

def aWrite : Packet := { ptr := 2, isRead := false, needsResponse := true }

/-- The read is rejected, a service completes nothing, and the port is asked to send it again. -/
theorem ports_keep_protocol_of_retry :
    ∃ w : World 1, Protocol true w ∧ w.answered 0 = 1 ∧ w.stack = [.sendRetryReq []] := by
  have h : ∃ w : World 1, Reachable .start (quietNext true) w ∧ w.answered 0 = 1 ∧ w.stack = [.sendRetryReq []] := by
    refine ⟨_, .step (.memoryTicked) (.step (.tickEvent true) (.step (.requestReturned false)
      (.step (.recvTimingReq 0 aRead false) .start ⟨trivial, rfl, rfl⟩)
      ⟨trivial, ⟨0, aRead, 1, [], [], [], rfl, fun _ => List.mem_cons_self⟩, rfl⟩) ⟨trivial, rfl, rfl⟩)
      ⟨trivial, ⟨[], rfl⟩, rfl⟩, rfl, rfl⟩
  obtain ⟨w, hw, hanswered, hstack⟩ := h
  exact ⟨w, (ports_keep_protocol hw).1, hanswered, hstack⟩

/-- While the peer looks at the response of the read it sends the write, whose response is queued, and then it
refuses. -/
theorem not_ports_keep_asserts :
    ¬∀ (w : World 1), Reachable .start (next true) w → ∀ e, Allowed w e → ∀ f, step true e w = .error f →
      Exhausted f := by
  intro h
  have hrun : ∃ w : World 1, Reachable .start (next true) w ∧ Allowed w (.responseAnswered false) ∧
      step true (.responseAnswered false) w = .error .refusedWhileScheduled := by
    refine ⟨_, .step (.requestReturned true) (.step (.recvTimingReq 0 aWrite false) (.step (.sendResponseEvent 0)
      (.step .memoryTicked (.step (.complete 1 true) (.step (.tickEvent true) (.step (.requestReturned true)
      (.step (.recvTimingReq 0 aRead false) .start ⟨rfl, rfl⟩)
      ⟨⟨0, aRead, 1, [], [], [], rfl, nofun⟩, rfl⟩) ⟨rfl, rfl⟩) ⟨⟨rfl, List.mem_cons_self⟩, rfl⟩)
      ⟨⟨[], rfl⟩, rfl⟩) ⟨⟨rfl, rfl⟩, rfl⟩) ⟨rfl, rfl⟩)
      ⟨⟨0, aWrite, 2, [], [], _, rfl, nofun⟩, rfl⟩, ⟨0, aRead, 1, [], rfl⟩, rfl⟩
  obtain ⟨w, hw, hallowed, hfault⟩ := hrun
  rcases h w hw _ hallowed _ hfault with hf | hf
  · cases hf
  · cases hf

end Ramulator.Gem5
