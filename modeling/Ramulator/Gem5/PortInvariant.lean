/-
# Ramulator.Gem5.PortInvariant — what every step of the port code keeps.

A port is in one of two conditions. While its peer looks at a response, the front of the queue is that
response, and the event is scheduled exactly when something was queued meanwhile. At all other times the
queue is empty, or waits for the event, or waits for the peer. Beside this stand the tokens: what is
outstanding is what the memory system holds callbacks for, and no token is accessed twice.
-/
import Ramulator.Gem5.Ramulator2Base
import Ramulator.Lib.Fallible
import Ramulator.Lib.SwapTable

namespace Ramulator.Gem5

open Ramulator.Lib

variable {n : Nat} {w w' : World n} {p q : Fin n}

/-- The faults that are neither asserts nor unknown tokens: a count leaves its type. -/
def Exhausted (f : Fault) : Prop := f = .tokenSpaceExhausted ∨ f = .outstandingOverflow

/-! ## One port -/

/-- No peer looks at a response: the queue waits for the event or for the peer, and for one of them only. -/
structure PortState.Waiting (s : PortState) : Prop where
  awake : s.responseQueue ≠ [] ↔ s.retryResp = true ∨ s.sendResponseEvent = true
  exclusive : s.retryResp = true → s.sendResponseEvent = false

/-- A peer looks at `pkt`, since when the queue had length `queued`. -/
structure PortState.Sending (s : PortState) (pkt : Packet) (queued : Nat) : Prop where
  front : s.responseQueue.head? = some pkt
  noRetry : s.retryResp = false
  grown : queued ≤ s.responseQueue.length
  event : s.sendResponseEvent = true ↔ queued < s.responseQueue.length

/-- A port with what the peer owes it, what was accessed for it and sent from it, and what its peer looks at. -/
structure PortOk (s : PortState) (refused : Bool) (accessed sent : List Packet) (looking : Option (Packet × Nat)) :
    Prop where
  fifo : accessed = sent ++ s.responseQueue
  refused : refused = s.retryResp
  sending : ∀ l ∈ looking, s.Sending l.1 l.2
  waiting : looking = none → s.Waiting

variable {s : PortState} {r : Bool} {accessed sent : List Packet} {looking : Option (Packet × Nat)} {pkt : Packet}

/-- A response that is queued keeps a port in order. -/
theorem PortOk.respond (h : PortOk s r accessed sent looking) (pkt : Packet) :
    PortOk (s.respond pkt) r (accessed ++ [pkt]) sent looking := by
  constructor
  case fifo =>
    rw [h.fifo, List.append_assoc]
    rfl
  case refused => exact h.refused
  case sending =>
    intro l hl
    have hs := h.sending l hl
    have hne : s.responseQueue ≠ [] := by
      intro hnil
      have hfront := hs.front
      rw [hnil] at hfront
      cases hfront
    constructor
    case front =>
      show (s.responseQueue ++ [pkt]).head? = some l.1
      rw [List.head?_append_of_ne_nil _ hne]
      exact hs.front
    case noRetry => exact hs.noRetry
    case grown =>
      have := hs.grown
      simp only [PortState.respond, List.length_append, List.length_singleton]
      omega
    case event =>
      have := hs.grown
      simp only [PortState.respond, hs.noRetry, Bool.not_false, Bool.or_true, true_iff, List.length_append,
        List.length_singleton]
      omega
  case waiting =>
    intro hnone
    have hw := h.waiting hnone
    constructor
    case awake =>
      refine iff_of_true (List.append_ne_nil_of_right_ne_nil _ (List.cons_ne_nil _ _)) ?_
      show s.retryResp = true ∨ (s.sendResponseEvent || !s.retryResp) = true
      cases s.retryResp with
      | true => exact .inl rfl
      | false => exact .inr (Bool.or_true _)
    case exclusive =>
      intro hretry
      show (s.sendResponseEvent || !s.retryResp) = false
      rw [hw.exclusive hretry, show s.retryResp = true from hretry]
      rfl

/-- The answer of the peer, when it takes the response. -/
theorem PortOk.pop {queued : Nat} (h : PortOk s r accessed sent (some (pkt, queued))) (hqueued : 0 < queued) :
    PortOk s.pop r accessed (sent ++ [pkt]) none := by
  have hs := h.sending _ rfl
  obtain ⟨rest, hqueue⟩ : ∃ rest, s.responseQueue = pkt :: rest := by
    cases hq : s.responseQueue with
    | nil =>
        have hfront := hs.front
        rw [hq] at hfront
        cases hfront
    | cons pkt' rest =>
        have hfront := hs.front
        rw [hq] at hfront
        obtain rfl : pkt' = pkt := Option.some.inj hfront
        exact ⟨rest, rfl⟩
  constructor
  case fifo =>
    rw [h.fifo, PortState.pop, hqueue]
    simp
  case refused => exact h.refused
  case sending => exact nofun
  case waiting =>
    intro _
    have hevent := hs.event
    rw [hqueue, List.length_cons] at hevent
    constructor
    case awake =>
      simp only [PortState.pop, hs.noRetry, Bool.false_eq_true, false_or, hqueue, List.tail_cons]
      cases rest with
      | nil =>
          have : s.sendResponseEvent = false := by
            rw [Bool.eq_false_iff, ne_eq, hevent, List.length_nil]
            omega
          simp [this]
      | cons a rest => simp
    case exclusive =>
      intro hretry
      exact absurd hs.noRetry (by rw [show s.retryResp = true from hretry]; decide)

/-- The answer of the peer, when it refuses the response and nothing was queued since. -/
theorem PortOk.refuse {queued : Nat} (h : PortOk s r accessed sent (some (pkt, queued)))
    (hsame : s.responseQueue.length = queued) :
    s.sendResponseEvent = false ∧ PortOk { s with retryResp := true } true accessed sent none := by
  have hs := h.sending _ rfl
  have hevent : s.sendResponseEvent = false := by
    rw [Bool.eq_false_iff, ne_eq, hs.event]
    omega
  refine ⟨hevent, h.fifo, rfl, nofun, fun _ => ⟨?_, fun _ => hevent⟩⟩
  refine iff_of_true (fun hnil => ?_) (.inl rfl)
  have hfront := hs.front
  rw [show s.responseQueue = [] from hnil] at hfront
  cases hfront

/-- A port whose queue is handed to the peer again. -/
theorem PortOk.send {rest : List Packet} (hfifo : accessed = sent ++ s.responseQueue)
    (hqueue : s.responseQueue = pkt :: rest) (hretry : s.retryResp = false) (hevent : s.sendResponseEvent = false) :
    PortOk s false accessed sent (some (pkt, rest.length + 1)) := by
  refine ⟨hfifo, hretry.symm, ?_, nofun⟩
  rintro l hl
  obtain rfl := Option.some.inj hl
  constructor
  case front => rw [hqueue]; rfl
  case noRetry => exact hretry
  case grown => rw [hqueue, List.length_cons]
  case event =>
    rw [hevent, hqueue, List.length_cons]
    simp

/-! ## All ports -/

/-- What a frame sends, and where. -/
def Frame.sending : Frame n → Option (Fin n × Packet × Nat)
  | .sendTimingResp p pkt queued => some (p, pkt, queued)
  | _ => none

/-- What the peers look at. -/
def sendings (stack : List (Frame n)) : List (Fin n × Packet × Nat) := stack.filterMap Frame.sending

/-- The packets that were accessed for a port, in their order. -/
def accessedAt (accessed : List (Access n)) (p : Fin n) : List Packet :=
  (accessed.filter fun a => a.port = p).map Access.pkt

structure PortsOk (w : World n) : Prop where
  distinct : KeysNodup (sendings w.stack)
  each : ∀ p, PortOk (w.portStates p) (w.refused p) (accessedAt w.accessed p) (w.sent p) ((sendings w.stack).lookup p)
  positive : ∀ l ∈ sendings w.stack, 0 < l.2.2

@[simp]
theorem sendings_nil : sendings ([] : List (Frame n)) = [] := rfl

theorem sendings_cons {f : Frame n} (hf : f.sending = none) (stack : List (Frame n)) :
    sendings (f :: stack) = sendings stack := List.filterMap_cons_none hf

@[simp]
theorem sendings_send (p : Fin n) (pkt : Packet) (queued : Nat) (stack : List (Frame n)) :
    sendings (.sendTimingResp p pkt queued :: stack) = (p, pkt, queued) :: sendings stack := rfl

theorem accessedAt_append (accessed : List (Access n)) (a : Access n) (p : Fin n) :
    accessedAt (accessed ++ [a]) p = if a.port = p then accessedAt accessed p ++ [a.pkt] else accessedAt accessed p := by
  unfold accessedAt
  by_cases ha : a.port = p
  · simp [ha]
  · simp [ha]

theorem PortsOk.start : PortsOk (World.start : World n) := by
  refine ⟨List.nodup_nil, fun p => ⟨rfl, rfl, nofun, fun _ => ⟨?_, nofun⟩⟩, nofun⟩
  simp [World.start, PortState.start]

/-- The ports do not see the other fields, nor frames that send nothing. -/
theorem PortsOk.of_same (h : PortsOk w) (hports : ∀ p, (w'.portStates p) = { w.portStates p with
      retryReq := (w'.portStates p).retryReq }) (hrefused : w'.refused = w.refused)
    (haccessed : w'.accessed = w.accessed) (hsent : w'.sent = w.sent) (hstack : sendings w'.stack = sendings w.stack) :
    PortsOk w' := by
  refine ⟨hstack ▸ h.distinct, fun p => ?_, hstack ▸ h.positive⟩
  have hp := h.each p
  rw [hports p, hrefused, haccessed, hsent, hstack]
  exact ⟨hp.fifo, hp.refused, fun l hl => ⟨(hp.sending l hl).front, (hp.sending l hl).noRetry,
    (hp.sending l hl).grown, (hp.sending l hl).event⟩, fun hnone => ⟨(hp.waiting hnone).awake,
    (hp.waiting hnone).exclusive⟩⟩

theorem PortsOk.accessAndRespond (h : PortsOk w) (token : Nat) (pkt : Packet) (p : Fin n) :
    PortsOk (accessAndRespond token pkt p w) := by
  unfold Gem5.accessAndRespond
  split
  · refine ⟨h.distinct, fun q => ?_, h.positive⟩
    show PortOk (Function.update w.portStates p ((w.portStates p).respond pkt) q) (w.refused q)
      (accessedAt (w.accessed ++ [⟨token, pkt, p⟩]) q) (w.sent q) ((sendings w.stack).lookup q)
    rw [accessedAt_append]
    by_cases hq : p = q
    · subst hq
      rw [Function.update_self, if_pos rfl]
      exact (h.each p).respond pkt
    · rw [Function.update_of_ne (Ne.symm hq), if_neg hq]
      exact h.each q
  · exact h

/-- A response is handed to the peer of a port that nobody looks at. -/
theorem PortsOk.sendResponse {s : PortState} (h : PortsOk w) (hfree : p ∉ (sendings w.stack).map Prod.fst)
    (hqueue : s.responseQueue = (w.portStates p).responseQueue) (hne : s.responseQueue ≠ [])
    (hretry : s.retryResp = false) (hevent : s.sendResponseEvent = false) :
    ∃ w', sendResponse p { w.setPort p s with refused := Function.update w.refused p false } = .ok w' ∧
      w' = { w with
        portStates := Function.update w.portStates p s
        refused := Function.update w.refused p false
        stack := w'.stack } ∧
      (∃ pkt queued, w'.stack = .sendTimingResp p pkt queued :: w.stack) ∧ PortsOk w' := by
  obtain ⟨pkt, rest, hcons⟩ := List.exists_cons_of_ne_nil hne
  refine ⟨{ w with
    portStates := Function.update w.portStates p s
    refused := Function.update w.refused p false
    stack := .sendTimingResp p pkt (rest.length + 1) :: w.stack }, ?_, rfl, ⟨pkt, _, rfl⟩, ?_, fun q => ?_, ?_⟩
  · unfold Gem5.sendResponse
    simp [World.setPort, Function.update_self, hretry, hcons, World.push]
  · exact List.nodup_cons.mpr ⟨hfree, h.distinct⟩
  · show PortOk (Function.update w.portStates p s q) (Function.update w.refused p false q) (accessedAt w.accessed q)
      (w.sent q) (((p, pkt, rest.length + 1) :: sendings w.stack).lookup q)
    rw [List.lookup_cons]
    by_cases hq : q = p
    · subst hq
      rw [Function.update_self, Function.update_self, beq_self_eq_true]
      have hfifo := (h.each q).fifo
      rw [← hqueue] at hfifo
      exact PortOk.send hfifo hcons hretry hevent
    · rw [Function.update_of_ne hq, Function.update_of_ne hq, beq_eq_false_iff_ne.mpr hq]
      exact h.each q
  · intro l hl
    rcases List.mem_cons.mp hl with rfl | hl
    · exact Nat.succ_pos _
    · exact h.positive l hl

/-- The head of the stack is the call whose answer comes first. -/
theorem PortsOk.head {pkt : Packet} {queued : Nat} {stack : List (Frame n)} (h : PortsOk w)
    (hstack : w.stack = .sendTimingResp p pkt queued :: stack) :
    PortOk (w.portStates p) (w.refused p) (accessedAt w.accessed p) (w.sent p) (some (pkt, queued)) ∧ 0 < queued ∧
      KeysNodup (sendings stack) ∧ (sendings stack).lookup p = none ∧
      ∀ q, q ≠ p → (sendings w.stack).lookup q = (sendings stack).lookup q := by
  have hdistinct := h.distinct
  have hpositive := h.positive
  have hp := h.each p
  rw [hstack, sendings_send] at hdistinct hpositive hp
  obtain ⟨hfresh, hrest⟩ := List.nodup_cons.mp hdistinct
  rw [List.lookup_cons, beq_self_eq_true] at hp
  refine ⟨hp, hpositive _ List.mem_cons_self, hrest, ?_, ?_⟩
  · rw [List.lookup_eq_none_iff]
    intro l hl
    have hne : p ≠ l.1 := fun heq => hfresh (List.mem_map.mpr ⟨l, hl, heq.symm⟩)
    simpa using hne
  intro q hq
  rw [hstack, sendings_send, List.lookup_cons, beq_eq_false_iff_ne.mpr hq]

/-! ## Tokens -/

/-- The request that is being entered: its token is new, and but for it nothing was taken out that the memory
system still has. -/
structure Entering (w : World n) (pkt : Packet) (token : Nat) (reads : List (Nat × Packet × Fin n))
    (writes : List Nat) : Prop where
  token_lt : token < w.nextAdmissionToken
  reads : (if pkt.isRead then w.outstandingReads.filter (fun e => e.1 ≠ token) else w.outstandingReads) =
    reads.filter fun e => (e.1, true) ∈ w.held
  writes : (if pkt.isRead then w.outstandingWrites else w.outstandingWrites.filter fun t => t ≠ token) =
    writes.filter fun t => (t, false) ∈ w.held
  write : pkt.isRead = false → (token, true) ∉ w.held ∧ ∀ a ∈ w.accessed, a.token ≠ token

/-- What is outstanding is what the memory system has callbacks for, and nothing was accessed twice. -/
structure TokensOk (w : World n) : Prop where
  held_lt : ∀ c ∈ w.held, c.1 < w.nextAdmissionToken
  reads : ∀ t, t ∈ w.outstandingReads.map Prod.fst ↔ (t, true) ∈ w.held
  writes : ∀ t, t ∈ w.outstandingWrites ↔ (t, false) ∈ w.held
  distinct : (w.accessed.map Access.token).Nodup
  accessed_lt : ∀ a ∈ w.accessed, a.token < w.nextAdmissionToken
  fresh : ∀ a ∈ w.accessed, (a.token, true) ∉ w.held
  entering : ∀ p pkt token reads writes, .enqueueing p pkt token reads writes ∈ w.stack →
    Entering w pkt token reads writes

theorem TokensOk.start : TokensOk (World.start : World n) := by
  refine ⟨nofun, fun t => ⟨nofun, nofun⟩, fun t => ⟨nofun, nofun⟩, List.nodup_nil, nofun, nofun, nofun⟩

/-- The tokens do not see the ports, nor frames of other calls. -/
theorem TokensOk.of_same (h : TokensOk w) (hheld : w'.held = w.held) (hnext : w'.nextAdmissionToken = w.nextAdmissionToken)
    (hreads : w'.outstandingReads = w.outstandingReads) (hwrites : w'.outstandingWrites = w.outstandingWrites)
    (haccessed : w'.accessed = w.accessed)
    (hstack : ∀ p pkt token reads writes, .enqueueing p pkt token reads writes ∈ w'.stack →
      .enqueueing p pkt token reads writes ∈ w.stack) : TokensOk w' := by
  refine ⟨?_, ?_, ?_, ?_, ?_, ?_, ?_⟩
  · rw [hheld, hnext]
    exact h.held_lt
  · rw [hreads, hheld]
    exact h.reads
  · rw [hwrites, hheld]
    exact h.writes
  · rw [haccessed]
    exact h.distinct
  · rw [haccessed, hnext]
    exact h.accessed_lt
  · rw [haccessed, hheld]
    exact h.fresh
  · intro p pkt token reads writes hmem
    have he := h.entering p pkt token reads writes (hstack _ _ _ _ _ hmem)
    refine ⟨?_, ?_, ?_, ?_⟩
    · rw [hnext]
      exact he.token_lt
    · rw [hreads, hheld]
      exact he.reads
    · rw [hwrites, hheld]
      exact he.writes
    · rw [hheld, haccessed]
      exact he.write

/-- A packet is accessed under a token that no access had and no outstanding read has. -/
theorem TokensOk.accessAndRespond {token : Nat} (h : TokensOk w) (hlt : token < w.nextAdmissionToken)
    (hread : (token, true) ∉ w.held) (hnew : ∀ a ∈ w.accessed, a.token ≠ token)
    (hother : ∀ p pkt t reads writes, .enqueueing p pkt t reads writes ∈ w.stack → pkt.isRead = false → token ≠ t)
    (pkt : Packet) (p : Fin n) : TokensOk (accessAndRespond token pkt p w) := by
  unfold Gem5.accessAndRespond
  split
  · have hmem : ∀ a, a ∈ w.accessed ++ [(⟨token, pkt, p⟩ : Access n)] → a ∈ w.accessed ∨ a = ⟨token, pkt, p⟩ := by
      intro a ha
      exact (List.mem_append.mp ha).imp id List.mem_singleton.mp
    refine ⟨h.held_lt, h.reads, h.writes, ?_, ?_, ?_, ?_⟩
    · show ((w.accessed ++ [(⟨token, pkt, p⟩ : Access n)]).map Access.token).Nodup
      rw [List.map_append, List.nodup_append]
      refine ⟨h.distinct, List.nodup_singleton _, ?_⟩
      rintro t ht _ ht' rfl
      obtain ⟨a, ha, rfl⟩ := List.mem_map.mp ht
      exact hnew a ha (List.mem_singleton.mp ht')
    · intro a ha
      rcases hmem a ha with ha | rfl
      · exact h.accessed_lt a ha
      · exact hlt
    · intro a ha
      rcases hmem a ha with ha | rfl
      · exact h.fresh a ha
      · exact hread
    · intro p' pkt' t reads writes hin
      have he := h.entering p' pkt' t reads writes hin
      refine ⟨he.token_lt, he.reads, he.writes, fun hwrite => ⟨(he.write hwrite).1, fun a ha => ?_⟩⟩
      rcases hmem a ha with ha | rfl
      · exact (he.write hwrite).2 a ha
      · exact hother p' pkt' t reads writes hin hwrite
  · exact h

theorem mem_map_filter_ne {α : Type} {l : List (Nat × α)} {t u : Nat} :
    t ∈ (l.filter fun e => e.1 ≠ u).map Prod.fst ↔ t ∈ l.map Prod.fst ∧ t ≠ u := by
  constructor
  · intro h
    obtain ⟨e, he, rfl⟩ := List.mem_map.mp h
    obtain ⟨he, hne⟩ := List.mem_filter.mp he
    exact ⟨List.mem_map_of_mem he, by simpa using hne⟩
  · rintro ⟨h, hne⟩
    obtain ⟨e, he, rfl⟩ := List.mem_map.mp h
    exact List.mem_map_of_mem (List.mem_filter.mpr ⟨he, by simpa using hne⟩)

/-- A read that completes is no longer outstanding. -/
theorem TokensOk.takeRead (h : TokensOk w) (token : Nat) :
    TokensOk { w with
      held := w.held.filter fun c => c ≠ (token, true)
      outstandingReads := w.outstandingReads.filter fun e => e.1 ≠ token } := by
  refine ⟨fun c hc => h.held_lt c (List.mem_filter.mp hc).1, fun t => ?_, fun t => ?_, h.distinct, h.accessed_lt,
    fun a ha hheld => h.fresh a ha (List.mem_filter.mp hheld).1, ?_⟩
  · rw [mem_map_filter_ne, h.reads, List.mem_filter]
    simp
  · rw [h.writes, List.mem_filter]
    simp
  · intro p pkt t reads writes hin
    have he := h.entering p pkt t reads writes hin
    refine ⟨he.token_lt, ?_, ?_, fun hwrite => ⟨fun hheld => (he.write hwrite).1 (List.mem_filter.mp hheld).1,
      (he.write hwrite).2⟩⟩
    · have hreads := congrArg (List.filter fun e => decide (e.1 ≠ token)) he.reads
      rw [List.filter_filter] at hreads
      refine Eq.trans ?_ (hreads.trans ?_)
      · split
        · rw [List.filter_filter, List.filter_filter]
          refine List.filter_congr fun e _ => Bool.and_comm _ _
        · rfl
      · refine List.filter_congr fun e _ => ?_
        simp [List.mem_filter, and_comm]
    · refine he.writes.trans (List.filter_congr fun u _ => ?_)
      simp [List.mem_filter]

/-- A write that completes is no longer outstanding. -/
theorem TokensOk.takeWrite (h : TokensOk w) (token : Nat) :
    TokensOk { w with
      held := w.held.filter fun c => c ≠ (token, false)
      outstandingWrites := w.outstandingWrites.filter fun t => t ≠ token } := by
  refine ⟨fun c hc => h.held_lt c (List.mem_filter.mp hc).1, fun t => ?_, fun t => ?_, h.distinct, h.accessed_lt,
    fun a ha hheld => h.fresh a ha (List.mem_filter.mp hheld).1, ?_⟩
  · rw [h.reads, List.mem_filter]
    simp
  · rw [List.mem_filter, h.writes, List.mem_filter]
    simp
  · intro p pkt t reads writes hin
    have he := h.entering p pkt t reads writes hin
    refine ⟨he.token_lt, ?_, ?_, fun hwrite => ⟨fun hheld => (he.write hwrite).1 (List.mem_filter.mp hheld).1,
      (he.write hwrite).2⟩⟩
    · refine he.reads.trans (List.filter_congr fun u _ => ?_)
      simp [List.mem_filter]
    · have hwrites := congrArg (List.filter fun u => decide (u ≠ token)) he.writes
      rw [List.filter_filter] at hwrites
      refine Eq.trans ?_ (hwrites.trans ?_)
      · split
        · rfl
        · rw [List.filter_filter, List.filter_filter]
          refine List.filter_congr fun e _ => Bool.and_comm _ _
      · refine List.filter_congr fun e _ => ?_
        simp [List.mem_filter, and_comm]

end Ramulator.Gem5
