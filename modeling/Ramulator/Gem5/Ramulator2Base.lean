/-
# Ramulator.Gem5.Ramulator2Base — the ports of the gem5 memory object, call by call.

`Ramulator2Base` (`ramulator2_base.cc`) stands between gem5's ports and the memory system. Its functions
call out: `sendTimingResp` and `sendRetryReq` run code of a peer, which may call back before it answers;
the memory system calls completions from inside its tick and from inside an admission. A step of the model
is what runs between two such calls. What is yet to return is on a stack of frames.

Time is left to the environment: whether a service edge is due is given with the event, and so is the order
of events. A packet has the two answers that the port code asks of it.
-/
import Ramulator.Lib.Run
import Mathlib.Data.List.FinRange
import Mathlib.Logic.Function.Basic

namespace Ramulator.Gem5

open Ramulator.Lib

/-- A packet. One that does not read writes: `recvTimingReq` refuses any other. -/
structure Packet where
  ptr : Nat
  isRead : Bool
  needsResponse : Bool
  deriving DecidableEq

/-- `PortState`. Of the event it is known whether it is scheduled. -/
structure PortState where
  retryReq : Bool
  retryResp : Bool
  responseQueue : List Packet
  sendResponseEvent : Bool
  deriving DecidableEq

def PortState.start : PortState := { retryReq := false, retryResp := false, responseQueue := [], sendResponseEvent := false }

/-- The asserts and panics of the port code. -/
inductive Fault where
  | responseWhileRetrying
  | emptyResponseQueue
  | refusedWhileScheduled
  | retryNotAwaited
  | admissionNotBegun
  | nestedAdmission
  | reusedToken
  | unknownToken
  | rejectedAfterCompletion
  | tokenSpaceExhausted
  | outstandingOverflow
  deriving DecidableEq

/-- A call that is yet to return. -/
inductive Frame (n : Nat) where
  /-- `sendTimingResp`, with what it sends and the length of the queue at the call. -/
  | sendTimingResp (port : Fin n) (pkt : Packet) (queued : Nat)
  /-- The tick of the memory system. -/
  | memoryTick
  /-- `sendRetryReq`, with the ports that `tick` has not looked at. -/
  | sendRetryReq (rest : List (Fin n))
  /-- `recvTimingReq`, in `synchronizeClock`. -/
  | synchronizing (port : Fin n) (pkt : Packet)
  /-- `recvTimingReq`, in `receive_external_requests`, with what was outstanding before. -/
  | enqueueing (port : Fin n) (pkt : Packet) (token : Nat) (reads : List (Nat × Packet × Fin n)) (writes : List Nat)
  deriving DecidableEq

/-- The fields of `Ramulator2Base`. -/
structure Ramulator2Base (n : Nat) where
  portStates : Fin n → PortState
  outstandingReads : List (Nat × Packet × Fin n)
  outstandingWrites : List Nat
  nextAdmissionToken : Nat
  admissionInProgress : Bool
  drainSignalDeferred : Bool
  inService : Bool

/-- A packet that was accessed and needs a response. -/
structure Access (n : Nat) where
  token : Nat
  pkt : Packet
  port : Fin n

/-- The object, what is yet to return, what others owe it, and what has happened. -/
structure World (n : Nat) extends Ramulator2Base n where
  stack : List (Frame n)
  /-- The callbacks that the memory system has: a token, and whether it is a read's. -/
  held : List (Nat × Bool)
  /-- The peer of the port refused a response and has not asked for it again. -/
  refused : Fin n → Bool
  accessed : List (Access n)
  sent : Fin n → List Packet
  /-- At each `signalDrainDone`: what was outstanding, and whether an admission was in progress. -/
  signals : List (Nat × Bool)
  /-- How often `retryReq` was set, how often `sendRetryReq` was called, and the services when it was last set. -/
  asked : Fin n → Nat
  answered : Fin n → Nat
  askedAt : Fin n → Nat
  /-- The services that have begun. -/
  services : Nat

variable {n : Nat}

/-- The object after its construction. -/
def World.start : World n where
  portStates := fun _ => .start
  outstandingReads := []
  outstandingWrites := []
  nextAdmissionToken := 1
  admissionInProgress := false
  drainSignalDeferred := false
  inService := false
  stack := []
  held := []
  refused := fun _ => false
  accessed := []
  sent := fun _ => []
  signals := []
  asked := fun _ => 0
  answered := fun _ => 0
  askedAt := fun _ => 0
  services := 0

def World.setPort (w : World n) (p : Fin n) (s : PortState) : World n :=
  { w with portStates := Function.update w.portStates p s }

def World.push (f : Frame n) (w : World n) : World n := { w with stack := f :: w.stack }

/-! ## Outstanding requests and the drain signal -/

/-- What `nbrOutstanding` counts. -/
def Ramulator2Base.outstanding (s : Ramulator2Base n) : Nat :=
  s.outstandingReads.length + s.outstandingWrites.length +
    (List.finRange n).foldr (fun p total => (s.portStates p).responseQueue.length + total) 0

/-- `nbrOutstanding`. -/
def nbrOutstanding (w : World n) : Except Fault Nat :=
  if 4294967295 < w.outstanding then .error .outstandingOverflow else .ok w.outstanding

def signalDrainDone (w : World n) : World n :=
  { w with signals := w.signals ++ [(w.outstanding, w.admissionInProgress)] }

/-- `maybeSignalDrainDone`. -/
def maybeSignalDrainDone (w : World n) : Except Fault (World n) := do
  let k ← nbrOutstanding w
  if k ≠ 0 then pure w
  else if w.admissionInProgress then pure { w with drainSignalDeferred := true }
  else pure (signalDrainDone w)

/-- The drain signal that was put off while the admission was in progress. -/
def signalDeferred (w : World n) : Except Fault (World n) := do
  let k ← nbrOutstanding w
  if k = 0 then pure (signalDrainDone w) else pure w

/-- `endAdmission`. -/
def endAdmission (w : World n) : Except Fault (World n) :=
  if w.admissionInProgress = false then .error .admissionNotBegun
  else if w.drainSignalDeferred then
    signalDeferred { w with admissionInProgress := false, drainSignalDeferred := false }
  else .ok { w with admissionInProgress := false }

/-! ## Responses -/

/-- A response at the end of the queue. -/
def PortState.respond (s : PortState) (pkt : Packet) : PortState :=
  { s with
    responseQueue := s.responseQueue ++ [pkt]
    sendResponseEvent := s.sendResponseEvent || !s.retryResp }

/-- `accessAndRespond`. -/
def accessAndRespond (token : Nat) (pkt : Packet) (p : Fin n) (w : World n) : World n :=
  if pkt.needsResponse then
    { w.setPort p ((w.portStates p).respond pkt) with accessed := w.accessed ++ [⟨token, pkt, p⟩] }
  else w

/-- `sendResponse`, up to the call. -/
def sendResponse (p : Fin n) (w : World n) : Except Fault (World n) :=
  if (w.portStates p).retryResp then .error .responseWhileRetrying
  else
    match (w.portStates p).responseQueue with
    | [] => .error .emptyResponseQueue
    | pkt :: rest => .ok (w.push (.sendTimingResp p pkt (rest.length + 1)))

/-- The queue without its front, and an event for what is left. -/
def PortState.pop (s : PortState) : PortState :=
  { s with
    responseQueue := s.responseQueue.tail
    sendResponseEvent := s.sendResponseEvent || !s.responseQueue.tail.isEmpty }

/-- `sendResponse`, after the call. -/
def responseAnswered (p : Fin n) (pkt : Packet) (success : Bool) (w : World n) : Except Fault (World n) :=
  if success then
    maybeSignalDrainDone
      { w.setPort p (w.portStates p).pop with sent := Function.update w.sent p (w.sent p ++ [pkt]) }
  else if (w.portStates p).sendResponseEvent then .error .refusedWhileScheduled
  else
    .ok { w.setPort p { w.portStates p with retryResp := true } with refused := Function.update w.refused p true }

/-- `recvRespRetry`. -/
def recvRespRetry (p : Fin n) (w : World n) : Except Fault (World n) :=
  if (w.portStates p).retryResp = false then .error .retryNotAwaited
  else
    sendResponse p
      { w.setPort p { w.portStates p with retryResp := false } with refused := Function.update w.refused p false }

/-! ## Completions -/

/-- The callback of a read. -/
def readCompleted (token : Nat) (w : World n) : Except Fault (World n) :=
  match w.outstandingReads.lookup token with
  | none => .error .unknownToken
  | some (pkt, p) =>
      maybeSignalDrainDone (accessAndRespond token pkt p
        { w with outstandingReads := w.outstandingReads.filter fun e => e.1 ≠ token })

/-- The callback of a write. -/
def writeCompleted (token : Nat) (w : World n) : Except Fault (World n) :=
  if token ∈ w.outstandingWrites then
    maybeSignalDrainDone { w with outstandingWrites := w.outstandingWrites.filter fun t => t ≠ token }
  else .error .unknownToken

/-- The memory system calls a callback, and has it no more. -/
def complete (token : Nat) (isRead : Bool) (w : World n) : Except Fault (World n) :=
  let w := { w with held := w.held.filter fun c => c ≠ (token, isRead) }
  if isRead then readCompleted token w else writeCompleted token w

/-! ## Admission -/

/-- `beginAdmission`, `allocateAdmissionToken`, and the call of `receive_external_requests`. -/
def beginRequest (p : Fin n) (pkt : Packet) (w : World n) : Except Fault (World n) :=
  let token := w.nextAdmissionToken
  if w.admissionInProgress then .error .nestedAdmission
  else if token = 18446744073709551615 then .error .tokenSpaceExhausted
  else if pkt.isRead && decide (token ∈ w.outstandingReads.map Prod.fst) ||
      !pkt.isRead && decide (token ∈ w.outstandingWrites) then .error .reusedToken
  else
    .ok { w with
      admissionInProgress := true
      nextAdmissionToken := token + 1
      outstandingReads := if pkt.isRead then (token, pkt, p) :: w.outstandingReads else w.outstandingReads
      outstandingWrites := if pkt.isRead then w.outstandingWrites else token :: w.outstandingWrites
      held := (token, pkt.isRead) :: w.held
      stack := .enqueueing p pkt token w.outstandingReads w.outstandingWrites :: w.stack }

/-- `recvTimingReq`, after `synchronizeClock`. -/
def acceptRequest (p : Fin n) (pkt : Packet) (w : World n) : Except Fault (World n) :=
  if (w.portStates p).retryReq then .ok w else beginRequest p pkt w

/-- What was entered for a request that the memory system rejected is taken back. -/
def reject (p : Fin n) (pkt : Packet) (token : Nat) (w : World n) : World n :=
  { w.setPort p { w.portStates p with retryReq := true } with
    outstandingReads := if pkt.isRead then w.outstandingReads.filter fun e => e.1 ≠ token else w.outstandingReads
    outstandingWrites := if pkt.isRead then w.outstandingWrites else w.outstandingWrites.filter fun t => t ≠ token
    held := w.held.filter fun c => c ≠ (token, pkt.isRead)
    asked := Function.update w.asked p (w.asked p + 1)
    askedAt := Function.update w.askedAt p w.services }

/-- `recvTimingReq`, after `receive_external_requests`. -/
def requestReturned (p : Fin n) (pkt : Packet) (token : Nat) (success : Bool) (w : World n) :
    Except Fault (World n) :=
  if success then endAdmission (if pkt.isRead then w else accessAndRespond token pkt p w)
  else if pkt.isRead && decide (token ∉ w.outstandingReads.map Prod.fst) ||
      !pkt.isRead && decide (token ∉ w.outstandingWrites) then .error .rejectedAfterCompletion
  else endAdmission (reject p pkt token w)

/-! ## Service -/

/-- `tick` in timing mode, up to the tick of the memory system. -/
def tick (clockEdgeFirst : Bool) (w : World n) : World n :=
  { w with inService := w.inService || clockEdgeFirst, stack := .memoryTick :: w.stack, services := w.services + 1 }

/-- The end of `tick`, and of the `synchronizeClock` that called it. -/
def endService (clockEdgeFirst : Bool) (w : World n) : Except Fault (World n) :=
  match w.stack with
  | .synchronizing p pkt :: stack => acceptRequest p pkt { w with inService := w.inService && !clockEdgeFirst, stack }
  | _ => .ok { w with inService := w.inService && !clockEdgeFirst }

/-- `sendRetryReq` on the ports that wait for one, in turn. -/
def retryLoop (clockEdgeFirst : Bool) : List (Fin n) → World n → Except Fault (World n)
  | [], w => endService clockEdgeFirst w
  | p :: rest, w =>
      if (w.portStates p).retryReq then
        .ok { w.setPort p { w.portStates p with retryReq := false } with
          stack := .sendRetryReq rest :: w.stack
          answered := Function.update w.answered p (w.answered p + 1) }
      else retryLoop clockEdgeFirst rest w

/-- `synchronizeClock` ticks. -/
def synchronizes (clockEdgeFirst edge : Bool) (w : World n) : Bool := clockEdgeFirst && !w.inService && edge

/-- `recvTimingReq`. -/
def recvTimingReq (clockEdgeFirst : Bool) (p : Fin n) (pkt : Packet) (edge : Bool) (w : World n) :
    Except Fault (World n) :=
  if synchronizes clockEdgeFirst edge w then .ok (tick clockEdgeFirst (w.push (.synchronizing p pkt)))
  else acceptRequest p pkt w

/-! ## Steps -/

inductive Event (n : Nat) where
  | recvTimingReq (port : Fin n) (pkt : Packet) (edge : Bool)
  | complete (token : Nat) (isRead : Bool)
  /-- `receive_external_requests` returns. -/
  | requestReturned (success : Bool)
  /-- The tick of the memory system returns. -/
  | memoryTicked
  /-- `sendRetryReq` returns. -/
  | retryReqReturned
  | sendResponseEvent (port : Fin n)
  /-- `sendTimingResp` returns. -/
  | responseAnswered (success : Bool)
  | recvRespRetry (port : Fin n)
  | tickEvent (timingMode : Bool)
  /-- `resetStats` and the dumps. -/
  | synchronizeClock (edge : Bool)
  | drain

/-- One step. An event that does not fit the stack does nothing. -/
def step (clockEdgeFirst : Bool) (e : Event n) (w : World n) : Except Fault (World n) :=
  match e with
  | .recvTimingReq p pkt edge => recvTimingReq clockEdgeFirst p pkt edge w
  | .complete token isRead => complete token isRead w
  | .requestReturned success =>
      match w.stack with
      | .enqueueing p pkt token _ _ :: stack => requestReturned p pkt token success { w with stack }
      | _ => .ok w
  | .memoryTicked =>
      match w.stack with
      | .memoryTick :: stack => retryLoop clockEdgeFirst (List.finRange n) { w with stack }
      | _ => .ok w
  | .retryReqReturned =>
      match w.stack with
      | .sendRetryReq rest :: stack => retryLoop clockEdgeFirst rest { w with stack }
      | _ => .ok w
  | .sendResponseEvent p => sendResponse p (w.setPort p { w.portStates p with sendResponseEvent := false })
  | .responseAnswered success =>
      match w.stack with
      | .sendTimingResp p pkt _ :: stack => responseAnswered p pkt success { w with stack }
      | _ => .ok w
  | .recvRespRetry p => recvRespRetry p w
  | .tickEvent timingMode => if timingMode then .ok (tick clockEdgeFirst w) else .ok w
  | .synchronizeClock edge => if synchronizes clockEdgeFirst edge w then .ok (tick clockEdgeFirst w) else .ok w
  | .drain => do
      let _ ← nbrOutstanding w
      pure w

/-- It is the turn of a peer: nothing is under way, or what is under way is a call to a peer. -/
def peerTurn : List (Frame n) → Bool
  | [] => true
  | .sendTimingResp .. :: _ => true
  | .sendRetryReq .. :: _ => true
  | _ => false

/-- The memory system is under way. -/
def memoryTurn : List (Frame n) → Bool
  | .memoryTick :: _ => true
  | .enqueueing .. :: _ => true
  | _ => false

/-- What the others may do. A peer asks again only for a response that it refused; the memory system calls a
callback that it has, once, and not that of a request that it rejects. -/
def Allowed (w : World n) : Event n → Prop
  | .recvTimingReq .. => peerTurn w.stack = true
  | .complete token isRead => memoryTurn w.stack = true ∧ (token, isRead) ∈ w.held
  | .requestReturned success =>
      ∃ p pkt token reads writes stack, w.stack = .enqueueing p pkt token reads writes :: stack ∧
        (success = false → (token, pkt.isRead) ∈ w.held)
  | .memoryTicked => ∃ stack, w.stack = .memoryTick :: stack
  | .retryReqReturned => ∃ rest stack, w.stack = .sendRetryReq rest :: stack
  | .sendResponseEvent p => w.stack = [] ∧ (w.portStates p).sendResponseEvent = true
  | .responseAnswered _ => ∃ p pkt queued stack, w.stack = .sendTimingResp p pkt queued :: stack
  | .recvRespRetry p => peerTurn w.stack = true ∧ w.refused p = true
  | .tickEvent _ => w.stack = []
  | .synchronizeClock _ => peerTurn w.stack = true
  | .drain => peerTurn w.stack = true

end Ramulator.Gem5
