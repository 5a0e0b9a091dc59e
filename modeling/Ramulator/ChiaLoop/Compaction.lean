/-
# Ramulator.ChiaLoop.Compaction — an old part of a conversation gives way to a summary.

`AdkCompactor.__call__` (`framework/compaction.py`) runs before a request to the model. While the history is
larger than a threshold, it has a summary written of the oldest groups after the head, and puts one message with
it in their place. The last groups stay. It gives up where the result would not be smaller.

Outside of the code are the counts of the provider, the worker that asks for summaries, the model, the anchor
and how a message is dumped: whatever they answer, now or later, is a parameter (`World`), and each may raise.
Events are written to a stream; the process, or the turn that it is in, may end before any of them. A limit
times a fraction is a parameter as well.
-/
import Ramulator.ChiaLoop.TextChunks
import Ramulator.ChiaLoop.ToolGroups
import Ramulator.Lib.Durable
import Mathlib.Tactic.Ring

namespace Ramulator.ChiaLoop.Compaction

open Ramulator.Lib
open Ramulator.Lib.Durable (read write note raise wp)

variable {M : Type}

/-! ## State and surroundings -/

/-- `_native_event`. -/
inductive Event where
  | contextCountError
  | contextCount (tokens : Nat)
  | deferred (reason : String) (tokensBefore : Nat) (historySha256 : Option String) (proposed : Option Nat)
  | started (historySha256 : String) (removed tokensBefore : Nat)
  | request
  | requestError
  | response
  | completed (beforeSha256 afterSha256 : String) (tokensBefore tokensAfter removed : Nat) (summary : List Char)
  deriving DecidableEq, Repr

structure Session (M : Type) where
  history : List M
  events : List Event := []

/-- The fields of `ContextCompaction`; `threshold` is the part of the limit that triggers compaction, `budget`
the part that one summary may read. -/
structure Policy where
  inputLimitTokens : Nat
  threshold : Nat
  budget : Nat
  retainToolRounds : Nat
  retain_pos : 0 < retainToolRounds

/-- The first choice of a response. -/
structure Choice where
  finished : Bool
  content : Option Content
  calls : Bool

/-- What the code calls, given the events so far. -/
structure World (M : Type) where
  dump : M → Json
  config : List (String × Json)
  countTokens : List Event → List M → Except Exn (Option Int)
  outgoing : List Event → List (List Char) → Except Exn (List M)
  generate : List Event → List M → Except Exn (Option Choice)
  conclude : List Event → Content → Except Exn (List Part)
  anchor : Option (List Event → Except Exn Json)
  sha256 : List Char → String

abbrev Proc (M : Type) := Durable (Session M) Exn

def emit (e : Event) : Proc M Unit := write fun s => .ok { s with events := s.events ++ [e] }

def lift {α : Type} : Except Exn α → Proc M α
  | .ok a => pure a
  | .error e => raise e

/-- `if c: raise e`. -/
def refuse (c : Prop) [Decidable c] (e : Exn) : Proc M Unit := if c then raise e else pure ()

/-- `canonical_json`, which refuses some numbers. -/
def canonical (v : Json) : Except Exn (List Char) :=
  match v.canonicalJson with
  | some text => .ok text
  | none => .error (.valueError "Out of range float values are not JSON compliant")

section

variable (p : Provider M) (policy : Policy) (w : World M)

/-- `digest_json` of a history. -/
def digest (history : List M) : Except Exn String := (canonical (.arr (history.map w.dump))).map w.sha256

/-! ## Sizes -/

/-- The count of the provider. -/
def counted (items : List M) : Proc M Nat := do
  let s ← read
  match w.countTokens s.events items with
  | .error e => do
      emit .contextCountError
      raise e
  | .ok none => raise (.valueError "provider returned invalid context token count")
  | .ok (some n) => do
      refuse (n < 0) (.valueError "provider returned invalid context token count")
      pure n.toNat

/-- A bound on the encoding. -/
def encodedSize (items : List M) : Proc M Nat := do
  let members := (w.config.filter fun m => m.1 ≠ "messages") ++ [("messages", .arr (items.map w.dump))]
  let text ← lift (canonical (.obj members))
  pure (text.length + 32 * items.length)

def sizeOf (items : List M) : Proc M Nat := if p.vertex then counted w items else encodedSize w items

/-- `count`. -/
def count (items : List M) : Proc M Nat := do
  let value ← sizeOf p w items
  emit (.contextCount value)
  pure value

/-- `defer`: the history stays as it is. -/
def defer (before : Nat) (reason : String) (proposed : Option Nat) : Proc M Unit := do
  refuse (p.vertex ∧ before ≥ policy.inputLimitTokens)
    (.valueError ("protected context exceeds provider limit; " ++ reason))
  let s ← read
  let sha ← lift (digest w s.history)
  emit (.deferred reason before (some sha) proposed)

/-! ## The groups that go -/

/-- The loop over the eligible groups: at least two, and then as many as the budget allows. -/
def selectFrom (budget : Nat) : Nat → Nat → List (List M) → Except Exn (List (List M))
  | _, _, [] => .ok []
  | index, size, group :: groups =>
      canonical (.arr (group.map w.dump)) >>= fun text =>
        if index ≥ 2 ∧ size + text.length > budget then .ok []
        else (selectFrom budget (index + 1) (size + text.length) groups).map (group :: ·)

/-- `groups[head : -retain]`. -/
def eligible (head retain : Nat) (groups : List (List M)) : List (List M) :=
  (groups.take (groups.length - retain)).drop head

def summaryOnly (groups : List (List M)) : Bool :=
  match groups with
  | [[item]] => p.isMemory item
  | _ => false

/-! ## Summaries -/

/-- `str.isspace`. -/
def isSpace (c : Char) : Bool :=
  (0x09 ≤ c.toNat && c.toNat ≤ 0x0d) || (0x1c ≤ c.toNat && c.toNat ≤ 0x20) || c.toNat = 0x85 || c.toNat = 0xa0 ||
    c.toNat = 0x1680 || (0x2000 ≤ c.toNat && c.toNat ≤ 0x200a) || c.toNat = 0x2028 || c.toNat = 0x2029 ||
    c.toNat = 0x202f || c.toNat = 0x205f || c.toNat = 0x3000

/-- `request`: the worker's request goes to the model. -/
def request (items : List M) : Proc M Content := do
  let tokens ← count p w items
  refuse (p.vertex ∧ tokens ≥ policy.inputLimitTokens)
    (.valueError "summary input exceeds provider window; no model call made")
  emit .request
  let s ← read
  match w.generate s.events items with
  | .error e => do
      emit .requestError
      raise e
  | .ok choice => do
      emit .response
      match choice with
      | none => raise (.runtimeError "summary did not finish; original context retained")
      | some choice => do
          refuse (choice.finished = false ∨ choice.calls ∨ (p.vertex ∧ choice.content.isNone))
            (.runtimeError "summary did not finish; original context retained")
          pure (choice.content.getD { role := some "model", parts := [{}] })

/-- One turn of the loop over the chunks. -/
def summarize (summary chunk : List Char) : Proc M (List Char) := do
  let earlier := if summary = [] then [] else ["Earlier compacted history:\n".toList ++ summary]
  let s ← read
  let items ← lift (w.outgoing s.events (earlier ++ [chunk]))
  let content ← request p policy w items
  let s ← read
  let parts ← lift (w.conclude s.events content)
  let summary := (parts.filter fun part => !part.thought).flatMap fun part => part.text.getD []
  refuse (summary.all isSpace ∨ (encode summary).length > policy.budget)
    (.valueError "empty or oversized ADK summary; context retained")
  pure summary

/-- The message that takes the place of the groups. -/
def memoryText (summary : List Char) : Proc M (List Char) := do
  match w.anchor with
  | none => pure summary
  | some anchor =>
      let s ← read
      let draft ← lift (anchor s.events >>= canonical)
      pure (summary ++ "\n\nCurrent draft (verbatim, not summarized):\n".toList ++ draft)

/-! ## The loop -/

/-- Enough turns for `text_chunks`. -/
def chunkFuel (text : List Char) : Nat := text.length * (text.length + 2) + text.length + 2

/-- How far the loops of `text_chunks` are. -/
def chunkMeasure (s : Chunking) : Nat :=
  s.text.length * (s.text.length + 2) + (s.length.getD (s.text.length + 1))

/-- The two loops go down together. -/
theorem chunkMeasure_lt {text : List Char} {maximumBytes : Nat} {s s' : Chunking} (hs' : Inv text maximumBytes s')
    (h : remaining s' < remaining s) : chunkMeasure s' < chunkMeasure s := by
  have hbound : s'.length.getD (s'.text.length + 1) ≤ s'.text.length + 1 := by
    cases hlength : s'.length with
    | none => exact Nat.le_refl _
    | some length => exact Nat.le_succ_of_le (hs'.length length hlength).2
  unfold remaining at h
  rw [Prod.Lex.toLex_lt_toLex] at h
  unfold chunkMeasure
  rcases h with hshorter | ⟨hsame, hless⟩
  · have hmul : s'.text.length * (s'.text.length + 2) + 2 * s'.text.length + 3 ≤
        s.text.length * (s.text.length + 2) := by
      have hsucc : (s'.text.length + 1) * (s'.text.length + 1 + 2) ≤ s.text.length * (s.text.length + 2) :=
        Nat.mul_le_mul hshorter (Nat.add_le_add_right hshorter 2)
      have hexpand : (s'.text.length + 1) * (s'.text.length + 1 + 2) =
          s'.text.length * (s'.text.length + 2) + 2 * s'.text.length + 3 := by ring
      omega
    omega
  · dsimp only at hsame hless
    rw [hsame]
    have hless' : s'.length.getD (s'.text.length + 1) < s.length.getD (s.text.length + 1) := by
      cases hl : s'.length <;> cases hl' : s.length <;> rw [hl, hl'] at hless <;> exact hless
    rw [hsame] at hless'
    omega

theorem chunks_of_fuel (text : List Char) {maximumBytes : Nat} (hmax : 4 ≤ maximumBytes) :
    ∃ chunks, Loop.run (chunkStep maximumBytes) (chunkFuel text) { text := text } = some chunks ∧
      chunks.flatten = text := by
  have hstart : Inv text maximumBytes { text := text } := ⟨rfl, nofun, nofun⟩
  have hfuel : chunkMeasure { text := text } < chunkFuel text := Nat.lt_succ_self _
  refine Loop.run_of_measure (fun s hs => ?_) hstart hfuel
  rcases hs.step hmax with ⟨chunks, hdone, hjoined, -⟩ | ⟨s', hrunning, hs', hless⟩
  · exact .inl ⟨chunks, hdone, hjoined⟩
  · exact .inr ⟨s', hrunning, hs', chunkMeasure_lt hs' hless⟩

/-- `text_chunks`. -/
def allChunks (text : List Char) (maximumBytes : Nat) : Except Exn (List (List Char)) :=
  if h : maximumBytes < 4 then .error (.valueError "summary chunk must hold at least one UTF-8 character")
  else .ok ((Loop.run (chunkStep maximumBytes) (chunkFuel text) { text := text }).get
    (by obtain ⟨chunks, hrun, -⟩ := chunks_of_fuel text (Nat.not_lt.mp h)
        rw [hrun]
        rfl))

def memoryMessage (text : List Char) : M := p.memory (memoryPrefix ++ text)

/-- The groups that are selected give way to their summary. -/
def replaced (groups : List (List M)) (head : Nat) (selected : List M) (text : List Char) (history : List M) : List M :=
  let prefixLength := ((groups.take head).map List.length).sum
  history.take prefixLength ++ [memoryMessage p text] ++ history.drop (prefixLength + selected.length)

/-- The rest of a turn of the `while` loop, once it is known what to summarize. It returns the size of the new
history, which is smaller, or nothing. -/
def replace (before : Nat) (groups : List (List M)) (head : Nat) (selected : List M) :
    Proc M (Option (Fin before)) := do
  let records ← lift (selected.mapM fun item => canonical (w.dump item))
  let s ← read
  let beforeSha ← lift (digest w s.history)
  emit (.started beforeSha selected.length before)
  let chunks ← lift (allChunks (List.intercalate ['\n'] records) policy.budget)
  let summary ← chunks.foldlM (summarize p policy w) []
  let text ← memoryText w summary
  let proposed := replaced p groups head selected text s.history
  let after ← count p w proposed
  if h : after < before then do
    note fun s => { s with history := proposed }
    let afterSha ← lift (digest w proposed)
    emit (.completed beforeSha afterSha before after selected.length summary)
    pure (some ⟨after, h⟩)
  else do
    defer p policy w before "replacement_did_not_shrink" (some after)
    pure none

/-- A turn of the `while` loop. -/
def turn (before : Nat) : Proc M (Option (Fin before)) := do
  if before ≤ policy.threshold then pure none
  else
    let s ← read
    let groups ← lift (p.toolGroups s.history)
    let head ← lift (p.head s.history)
    let candidates := eligible head policy.retainToolRounds groups
    if candidates = [] then
      if before < policy.inputLimitTokens then pure none
      else if p.vertex = false then do
        emit (.deferred "protected_history_has_only_a_conservative_size_bound" before none none)
        pure none
      else raise (.valueError "protected context exceeds threshold; no completed prefix to summarize")
    else if summaryOnly p candidates then do
      defer p policy w before "only_prior_summary_is_eligible" none
      pure none
    else do
      let selected ← lift (selectFrom w policy.budget 0 0 candidates)
      replace p policy w before groups head selected.flatten

/-- The `while` loop, whose size goes down. -/
def loop (before : Nat) : Proc M Unit :=
  turn p policy w before >>= fun r =>
    match r with
    | none => pure ()
    | some after => loop after.val
termination_by before
decreasing_by exact after.isLt

/-- `AdkCompactor.__call__`. -/
def call (pendingTools : Bool) : Proc M Unit := do
  refuse pendingTools (.valueError "cannot compact pending tool effects")
  let s ← read
  let before ← count p w s.history
  loop p policy w before

end

end Ramulator.ChiaLoop.Compaction
