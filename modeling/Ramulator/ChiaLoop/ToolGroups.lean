/-
# Ramulator.ChiaLoop.ToolGroups — exchanges that may not be taken apart.

`tool_groups` (`framework/compaction.py`) divides the history of a conversation: a message with tool calls goes
with the replies to them, every other message stands alone. The two providers write this down in different
ways. For Gemini the next message replies to all calls at once, in their order; for the others there is a
message for each call. A reply without its call and a call without its reply are refused.

`Provider` is what the rest of compaction needs of a provider's messages.
-/
import Ramulator.Lib.Blocks
import Ramulator.Lib.Fallible
import Ramulator.Lib.Json

namespace Ramulator.ChiaLoop.Compaction

open Ramulator.Lib

/-! ## Exceptions -/

/-- What compaction raises, and what it lets through from the provider and the summarizer. -/
inductive Exn where
  | valueError (message : String)
  | runtimeError (message : String)
  | keyError
  | indexError
  | external (what : String)
  deriving DecidableEq, Repr

/-! ## Messages -/

/-- The start of a memory. -/
def memoryPrefix : List Char :=
  "[Compacted working history; source and measurement files are authoritative.]\n".toList

/-- A function call or its response, as `native_dict` has it: fields that are not set are missing. -/
structure FunctionPart where
  id : Option String := none
  name : Option String := none
  body : Json := .null

structure Part where
  text : Option (List Char) := none
  thought : Bool := false
  functionCall : Option FunctionPart := none
  functionResponse : Option FunctionPart := none
  other : Json := .null

/-- A message to Gemini. -/
structure Content where
  role : Option String := none
  parts : List Part := []

structure ToolCall where
  id : String
  body : Json := .null

/-- A message to any other provider. -/
structure Message where
  role : String
  content : Option (List Char) := none
  toolCalls : List ToolCall := []
  toolCallId : Option String := none
  other : Json := .null

/-! ## Gemini -/

/-- The identities of calls or of responses; a name is not optional. -/
def identities (parts : List FunctionPart) : Except Exn (List (Option String × String)) :=
  parts.mapM fun p =>
    match p.name with
    | none => .error .keyError
    | some name => .ok (p.id, name)

/-- The messages that go with one: the next, if it has calls. -/
def contentRest (item : Content) (after : List Content) : Except Exn Nat :=
  let calls := item.parts.filterMap (·.functionCall)
  if item.parts.any (·.functionResponse.isSome) then .error (.valueError "orphan function response in context")
  else if calls = [] then .ok 0
  else
    match after with
    | [] => .error (.valueError "unresolved tool group cannot be compacted")
    | next :: _ =>
        identities calls >>= fun called =>
          identities (next.parts.filterMap (·.functionResponse)) >>= fun replied =>
            if called = replied then .ok 1 else .error (.valueError "unresolved tool group cannot be compacted")

/-! ## The others -/

/-- A reply to a call. -/
def Answers (reply : Message) (call : ToolCall) : Prop := reply.role = "tool" ∧ reply.toolCallId = some call.id

instance (reply : Message) (call : ToolCall) : Decidable (Answers reply call) := inferInstanceAs (Decidable (_ ∧ _))

/-- The messages that go with one: as many as it has calls. -/
def messageRest (item : Message) (after : List Message) : Except Exn Nat :=
  if item.role = "tool" then .error (.valueError "orphan tool response in context")
  else
    let replies := after.take item.toolCalls.length
    if replies.length ≠ item.toolCalls.length ∨ (item.toolCalls.zip replies).any fun p => !decide (Answers p.2 p.1) then
      .error (.valueError "unresolved tool group cannot be compacted")
    else .ok item.toolCalls.length

/-! ## Neither looks beyond the replies -/

theorem contentRest_near {item : Content} {l : List Content} {n : Nat} (h : contentRest item l = .ok n) :
    n ≤ l.length ∧ ∀ more, contentRest item (l.take n ++ more) = .ok n := by
  unfold contentRest at h ⊢
  dsimp only at h ⊢
  split_ifs at h ⊢ with horphan hcalls
  · cases h
    exact ⟨Nat.zero_le _, fun _ => rfl⟩
  · cases l with
    | nil => cases h
    | cons next l =>
        have hone : n = 1 := by
          obtain ⟨called, -, h⟩ := except_bind_eq_ok.mp h
          obtain ⟨replied, -, h⟩ := except_bind_eq_ok.mp h
          split_ifs at h
          cases h
          rfl
        subst hone
        exact ⟨Nat.succ_le_succ (Nat.zero_le _), fun _ => h⟩

theorem messageRest_near {item : Message} {l : List Message} {n : Nat} (h : messageRest item l = .ok n) :
    n ≤ l.length ∧ ∀ more, messageRest item (l.take n ++ more) = .ok n := by
  unfold messageRest at h ⊢
  dsimp only at h ⊢
  split_ifs at h ⊢ with hrole hwrong
  cases h
  push Not at hwrong
  obtain ⟨hlength, hall⟩ := hwrong
  rw [List.length_take] at hlength
  have hle : item.toolCalls.length ≤ l.length := by omega
  refine ⟨hle, fun more => ?_⟩
  have hsame : (l.take item.toolCalls.length ++ more).take item.toolCalls.length = l.take item.toolCalls.length := by
    rw [List.take_append_of_le_length (by rw [List.length_take]; omega), List.take_take, Nat.min_self]
  rw [hsame, if_neg]
  push Not
  exact ⟨by rw [List.length_take]; omega, hall⟩

def contentHead : Blocks.Head Content Exn := ⟨contentRest, contentRest_near⟩

def messageHead : Blocks.Head Message Exn := ⟨messageRest, messageRest_near⟩

/-! ## What an exchange is -/

/-- A message to Gemini without calls or responses, or one with calls and the message that responds to them, in
their order and by their names. -/
def ContentExchange (group : List Content) : Prop :=
  (∃ item, group = [item] ∧ item.parts.filterMap (·.functionCall) = [] ∧
    ∀ part ∈ item.parts, part.functionResponse = none) ∨
  ∃ item next, group = [item, next] ∧ item.parts.filterMap (·.functionCall) ≠ [] ∧
    (∀ part ∈ item.parts, part.functionResponse = none) ∧
    (∀ call ∈ item.parts.filterMap (·.functionCall), call.name.isSome) ∧
    (item.parts.filterMap (·.functionCall)).map (fun c => (c.id, c.name)) =
      (next.parts.filterMap (·.functionResponse)).map fun r => (r.id, r.name)

/-- A message that is no reply, and a reply to each of its calls, in their order. -/
def MessageExchange (group : List Message) : Prop :=
  ∃ item replies, group = item :: replies ∧ item.role ≠ "tool" ∧ List.Forall₂ Answers replies item.toolCalls

theorem identities_eq_ok {parts : List FunctionPart} {ids : List (Option String × String)} :
    identities parts = .ok ids ↔ parts.map (fun c => (c.id, c.name)) = ids.map fun i => (i.1, some i.2) := by
  unfold identities
  rw [mapM_ok]
  induction parts generalizing ids with
  | nil =>
      rw [List.forall₂_nil_left_iff]
      exact ⟨fun h => by rw [h]; rfl, fun h => List.map_eq_nil_iff.mp h.symm⟩
  | cons part parts ih =>
      cases ids with
      | nil => simp
      | cons i ids =>
          rw [List.forall₂_cons, ih, List.map_cons, List.map_cons, List.cons.injEq]
          refine and_congr_left fun _ => ?_
          cases hname : part.name with
          | none => simp
          | some name => simp [Prod.ext_iff]

/-- Calls and responses agree when both have the same identities. -/
theorem identities_agree {calls responses : List FunctionPart} :
    (∃ ids, identities calls = .ok ids ∧ identities responses = .ok ids) ↔
      (∀ call ∈ calls, call.name.isSome) ∧
        calls.map (fun c => (c.id, c.name)) = responses.map fun r => (r.id, r.name) := by
  simp only [identities_eq_ok]
  constructor
  · rintro ⟨ids, hcalls, hresponses⟩
    refine ⟨fun call hcall => ?_, hcalls.trans hresponses.symm⟩
    have hmem : (call.id, call.name) ∈ ids.map fun i => (i.1, some i.2) := hcalls ▸ List.mem_map_of_mem hcall
    obtain ⟨i, -, hi⟩ := List.mem_map.mp hmem
    rw [← (Prod.mk.inj hi).2]
    rfl
  · rintro ⟨hnames, hsame⟩
    refine ⟨calls.map fun c => (c.id, c.name.getD ""), ?_, ?_⟩
    all_goals
      rw [List.map_map]
      try rw [← hsame]
      refine List.map_congr_left fun call hcall => ?_
      obtain ⟨name, hname⟩ := Option.isSome_iff_exists.mp (hnames call hcall)
      simp [hname]

theorem no_response {item : Content} :
    (¬ item.parts.any (·.functionResponse.isSome) = true) ↔ ∀ part ∈ item.parts, part.functionResponse = none := by
  simp

theorem isBlock_contentHead {group : List Content} : Blocks.IsBlock contentHead group ↔ ContentExchange group := by
  constructor
  · rintro ⟨item, l, rfl, h⟩
    have h : contentRest item l = .ok l.length := h
    unfold contentRest at h
    dsimp only at h
    split_ifs at h with horphan hcalls
    · obtain rfl := List.length_eq_zero_iff.mp (Except.ok.inj h).symm
      exact .inl ⟨item, rfl, hcalls, no_response.mp horphan⟩
    · cases l with
      | nil => cases h
      | cons next l =>
          obtain ⟨called, hcalled, h⟩ := except_bind_eq_ok.mp h
          obtain ⟨replied, hreplied, h⟩ := except_bind_eq_ok.mp h
          split_ifs at h with hsame
          have hone := Except.ok.inj h
          rw [List.length_cons] at hone
          obtain rfl := List.length_eq_zero_iff.mp (by omega : l.length = 0)
          obtain ⟨hnames, hagree⟩ := identities_agree.mp ⟨called, hcalled, hsame ▸ hreplied⟩
          exact .inr ⟨item, next, rfl, hcalls, no_response.mp horphan, hnames, hagree⟩
  · rintro (⟨item, rfl, hcalls, hnone⟩ | ⟨item, next, rfl, hcalls, hnone, hnames, hagree⟩)
    · refine ⟨item, [], rfl, ?_⟩
      show contentRest item [] = .ok 0
      unfold contentRest
      dsimp only
      rw [if_neg (no_response.mpr hnone), if_pos hcalls]
    · refine ⟨item, [next], rfl, ?_⟩
      obtain ⟨ids, hcalled, hreplied⟩ := identities_agree.mpr ⟨hnames, hagree⟩
      show contentRest item [next] = .ok 1
      unfold contentRest
      dsimp only
      rw [if_neg (no_response.mpr hnone), if_neg hcalls]
      exact except_bind_eq_ok.mpr ⟨ids, hcalled, except_bind_eq_ok.mpr ⟨ids, hreplied, if_pos rfl⟩⟩

theorem any_wrong_iff {calls : List ToolCall} {replies : List Message} (hlength : replies.length = calls.length) :
    (¬ (calls.zip replies).any (fun p => !decide (Answers p.2 p.1)) = true) ↔ List.Forall₂ Answers replies calls := by
  induction calls generalizing replies with
  | nil =>
      obtain rfl := List.length_eq_zero_iff.mp hlength
      exact ⟨fun _ => .nil, fun _ => Bool.false_ne_true⟩
  | cons call calls ih =>
      cases replies with
      | nil => exact absurd hlength (Nat.succ_ne_zero _).symm
      | cons reply replies =>
          rw [List.forall₂_cons, ← ih (Nat.succ.inj hlength), List.zip_cons_cons, List.any_cons, Bool.or_eq_true, not_or]
          refine and_congr_left fun _ => ?_
          rw [Bool.not_eq_true, Bool.not_eq_false', decide_eq_true_iff]

theorem isBlock_messageHead {group : List Message} : Blocks.IsBlock messageHead group ↔ MessageExchange group := by
  constructor
  · rintro ⟨item, l, rfl, h⟩
    have h : messageRest item l = .ok l.length := h
    unfold messageRest at h
    dsimp only at h
    split_ifs at h with hrole hwrong
    have hlength := Except.ok.inj h
    rw [not_or, hlength, List.take_length, not_not] at hwrong
    exact ⟨item, l, rfl, hrole, (any_wrong_iff hlength.symm).mp hwrong.2⟩
  · rintro ⟨item, replies, rfl, hrole, hreplies⟩
    have hlength := hreplies.length_eq
    refine ⟨item, replies, rfl, ?_⟩
    show messageRest item replies = .ok replies.length
    unfold messageRest
    dsimp only
    rw [← hlength, List.take_length, if_neg hrole, if_neg]
    rw [not_or, not_not]
    exact ⟨rfl, (any_wrong_iff hlength).mpr hreplies⟩

/-! ## Providers -/

/-- `head` counts the groups before which nothing is replaced, and is at least one; it looks at the first
message. A memory stands alone, and `summary_only` knows it. -/
structure Provider (M : Type) where
  vertex : Bool
  groups : Blocks.Head M Exn
  head : List M → Except Exn Nat
  isMemory : M → Bool
  memory : List Char → M
  head_pos : ∀ {l n}, head l = .ok n → 0 < n
  head_cons : ∀ x l l', head (x :: l) = head (x :: l')
  memory_alone : ∀ text, Blocks.IsBlock groups [memory text]
  isMemory_memory : ∀ text, isMemory (memory (memoryPrefix ++ text)) = true

/-- `tool_groups`. -/
def Provider.toolGroups {M : Type} (p : Provider M) (history : List M) : Except Exn (List (List M)) :=
  Blocks.cut p.groups history

/-- `summary_only` of one message to Gemini. -/
def isMemoryContent (item : Content) : Bool :=
  item.role = some "user" &&
    match item.parts with
    | [part] => part.text.any (memoryPrefix.isPrefixOf ·)
    | _ => false

def isMemoryMessage (item : Message) : Bool :=
  item.role = "user" && item.content.any (memoryPrefix.isPrefixOf ·)

theorem isPrefixOf_memory (text : List Char) : memoryPrefix.isPrefixOf (memoryPrefix ++ text) = true :=
  List.isPrefixOf_iff_prefix.mpr (List.prefix_append _ _)

theorem isMemoryContent_memory (text : List Char) :
    isMemoryContent { role := some "user", parts := [{ text := some (memoryPrefix ++ text) }] } = true := by
  unfold isMemoryContent
  dsimp only
  rw [Option.any_some, isPrefixOf_memory, Bool.and_true]
  exact decide_eq_true rfl

theorem isMemoryMessage_memory (text : List Char) :
    isMemoryMessage { role := "user", content := some (memoryPrefix ++ text) } = true := by
  unfold isMemoryMessage
  rw [Option.any_some, isPrefixOf_memory, Bool.and_true]
  exact decide_eq_true rfl

def gemini : Provider Content where
  vertex := true
  groups := contentHead
  head := fun _ => .ok 1
  isMemory := isMemoryContent
  memory := fun text => { role := some "user", parts := [{ text := some text }] }
  head_pos := by
    intro l n h
    cases h
    exact Nat.one_pos
  head_cons := fun _ _ _ => rfl
  memory_alone := fun text => ⟨_, [], rfl, rfl⟩
  isMemory_memory := isMemoryContent_memory

/-- The system prompt and the task are two messages, or one. -/
def messagesHead : List Message → Except Exn Nat
  | [] => .error .indexError
  | first :: _ => .ok (if first.role = "system" then 2 else 1)

def chat : Provider Message where
  vertex := false
  groups := messageHead
  head := messagesHead
  isMemory := isMemoryMessage
  memory := fun text => { role := "user", content := some text }
  head_pos := by
    intro l n h
    cases l with
    | nil => cases h
    | cons first l =>
        obtain rfl := Except.ok.inj h
        split_ifs <;> omega
  head_cons := fun _ _ _ => rfl
  memory_alone := fun text => ⟨_, [], rfl, rfl⟩
  isMemory_memory := isMemoryMessage_memory

/-- A history is accepted when it is a sequence of exchanges, and they are its groups. -/
theorem tool_groups_exact :
    (∀ history groups, gemini.toolGroups history = .ok groups ↔
      groups.flatten = history ∧ ∀ group ∈ groups, ContentExchange group) ∧
    ∀ history groups, chat.toolGroups history = .ok groups ↔
      groups.flatten = history ∧ ∀ group ∈ groups, MessageExchange group := by
  constructor
  · intro history groups
    show Blocks.cut contentHead history = .ok groups ↔ _
    rw [Blocks.cut_eq_ok_iff]
    exact and_congr_right fun _ => forall₂_congr fun _ _ => isBlock_contentHead
  · intro history groups
    show Blocks.cut messageHead history = .ok groups ↔ _
    rw [Blocks.cut_eq_ok_iff]
    exact and_congr_right fun _ => forall₂_congr fun _ _ => isBlock_messageHead

end Ramulator.ChiaLoop.Compaction
