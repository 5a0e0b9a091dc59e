/-
# Ramulator.ChiaLoop.Usage — token counters, as providers report them and as they are normalized.

`normalize` (`framework/usage.py`) reads the counters of one reported object by the rule of its protocol and
completes what arithmetic alone tells; a counter that stays unknown is missing, it is not zero. What a
protocol is like is data (`framework/usage_protocols.json`), and so it is here, `Protocol.rule`. Where a
provider reports the samplings of one request, these take the place of its own counters.

`normalizeFlat_normal` says what the counters of every normalized object satisfy, whatever the rule: no
count is negative, the known parts of the input are within it, and are all of it when none is missing.
-/
import Ramulator.Lib.Json

namespace Ramulator.ChiaLoop.Accounting

open Ramulator.Lib

/-! ## Rules -/

/-- `TOKEN_FIELDS`. -/
inductive Field where
  | inputTokens
  | uncachedInputTokens
  | cachedInputTokens
  | cacheWriteInputTokens
  | cacheWrite5mTokens
  | cacheWrite1hTokens
  | toolInputTokens
  | outputTokens
  | reasoningOutputTokens
  | nonReasoningOutputTokens
  | totalTokens
  deriving DecidableEq, Repr

def Field.name : Field → String
  | .inputTokens => "input_tokens"
  | .uncachedInputTokens => "uncached_input_tokens"
  | .cachedInputTokens => "cached_input_tokens"
  | .cacheWriteInputTokens => "cache_write_input_tokens"
  | .cacheWrite5mTokens => "cache_write_5m_tokens"
  | .cacheWrite1hTokens => "cache_write_1h_tokens"
  | .toolInputTokens => "tool_input_tokens"
  | .outputTokens => "output_tokens"
  | .reasoningOutputTokens => "reasoning_output_tokens"
  | .nonReasoningOutputTokens => "non_reasoning_output_tokens"
  | .totalTokens => "total_tokens"

/-- Where a protocol has its counters, and what they include. -/
structure Rule where
  inputIncludesCache : Bool
  outputIncludesReasoning : Bool
  fields : List (Field × List String)
  zeroFields : List Field

/-- The protocols of the table. -/
inductive Protocol where
  | anthropicMessages
  | deepseekChat
  | openaiResponse
  | openaiCli
  | anthropicApi
  | anthropicModel
  | vertexV1
  deriving DecidableEq, Repr

/-- The fields of the objects that the Messages API reports. -/
def anthropicFields : List (Field × List String) :=
  [(.inputTokens, ["input_tokens"]),
   (.cachedInputTokens, ["cache_read_input_tokens"]),
   (.cacheWriteInputTokens, ["cache_creation_input_tokens"]),
   (.cacheWrite5mTokens, ["cache_creation", "ephemeral_5m_input_tokens"]),
   (.cacheWrite1hTokens, ["cache_creation", "ephemeral_1h_input_tokens"]),
   (.outputTokens, ["output_tokens"])]

def Protocol.rule : Protocol → Rule
  | .anthropicMessages => ⟨false, true, anthropicFields, [.toolInputTokens]⟩
  | .deepseekChat => ⟨true, true,
      [(.inputTokens, ["prompt_tokens"]),
       (.cachedInputTokens, ["prompt_cache_hit_tokens"]),
       (.outputTokens, ["completion_tokens"]),
       (.reasoningOutputTokens, ["completion_tokens_details", "reasoning_tokens"]),
       (.totalTokens, ["total_tokens"])],
      [.toolInputTokens, .cacheWriteInputTokens]⟩
  | .openaiResponse => ⟨true, true,
      [(.inputTokens, ["input_tokens"]),
       (.cachedInputTokens, ["input_tokens_details", "cached_tokens"]),
       (.cacheWriteInputTokens, ["input_tokens_details", "cache_write_tokens"]),
       (.outputTokens, ["output_tokens"]),
       (.reasoningOutputTokens, ["output_tokens_details", "reasoning_tokens"]),
       (.totalTokens, ["total_tokens"])],
      [.toolInputTokens]⟩
  | .openaiCli => ⟨true, true,
      [(.inputTokens, ["input_tokens"]),
       (.cachedInputTokens, ["cached_input_tokens"]),
       (.cacheWriteInputTokens, ["cache_write_input_tokens"]),
       (.outputTokens, ["output_tokens"]),
       (.reasoningOutputTokens, ["reasoning_output_tokens"]),
       (.totalTokens, ["total_tokens"])],
      [.toolInputTokens]⟩
  | .anthropicApi => ⟨false, true, anthropicFields, [.toolInputTokens]⟩
  | .anthropicModel => ⟨false, true,
      [(.inputTokens, ["inputTokens"]),
       (.cachedInputTokens, ["cacheReadInputTokens"]),
       (.cacheWriteInputTokens, ["cacheCreationInputTokens"]),
       (.outputTokens, ["outputTokens"])],
      [.toolInputTokens]⟩
  | .vertexV1 => ⟨true, false,
      [(.inputTokens, ["prompt_token_count"]),
       (.cachedInputTokens, ["cached_content_token_count"]),
       (.outputTokens, ["candidates_token_count"]),
       (.reasoningOutputTokens, ["thoughts_token_count"]),
       (.toolInputTokens, ["tool_use_prompt_token_count"]),
       (.totalTokens, ["total_token_count"])],
      [.cacheWriteInputTokens]⟩

/-- The field of the samplings, and the protocol that they follow (`iterations_field`,
`iteration_protocol`). -/
def Protocol.iterations : Protocol → Option (String × Protocol)
  | .anthropicMessages => some ("iterations", .anthropicApi)
  | _ => none

/-- A sampling has no samplings of its own. -/
theorem Protocol.iterations_flat {p q : Protocol} {field : String} (h : p.iterations = some (field, q)) :
    q.iterations = none := by
  cases p <;> simp only [iterations, reduceCtorEq, Option.some.injEq, Prod.mk.injEq] at h
  rw [← h.2]
  rfl

/-! ## Normalization -/

/-- How the functions of this module and of the tariffs fail. -/
inductive Failure where
  | invalidUsage (message : String)
  | valueError (message : String)
  | attributeError
  | typeError
  deriving DecidableEq, Repr

/-- Counters; what is missing is `none`. -/
abbrev Tokens := Field → Option Int

/-- `at_path`. -/
def atPath : Json → List String → Except Failure Json
  | value, [] => .ok value
  | .null, _ :: _ => .ok .null
  | .obj members, name :: path => atPath ((members.lookup name).getD .null) path
  | _, _ :: _ => .error (.invalidUsage "usage field traverses a non-object")

/-- A count, if there is one. -/
def count : Json → Except Failure (Option Int)
  | .null => .ok none
  | .int n => if n < 0 then .error (.invalidUsage "token counts must be non-negative integers") else .ok (some n)
  | _ => .error (.invalidUsage "token counts must be non-negative integers")

/-- `_sum`: unknown when a summand is. -/
def sumAll : List (Option Int) → Option Int
  | [] => some 0
  | v :: vs => do
      let a ← v
      let b ← sumAll vs
      pure (a + b)

/-- The sum of the known values. -/
def sumKnown : List (Option Int) → Int
  | [] => 0
  | v :: vs => v.getD 0 + sumKnown vs

namespace Rule

variable (rule : Rule)

/-- The counters of the rule's fields. -/
def readFields (raw : Json) : List (Field × List String) → Tokens → Except Failure Tokens
  | [], values => .ok values
  | (name, path) :: fields, values => do
      let value ← atPath raw path
      let value ← count value
      readFields raw fields (Function.update values name value)

def setZeros (zeros : List Field) (values : Tokens) : Tokens :=
  zeros.foldl (fun values name => Function.update values name (some 0)) values

/-- The disjoint components of the provider's total. -/
def parts : List Field :=
  [.inputTokens, .outputTokens, .toolInputTokens] ++
    (if rule.outputIncludesReasoning then [] else [.reasoningOutputTokens]) ++
    (if rule.inputIncludesCache then [] else [.cachedInputTokens, .cacheWriteInputTokens])

/-- The total can give the one component that is missing. -/
def completeFromTotal (values : Tokens) : Except Failure (Tokens × List String) :=
  match values .totalTokens with
  | none => .ok (values, [])
  | some total =>
      let missing := rule.parts.filter fun name => (values name).isNone
      let known := sumKnown (rule.parts.map values)
      if known > total ∨ (missing = [] ∧ known ≠ total) then
        .error (.invalidUsage "disjoint provider counters disagree with total")
      else
        match missing with
        | [name] => .ok (Function.update values name (some (total - known)),
            [name.name ++ ":provider_total_minus_other_components"])
        | _ => .ok (values, [])

/-- The input, and the part of it that was neither read from a cache nor written to one. -/
def splitInput (values : Tokens) : Except Failure Tokens :=
  let inp := values .inputTokens
  let cached := values .cachedInputTokens
  let written := values .cacheWriteInputTokens
  let tool := values .toolInputTokens
  if rule.inputIncludesCache then
    if inp.any fun n => sumKnown [cached, written] > n then
      .error (.invalidUsage "cache counters exceed provider input")
    else
      let uncached := do
        let n ← inp
        let c ← cached
        let w ← written
        pure (n - c - w)
      .ok (Function.update (Function.update values .inputTokens (sumAll [inp, tool]))
        .uncachedInputTokens (sumAll [uncached, tool]))
  else
    .ok (Function.update (Function.update values .uncachedInputTokens (sumAll [inp, tool]))
      .inputTokens (sumAll [inp, cached, written, tool]))

/-- The counters of the two lifetimes are within what was written, and are all of it if both are known. -/
def checkWrites (values : Tokens) : Except Failure Unit :=
  let short := values .cacheWrite5mTokens
  let long := values .cacheWrite1hTokens
  match values .cacheWriteInputTokens with
  | none => .ok ()
  | some written =>
      let known := sumKnown [short, long]
      if known > written ∨ (short.isSome ∧ long.isSome ∧ known ≠ written) then
        .error (.invalidUsage "cache-creation TTL counters disagree")
      else .ok ()

def splitOutput (values : Tokens) : Except Failure Tokens :=
  let out := values .outputTokens
  let reasoning := values .reasoningOutputTokens
  if rule.outputIncludesReasoning then
    match out, reasoning with
    | some n, some r =>
        if r > n then .error (.invalidUsage "reasoning tokens exceed output")
        else .ok (Function.update values .nonReasoningOutputTokens (some (n - r)))
    | _, _ => .ok (Function.update values .nonReasoningOutputTokens none)
  else
    .ok (Function.update (Function.update values .nonReasoningOutputTokens out)
      .outputTokens (sumAll [out, reasoning]))

/-- The total, when the provider gives none. -/
def closeTotal (values : Tokens) : Except Failure (Tokens × List String) :=
  match values .totalTokens, sumAll [values .inputTokens, values .outputTokens] with
  | some total, some derived =>
      if total ≠ derived then .error (.invalidUsage "normalized counts disagree with provider total")
      else .ok (values, [])
  | none, some derived =>
      .ok (Function.update values .totalTokens (some derived), ["total_tokens:input_plus_output"])
  | _, none => .ok (values, [])

/-- The part of `normalize` about one object, with what was derived. -/
def normalizeFlat (raw : Json) : Except Failure (Tokens × List String) := do
  let values ← readFields raw rule.fields fun _ => none
  let zeros := rule.zeroFields.map fun f => f.name ++ ":not_a_separate_counter_in_this_protocol"
  let completed ← rule.completeFromTotal (setZeros rule.zeroFields values)
  let values ← rule.splitInput completed.1
  checkWrites values
  let values ← rule.splitOutput values
  let closed ← closeTotal values
  pure (closed.1, zeros ++ completed.2 ++ closed.2)

end Rule

/-- A normalized object. -/
structure FlatUsage where
  tokens : Option Tokens
  derived : List String
  protocol : Protocol

/-- What `normalize` returns: one object, or samplings that take the place of one. -/
inductive Usage where
  | flat (usage : FlatUsage)
  | iterated (usage : FlatUsage) (parts : List (String × FlatUsage))

def normalizeObject (p : Protocol) (raw : Json) : Except Failure FlatUsage := do
  let r ← p.rule.normalizeFlat raw
  pure ⟨some r.1, r.2, p⟩

/-- The type of a sampling. One that is no hashable value is no member of a set at all. -/
def rowType (row : Json) : Except Failure String :=
  match row with
  | .obj members =>
      match members.lookup "type" with
      | some (.str type) =>
          if type = "message" ∨ type = "compaction" then .ok type
          else .error (.invalidUsage "unsupported provider sampling-iteration usage")
      | some (.arr _) | some (.obj _) => .error .typeError
      | _ => .error (.invalidUsage "unsupported provider sampling-iteration usage")
  | _ => .error (.invalidUsage "unsupported provider sampling-iteration usage")

/-- The samplings of an object, normalized. -/
def normalizeIterations (p q : Protocol) : Json → Except Failure Usage
  | .arr (row :: rows) => do
      let types ← (row :: rows).mapM rowType
      let parts ← (row :: rows).mapM (normalizeObject q)
      let tokens := fun name => sumAll (parts.map fun part => part.tokens.bind (· name))
      pure (.iterated ⟨some tokens, ["sampling_iterations_replace_top_level_usage"], p⟩ (types.zip parts))
  | _ => .error (.invalidUsage "unsupported provider sampling-iteration usage")

/-- `normalize`. -/
def normalize (raw : Json) (p : Protocol) : Except Failure Usage :=
  match raw with
  | .null => .ok (.flat ⟨none, [], p⟩)
  | .obj members =>
      match p.iterations.bind fun i => (members.lookup i.1).map fun rows => (i.2, rows) with
      | none | some (_, .null) => do
          let usage ← normalizeObject p raw
          pure (.flat usage)
      | some (q, rows) => normalizeIterations p q rows
  | _ => .error (.invalidUsage "provider usage must be an object")

/-! ## What a normalized object satisfies -/

def NonNeg (k : Tokens) : Prop := ∀ f n, k f = some n → 0 ≤ n

/-- The parts of the input are within it, and are all of it when they are known. -/
structure InputParts (k : Tokens) : Prop where
  within : ∀ n, k .inputTokens = some n →
    sumKnown [k .uncachedInputTokens, k .cachedInputTokens, k .cacheWriteInputTokens] ≤ n
  whole : ∀ u c w, k .uncachedInputTokens = some u → k .cachedInputTokens = some c →
    k .cacheWriteInputTokens = some w → k .inputTokens = some (u + c + w)

/-- The counters of a normalized object. -/
structure Normal (k : Tokens) : Prop extends InputParts k where
  nonneg : NonNeg k
  lifetimes : ∀ w s l, k .cacheWriteInputTokens = some w → k .cacheWrite5mTokens = some s →
    k .cacheWrite1hTokens = some l → s + l = w

theorem NonNeg.update {k : Tokens} (h : NonNeg k) {f : Field} {v : Option Int} (hv : ∀ n, v = some n → 0 ≤ n) :
    NonNeg (Function.update k f v) := by
  intro g n hg
  by_cases hgf : g = f
  · subst hgf
    rw [Function.update_self] at hg
    exact hv n hg
  · rw [Function.update_of_ne hgf] at hg
    exact h g n hg

theorem sumAll_cons {v : Option Int} {vs : List (Option Int)} {n : Int} :
    sumAll (v :: vs) = some n ↔ ∃ a, v = some a ∧ ∃ b, sumAll vs = some b ∧ a + b = n := by
  simp [sumAll, Option.bind_eq_some_iff]

theorem sumAll_nonneg {vs : List (Option Int)} (h : ∀ v ∈ vs, ∀ n, v = some n → 0 ≤ n) :
    ∀ n, sumAll vs = some n → 0 ≤ n := by
  induction vs with
  | nil =>
      intro n hn
      cases hn
      exact le_rfl
  | cons v vs ih =>
      intro n hn
      obtain ⟨a, ha, b, hb, rfl⟩ := sumAll_cons.mp hn
      have hva := h v (List.mem_cons_self ..) a ha
      have hvb := ih (fun w hw => h w (List.mem_cons_of_mem v hw)) b hb
      omega

theorem count_nonneg {raw : Json} {v : Option Int} (h : count raw = .ok v) : ∀ n, v = some n → 0 ≤ n := by
  intro n hn
  subst hn
  unfold count at h
  split at h
  · cases h
  · split_ifs at h with hneg
    cases h
    exact not_lt.mp hneg
  · cases h

theorem bind_ok {α β : Type} {x : Except Failure α} {f : α → Except Failure β} {b : β} :
    x >>= f = .ok b ↔ ∃ a, x = .ok a ∧ f a = .ok b := by
  cases x <;> simp [bind, Except.bind]

namespace Rule

variable {rule : Rule} {k k' : Tokens}

theorem readFields_nonneg {raw : Json} {fields : List (Field × List String)} (hk : NonNeg k)
    (h : readFields raw fields k = .ok k') : NonNeg k' := by
  induction fields generalizing k with
  | nil =>
      cases h
      exact hk
  | cons field fields ih =>
      obtain ⟨name, path⟩ := field
      obtain ⟨value, -, h⟩ := bind_ok.mp h
      obtain ⟨v, hcount, h⟩ := bind_ok.mp h
      exact ih (hk.update (count_nonneg hcount)) h

theorem setZeros_nonneg {zeros : List Field} (hk : NonNeg k) : NonNeg (setZeros zeros k) := by
  unfold setZeros
  induction zeros generalizing k with
  | nil => exact hk
  | cons name zeros ih =>
      apply ih
      apply hk.update
      intro n hn
      cases hn
      exact le_rfl

theorem completeFromTotal_nonneg {ds : List String} (hk : NonNeg k)
    (h : rule.completeFromTotal k = .ok (k', ds)) : NonNeg k' := by
  unfold completeFromTotal at h
  split at h
  · cases h
    exact hk
  · dsimp only at h
    split_ifs at h with hbad
    split at h
    · cases h
      apply hk.update
      intro n hn
      cases hn
      have hle := not_lt.mp (not_or.mp hbad).1
      omega
    · cases h
      exact hk

/-- The provider's input includes what came from the cache or went to it. -/
theorem inputParts_included {inp cached written tool : Option Int}
    (hcached : k .cachedInputTokens = cached) (hwritten : k .cacheWriteInputTokens = written)
    (htool : ∀ t, tool = some t → 0 ≤ t) (hle : ∀ n, inp = some n → sumKnown [cached, written] ≤ n)
    (hinput : k .inputTokens = sumAll [inp, tool])
    (huncached : k .uncachedInputTokens = sumAll [do
      let n ← inp
      let c ← cached
      let w ← written
      pure (n - c - w), tool]) : InputParts k := by
  subst hcached hwritten
  constructor
  · intro n hn
    rw [hinput] at hn
    cases inp with
    | none => cases hn
    | some i =>
        cases tool with
        | none => cases hn
        | some t =>
            have ht := htool t rfl
            have hi := hle i rfl
            cases hn
            rw [huncached]
            cases hc : k .cachedInputTokens with
            | none => simp [hc, sumKnown, sumAll] at hi ⊢; omega
            | some c =>
                cases hw : k .cacheWriteInputTokens with
                | none => simp [hc, hw, sumKnown, sumAll] at hi ⊢; omega
                | some w => simp [sumKnown, sumAll]; omega
  · intro u c w hu hc hw
    rw [huncached, hc, hw] at hu
    rw [hinput]
    cases inp with
    | none => cases hu
    | some i =>
        cases tool with
        | none => cases hu
        | some t =>
            cases hu
            simp [sumAll]
            omega

/-- The provider's input is beside the cache. -/
theorem inputParts_beside {inp cached written tool : Option Int}
    (hcached : k .cachedInputTokens = cached) (hwritten : k .cacheWriteInputTokens = written)
    (hinput : k .inputTokens = sumAll [inp, cached, written, tool])
    (huncached : k .uncachedInputTokens = sumAll [inp, tool]) : InputParts k := by
  subst hcached hwritten
  constructor
  · intro n hn
    rw [hinput] at hn
    rw [huncached]
    obtain ⟨i, rfl, b, hb, rfl⟩ := sumAll_cons.mp hn
    obtain ⟨c, hc, d, hd, rfl⟩ := sumAll_cons.mp hb
    obtain ⟨w, hw, e, he, rfl⟩ := sumAll_cons.mp hd
    obtain ⟨t, rfl, z, hz, rfl⟩ := sumAll_cons.mp he
    cases hz
    simp [hc, hw, sumKnown, sumAll]
    omega
  · intro u c w hu hc hw
    rw [huncached] at hu
    obtain ⟨i, rfl, b, hb, rfl⟩ := sumAll_cons.mp hu
    obtain ⟨t, rfl, z, hz, rfl⟩ := sumAll_cons.mp hb
    cases hz
    rw [hinput, hc, hw]
    simp [sumAll]
    omega

/-- How the input of a normalized object is made of its parts. -/
theorem splitInput_spec (hk : NonNeg k) (h : rule.splitInput k = .ok k') :
    NonNeg k' ∧ InputParts k' ∧ ∀ f, f ≠ .inputTokens → f ≠ .uncachedInputTokens → k' f = k f := by
  have hinp := hk .inputTokens
  have hcached := hk .cachedInputTokens
  have hwritten := hk .cacheWriteInputTokens
  have htool := hk .toolInputTokens
  unfold splitInput at h
  dsimp only at h
  split_ifs at h with hincl hbad
  · have hle : ∀ n, k .inputTokens = some n → sumKnown [k .cachedInputTokens, k .cacheWriteInputTokens] ≤ n := by
      intro n hn
      simpa [hn] using hbad
    have huncached : ∀ n, (do
        let n ← k .inputTokens
        let c ← k .cachedInputTokens
        let w ← k .cacheWriteInputTokens
        pure (n - c - w)) = some n → 0 ≤ n := by
      intro n hn
      simp only [Option.bind_eq_bind, Option.bind_eq_some_iff] at hn
      obtain ⟨i, hi, c, hc, w, hw, hn⟩ := hn
      cases hn
      have hsum := hle i hi
      rw [hc, hw] at hsum
      simp [sumKnown] at hsum
      omega
    cases h
    refine ⟨?_, inputParts_included rfl rfl htool hle rfl rfl, ?_⟩
    · apply NonNeg.update
      · exact hk.update (sumAll_nonneg (by simpa using ⟨hinp, htool⟩))
      · exact sumAll_nonneg (by simpa using ⟨huncached, htool⟩)
    · intro f hf hf'
      rw [Function.update_of_ne hf', Function.update_of_ne hf]
  · cases h
    refine ⟨?_, inputParts_beside rfl rfl rfl rfl, ?_⟩
    · apply NonNeg.update
      · exact hk.update (sumAll_nonneg (by simpa using ⟨hinp, htool⟩))
      · exact sumAll_nonneg (by simpa using ⟨hinp, hcached, hwritten, htool⟩)
    · intro f hf hf'
      rw [Function.update_of_ne hf, Function.update_of_ne hf']

theorem checkWrites_spec (h : checkWrites k = .ok ()) {w s l : Int} (hw : k .cacheWriteInputTokens = some w)
    (hs : k .cacheWrite5mTokens = some s) (hl : k .cacheWrite1hTokens = some l) : s + l = w := by
  unfold checkWrites at h
  rw [hw, hs, hl] at h
  dsimp only at h
  split_ifs at h with hbad
  have heq : sumKnown [some s, some l] = w := by
    by_contra hne
    exact hbad (.inr ⟨rfl, rfl, hne⟩)
  simpa [sumKnown] using heq

theorem splitOutput_spec (hk : NonNeg k) (h : rule.splitOutput k = .ok k') :
    NonNeg k' ∧ ∀ f, f ≠ .outputTokens → f ≠ .nonReasoningOutputTokens → k' f = k f := by
  unfold splitOutput at h
  dsimp only at h
  split_ifs at h with hincl
  · split at h
    · next n r hn hr =>
      split_ifs at h with hbad
      cases h
      refine ⟨hk.update ?_, fun f _ hf => Function.update_of_ne hf _ _⟩
      intro m hm
      cases hm
      omega
    · cases h
      exact ⟨hk.update (by simp), fun f _ hf => Function.update_of_ne hf _ _⟩
  · cases h
    constructor
    · apply NonNeg.update
      · exact hk.update (hk .outputTokens)
      · exact sumAll_nonneg (by simpa using ⟨hk .outputTokens, hk .reasoningOutputTokens⟩)
    · intro f hf hf'
      rw [Function.update_of_ne hf, Function.update_of_ne hf']

theorem closeTotal_spec {ds : List String} (hk : NonNeg k) (h : closeTotal k = .ok (k', ds)) :
    NonNeg k' ∧ ∀ f, f ≠ .totalTokens → k' f = k f := by
  unfold closeTotal at h
  split at h
  · split_ifs at h
    cases h
    exact ⟨hk, fun _ _ => rfl⟩
  · next derived _ hderived =>
    cases h
    refine ⟨hk.update ?_, fun f hf => Function.update_of_ne hf _ _⟩
    intro n hn
    cases hn
    exact sumAll_nonneg (by simpa using ⟨hk .inputTokens, hk .outputTokens⟩) _ hderived
  · cases h
    exact ⟨hk, fun _ _ => rfl⟩

/-- Whatever the rule, the counters of a normalized object are normal. -/
theorem normalizeFlat_normal {raw : Json} {ds : List String} (h : rule.normalizeFlat raw = .ok (k, ds)) :
    Normal k := by
  unfold normalizeFlat at h
  obtain ⟨k₀, h₀, h⟩ := bind_ok.mp h
  obtain ⟨⟨k₁, ds₁⟩, h₁, h⟩ := bind_ok.mp h
  obtain ⟨k₂, h₂, h⟩ := bind_ok.mp h
  obtain ⟨⟨⟩, h₃, h⟩ := bind_ok.mp h
  obtain ⟨k₄, h₄, h⟩ := bind_ok.mp h
  obtain ⟨⟨k₅, ds₅⟩, h₅, h⟩ := bind_ok.mp h
  cases h
  have hstart : NonNeg fun _ => none := fun _ _ hn => nomatch hn
  have hnonneg₁ := completeFromTotal_nonneg (setZeros_nonneg (readFields_nonneg hstart h₀)) h₁
  obtain ⟨hnonneg₂, hparts, -⟩ := splitInput_spec hnonneg₁ h₂
  obtain ⟨hnonneg₄, hsame₄⟩ := splitOutput_spec hnonneg₂ h₄
  obtain ⟨hnonneg, hsame₅⟩ := closeTotal_spec hnonneg₄ h₅
  -- the output and the total are settled after the input, and do not touch its counters
  have hsame : ∀ f, f ≠ .outputTokens → f ≠ .nonReasoningOutputTokens → f ≠ .totalTokens → k₅ f = k₂ f :=
    fun f h₁ h₂ h₃ => (hsame₅ f h₃).trans (hsame₄ f h₁ h₂)
  have hi := hsame .inputTokens (by decide) (by decide) (by decide)
  have hu := hsame .uncachedInputTokens (by decide) (by decide) (by decide)
  have hc := hsame .cachedInputTokens (by decide) (by decide) (by decide)
  have hw := hsame .cacheWriteInputTokens (by decide) (by decide) (by decide)
  have hs := hsame .cacheWrite5mTokens (by decide) (by decide) (by decide)
  have hl := hsame .cacheWrite1hTokens (by decide) (by decide) (by decide)
  show Normal k₅
  refine ⟨⟨?_, ?_⟩, hnonneg, ?_⟩
  · rw [hi, hu, hc, hw]
    exact hparts.within
  · rw [hi, hu, hc, hw]
    exact hparts.whole
  · rw [hw, hs, hl]
    exact fun _ _ _ => checkWrites_spec h₃

end Rule

end Ramulator.ChiaLoop.Accounting
