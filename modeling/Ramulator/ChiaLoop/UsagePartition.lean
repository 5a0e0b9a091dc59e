/-
# Ramulator.ChiaLoop.UsagePartition — whether the counters of a usage can be true.

What `normalize` (`framework/usage.py`) returns of one object adds up, whatever the rule of the protocol: the input
is its three parts, the output its two, the total input and output (`normalizeFlat_partition`).

A report is consistent if the counters that it leaves out can be chosen so that all of this holds (`Completes`).
`normalize` compares counters that are there, one with another, and what the total leaves for a single missing part
(`normalizeFlat_ok_iff`). A report whose comparisons hold can still be false: an input or an output that is missing
has a least value all the same, and so has a cache write of which only the lifetimes are reported. These bounds are
compared with nothing, and they are all that is missed (`exists_completes`).
-/
import Ramulator.ChiaLoop.Usage
import Mathlib.Algebra.BigOperators.Group.List.Basic

namespace Ramulator.ChiaLoop.Accounting

open Ramulator.Lib

/-! ## Partitions -/

/-- Counters that are known add up. -/
structure Partition (k : Tokens) : Prop where
  nonneg : NonNeg k
  input : ∀ i u c w, k .inputTokens = some i → k .uncachedInputTokens = some u → k .cachedInputTokens = some c →
    k .cacheWriteInputTokens = some w → i = u + c + w
  output : ∀ o r n, k .outputTokens = some o → k .reasoningOutputTokens = some r →
    k .nonReasoningOutputTokens = some n → o = r + n
  total : ∀ t i o, k .totalTokens = some t → k .inputTokens = some i → k .outputTokens = some o → t = i + o

/-- All counters, and how they add up. -/
structure Identities (x : Field → Int) : Prop where
  nonneg : ∀ f, 0 ≤ x f
  input : x .inputTokens = x .uncachedInputTokens + x .cachedInputTokens + x .cacheWriteInputTokens
  output : x .outputTokens = x .reasoningOutputTokens + x .nonReasoningOutputTokens
  total : x .totalTokens = x .inputTokens + x .outputTokens
  writes : x .cacheWrite5mTokens + x .cacheWrite1hTokens = x .cacheWriteInputTokens
  /-- Input from tools is not read from a cache, nor written to one. -/
  tool : x .toolInputTokens ≤ x .uncachedInputTokens

namespace Rule

variable (rule : Rule)

/-- What the provider calls input, which is without that from tools. -/
def providerInput (x : Field → Int) : Int :=
  x .uncachedInputTokens - x .toolInputTokens +
    if rule.inputIncludesCache then x .cachedInputTokens + x .cacheWriteInputTokens else 0

/-- What the provider calls output. -/
def providerOutput (x : Field → Int) : Int :=
  if rule.outputIncludesReasoning then x .outputTokens else x .nonReasoningOutputTokens

/-- The counter that a report means by the one of the name. -/
def meant (x : Field → Int) : Field → Int
  | .inputTokens => rule.providerInput x
  | .outputTokens => rule.providerOutput x
  | f => x f

/-- The counters of a report. The other two `normalize` always works out itself: what a table has it read for these
is only asked to be a count, and is then replaced. -/
def Reported (f : Field) : Prop := f ≠ .uncachedInputTokens ∧ f ≠ .nonReasoningOutputTokens

instance (f : Field) : Decidable (Reported f) := inferInstanceAs (Decidable (_ ∧ _))

/-- A choice of all counters that the report does not contradict. -/
structure Completes (v : Tokens) (x : Field → Int) : Prop extends Identities x where
  reported : ∀ f, Reported f → ∀ n, v f = some n → n = rule.meant x f

/-! ### Comparisons -/

/-- What is known of a counter: what is reported, or what the total leaves for the only part that is missing. -/
def given (v : Tokens) (f : Field) : Option Int :=
  match v .totalTokens with
  | some total =>
      if rule.parts.filter (fun name => (v name).isNone) = [f] then some (total - sumKnown (rule.parts.map v)) else v f
  | none => v f

/-- The reported parts of the total do not exceed it, and are all of it if none is missing. -/
def PartsAgree (v : Tokens) : Prop :=
  ∀ total, v .totalTokens = some total →
    sumKnown (rule.parts.map v) ≤ total ∧
      ((∀ f ∈ rule.parts, (v f).isSome) → sumKnown (rule.parts.map v) = total)

/-- The comparisons of the counters that are known, each with the one that contains it. -/
structure Agrees (v : Tokens) : Prop where
  parts : rule.PartsAgree v
  cache : rule.inputIncludesCache = true → ∀ i, rule.given v .inputTokens = some i →
    sumKnown [rule.given v .cachedInputTokens, rule.given v .cacheWriteInputTokens] ≤ i
  writes : ∀ w, rule.given v .cacheWriteInputTokens = some w →
    sumKnown [rule.given v .cacheWrite5mTokens, rule.given v .cacheWrite1hTokens] ≤ w ∧
      ∀ s l, rule.given v .cacheWrite5mTokens = some s → rule.given v .cacheWrite1hTokens = some l → s + l = w
  reasoning : rule.outputIncludesReasoning = true → ∀ o r, rule.given v .outputTokens = some o →
    rule.given v .reasoningOutputTokens = some r → r ≤ o

/-! ### Bounds -/

/-- The least that was written to the cache. -/
def leastWritten (v : Tokens) : Int :=
  (v .cacheWriteInputTokens).getD (sumKnown [v .cacheWrite5mTokens, v .cacheWrite1hTokens])

/-- The least that the provider calls input. -/
def leastInput (v : Tokens) : Int :=
  (v .inputTokens).getD (if rule.inputIncludesCache then (v .cachedInputTokens).getD 0 + leastWritten v else 0)

/-- The least that the provider calls output. -/
def leastOutput (v : Tokens) : Int :=
  (v .outputTokens).getD (if rule.outputIncludesReasoning then (v .reasoningOutputTokens).getD 0 else 0)

/-- The least total. -/
def leastTotal (v : Tokens) : Int :=
  rule.leastInput v + rule.leastOutput v + (v .toolInputTokens).getD 0 +
    (if rule.outputIncludesReasoning then 0 else (v .reasoningOutputTokens).getD 0) +
    (if rule.inputIncludesCache then 0 else (v .cachedInputTokens).getD 0 + leastWritten v)

/-- The least values are within what is reported. -/
structure Within (v : Tokens) : Prop where
  cache : rule.inputIncludesCache = true → ∀ i, v .inputTokens = some i →
    (v .cachedInputTokens).getD 0 + leastWritten v ≤ i
  total : ∀ t, v .totalTokens = some t → rule.leastTotal v ≤ t

end Rule

/-! ## Sums -/

theorem sumKnown_le {ps : List Field} {v : Tokens} {y : Field → Int} (hnonneg : ∀ f ∈ ps, 0 ≤ y f)
    (h : ∀ f ∈ ps, ∀ n, v f = some n → n = y f) : sumKnown (ps.map v) ≤ (ps.map y).sum := by
  induction ps with
  | nil => exact le_rfl
  | cons f ps ih =>
      have ih := ih (fun g hg => hnonneg g (List.mem_cons_of_mem _ hg)) fun g hg => h g (List.mem_cons_of_mem _ hg)
      have hf : (v f).getD 0 ≤ y f := by
        cases hv : v f with
        | none => exact hnonneg f List.mem_cons_self
        | some n => exact (h f List.mem_cons_self n hv).le
      rw [List.map_cons, List.map_cons, List.sum_cons]
      show (v f).getD 0 + sumKnown (ps.map v) ≤ _
      omega

theorem sumKnown_eq {ps : List Field} {v : Tokens} {y : Field → Int} (hsome : ∀ f ∈ ps, (v f).isSome)
    (h : ∀ f ∈ ps, ∀ n, v f = some n → n = y f) : sumKnown (ps.map v) = (ps.map y).sum := by
  induction ps with
  | nil => rfl
  | cons f ps ih =>
      have ih := ih (fun g hg => hsome g (List.mem_cons_of_mem _ hg)) fun g hg => h g (List.mem_cons_of_mem _ hg)
      obtain ⟨n, hn⟩ := Option.isSome_iff_exists.mp (hsome f List.mem_cons_self)
      rw [List.map_cons, List.map_cons, List.sum_cons, ← ih, ← h f List.mem_cons_self n hn, hn]
      rfl

/-- What is missing of a sum in which one summand is not known. -/
theorem sumKnown_of_filter {ps : List Field} {v : Tokens} {y : Field → Int} {f : Field}
    (hmissing : ps.filter (fun name => (v name).isNone) = [f]) (h : ∀ g ∈ ps, ∀ n, v g = some n → n = y g) :
    sumKnown (ps.map v) + y f = (ps.map y).sum := by
  induction ps with
  | nil => cases hmissing
  | cons g ps ih =>
      have hrest : ∀ g ∈ ps, ∀ n, v g = some n → n = y g := fun g hg => h g (List.mem_cons_of_mem _ hg)
      rw [List.map_cons, List.map_cons, List.sum_cons]
      show (v g).getD 0 + sumKnown (ps.map v) + y f = _
      cases hv : v g with
      | none =>
          rw [List.filter_cons_of_pos (by rw [hv]; rfl)] at hmissing
          obtain ⟨rfl, hnone⟩ := List.cons.inj hmissing
          have hsome : ∀ f ∈ ps, (v f).isSome := fun f hf => by
            by_contra hf'
            exact absurd (List.filter_eq_nil_iff.mp hnone f hf) (by simpa using hf')
          rw [sumKnown_eq hsome hrest]
          show 0 + _ + y g = _
          omega
      | some n =>
          rw [List.filter_cons_of_neg (by rw [hv]; simp)] at hmissing
          rw [h g List.mem_cons_self n hv, ← ih hmissing hrest]
          show y g + _ + _ = _
          omega

namespace Rule

variable {rule : Rule} {v : Tokens} {x : Field → Int}

/-! ## A choice exists only if the comparisons and the bounds hold -/

theorem parts_reported : ∀ f ∈ rule.parts, Reported f := by
  unfold parts
  split_ifs <;> decide

/-- The parts of a total are what the provider calls so. -/
theorem sum_parts (rule : Rule) (h : Identities x) : (rule.parts.map (rule.meant x)).sum = x .totalTokens := by
  have hinput := h.input
  have houtput := h.output
  have htotal := h.total
  unfold parts
  split_ifs with hreasoning hcache hcache <;>
    simp [meant, providerInput, providerOutput, hreasoning, hcache] <;> omega

theorem meant_nonneg (h : Identities x) (f : Field) : 0 ≤ rule.meant x f := by
  have htool := h.tool
  have hcached := h.nonneg .cachedInputTokens
  have hwritten := h.nonneg .cacheWriteInputTokens
  cases f with
  | inputTokens =>
      show 0 ≤ rule.providerInput x
      unfold providerInput
      split_ifs <;> omega
  | outputTokens =>
      show 0 ≤ rule.providerOutput x
      unfold providerOutput
      split_ifs
      · exact h.nonneg _
      · exact h.nonneg _
  | _ => exact h.nonneg _

theorem given_of_some {f : Field} {n : Int} (h : v f = some n) : rule.given v f = some n := by
  unfold given
  split
  · rw [if_neg, h]
    intro hmissing
    have hmem : f ∈ rule.parts.filter fun name => (v name).isNone := hmissing ▸ List.mem_singleton_self f
    have hnone := (List.mem_filter.mp hmem).2
    rw [h] at hnone
    cases hnone
  · exact h

/-- What is known of a counter is what it is. -/
theorem Completes.given (h : rule.Completes v x) {f : Field} (hf : Reported f) {n : Int}
    (hn : rule.given v f = some n) : n = rule.meant x f := by
  unfold Rule.given at hn
  split at hn
  · next total htotal =>
    split_ifs at hn with hmissing
    · have hsum := sumKnown_of_filter hmissing fun g hg n hn => h.reported g (parts_reported g hg) n hn
      rw [sum_parts rule h.toIdentities] at hsum
      have hreported : total = x .totalTokens := h.reported .totalTokens (by decide) total htotal
      have hleft := Option.some.inj hn
      omega
    · exact h.reported f hf n hn
  · exact h.reported f hf n hn

theorem Completes.known_le (h : rule.Completes v x) {f : Field} (hf : Reported f) :
    (v f).getD 0 ≤ rule.meant x f := by
  cases hv : v f with
  | none => exact meant_nonneg h.toIdentities f
  | some n => exact (h.reported f hf n hv).le

theorem Completes.given_le (h : rule.Completes v x) {f : Field} (hf : Reported f) :
    (rule.given v f).getD 0 ≤ rule.meant x f := by
  cases hv : rule.given v f with
  | none => exact meant_nonneg h.toIdentities f
  | some n => exact (h.given hf hv).le

theorem sumKnown_pair (a b : Option Int) : sumKnown [a, b] = a.getD 0 + b.getD 0 := by
  show a.getD 0 + (b.getD 0 + 0) = _
  rw [Int.add_zero]

theorem Completes.agrees (h : rule.Completes v x) : rule.Agrees v where
  parts := by
    intro total htotal
    have hreported : total = x .totalTokens := h.reported .totalTokens (by decide) total htotal
    have hparts : ∀ f ∈ rule.parts, ∀ n, v f = some n → n = rule.meant x f := fun f hf => h.reported f (parts_reported f hf)
    rw [hreported, ← sum_parts rule h.toIdentities]
    exact ⟨sumKnown_le (fun f _ => meant_nonneg h.toIdentities f) hparts, fun hsome => sumKnown_eq hsome hparts⟩
  cache := by
    intro hincl i hi
    have hinput : i = x .uncachedInputTokens - x .toolInputTokens +
        (x .cachedInputTokens + x .cacheWriteInputTokens) := by
      rw [h.given (by decide) hi]
      show rule.providerInput x = _
      unfold providerInput
      rw [if_pos hincl]
    have hcached : (rule.given v .cachedInputTokens).getD 0 ≤ x .cachedInputTokens := h.given_le (by decide)
    have hwritten : (rule.given v .cacheWriteInputTokens).getD 0 ≤ x .cacheWriteInputTokens := h.given_le (by decide)
    have htool := h.tool
    rw [sumKnown_pair]
    omega
  writes := by
    intro w hw
    have hwritten : w = x .cacheWriteInputTokens := h.given (by decide) hw
    have hshort : (rule.given v .cacheWrite5mTokens).getD 0 ≤ x .cacheWrite5mTokens := h.given_le (by decide)
    have hlong : (rule.given v .cacheWrite1hTokens).getD 0 ≤ x .cacheWrite1hTokens := h.given_le (by decide)
    have hwrites := h.writes
    refine ⟨by rw [sumKnown_pair]; omega, fun s l hs hl => ?_⟩
    have hs : s = x .cacheWrite5mTokens := h.given (by decide) hs
    have hl : l = x .cacheWrite1hTokens := h.given (by decide) hl
    omega
  reasoning := by
    intro hincl o r ho hr
    have hout : o = x .outputTokens := by
      rw [h.given (by decide) ho]
      show rule.providerOutput x = _
      unfold providerOutput
      rw [if_pos hincl]
    have hr : r = x .reasoningOutputTokens := h.given (by decide) hr
    have houtput := h.output
    have hnon := h.nonneg .nonReasoningOutputTokens
    omega

theorem Completes.leastWritten_le (h : rule.Completes v x) : leastWritten v ≤ x .cacheWriteInputTokens := by
  unfold leastWritten
  cases hw : v .cacheWriteInputTokens with
  | some w => exact (h.reported .cacheWriteInputTokens (by decide) w hw).le
  | none =>
      have hshort : (v .cacheWrite5mTokens).getD 0 ≤ x .cacheWrite5mTokens := h.known_le (by decide)
      have hlong : (v .cacheWrite1hTokens).getD 0 ≤ x .cacheWrite1hTokens := h.known_le (by decide)
      have hwrites := h.writes
      show sumKnown [_, _] ≤ _
      rw [sumKnown_pair]
      omega

theorem Completes.leastInput_le (h : rule.Completes v x) : rule.leastInput v ≤ rule.providerInput x := by
  unfold leastInput
  cases hi : v .inputTokens with
  | some i => exact (h.reported .inputTokens (by decide) i hi).le
  | none =>
      have hcached : (v .cachedInputTokens).getD 0 ≤ x .cachedInputTokens := h.known_le (by decide)
      have hwritten := h.leastWritten_le
      have htool := h.tool
      unfold providerInput
      rw [Option.getD_none]
      split_ifs <;> omega

theorem Completes.leastOutput_le (h : rule.Completes v x) : rule.leastOutput v ≤ rule.providerOutput x := by
  unfold leastOutput
  cases ho : v .outputTokens with
  | some o => exact (h.reported .outputTokens (by decide) o ho).le
  | none =>
      have hreasoning : (v .reasoningOutputTokens).getD 0 ≤ x .reasoningOutputTokens := h.known_le (by decide)
      have houtput := h.output
      have hnon := h.nonneg .nonReasoningOutputTokens
      unfold providerOutput
      rw [Option.getD_none]
      split_ifs <;> omega

theorem Completes.within (h : rule.Completes v x) : rule.Within v where
  cache := by
    intro hincl i hi
    have hinput : i = rule.providerInput x := h.reported .inputTokens (by decide) i hi
    have hcached : (v .cachedInputTokens).getD 0 ≤ x .cachedInputTokens := h.known_le (by decide)
    have hwritten := h.leastWritten_le
    have htool := h.tool
    unfold providerInput at hinput
    rw [if_pos hincl] at hinput
    omega
  total := by
    intro t ht
    have htotal : t = x .totalTokens := h.reported .totalTokens (by decide) t ht
    have hsum := sum_parts rule h.toIdentities
    have hinput := h.leastInput_le
    have houtput := h.leastOutput_le
    have htool : (v .toolInputTokens).getD 0 ≤ x .toolInputTokens := h.known_le (by decide)
    have hreasoning : (v .reasoningOutputTokens).getD 0 ≤ x .reasoningOutputTokens := h.known_le (by decide)
    have hcached : (v .cachedInputTokens).getD 0 ≤ x .cachedInputTokens := h.known_le (by decide)
    have hwritten := h.leastWritten_le
    unfold leastTotal
    unfold parts at hsum
    split_ifs at hsum ⊢ <;> simp [meant] at hsum <;> omega

end Rule

/-! ## The comparisons and the bounds suffice -/

/-- Amounts of what a provider reports. -/
structure Amounts where
  input : Int
  cached : Int
  written : Int
  short : Int
  long : Int
  tool : Int
  output : Int
  reasoning : Int

namespace Amounts

variable (rule : Rule) (a : Amounts)

/-- The total that they add up to. -/
def total : Int :=
  a.input + a.output + a.tool + (if rule.outputIncludesReasoning then 0 else a.reasoning) +
    (if rule.inputIncludesCache then 0 else a.cached + a.written)

/-- All counters. -/
def all : Field → Int
  | .inputTokens => (if rule.inputIncludesCache then a.input else a.input + a.cached + a.written) + a.tool
  | .uncachedInputTokens => (if rule.inputIncludesCache then a.input - a.cached - a.written else a.input) + a.tool
  | .cachedInputTokens => a.cached
  | .cacheWriteInputTokens => a.written
  | .cacheWrite5mTokens => a.short
  | .cacheWrite1hTokens => a.long
  | .toolInputTokens => a.tool
  | .outputTokens => if rule.outputIncludesReasoning then a.output else a.output + a.reasoning
  | .reasoningOutputTokens => a.reasoning
  | .nonReasoningOutputTokens => if rule.outputIncludesReasoning then a.output - a.reasoning else a.output
  | .totalTokens => a.total rule

/-- Amounts as in a report, its total left aside. -/
structure Suits (v : Tokens) : Prop where
  input_nonneg : 0 ≤ a.input
  cached_nonneg : 0 ≤ a.cached
  short_nonneg : 0 ≤ a.short
  long_nonneg : 0 ≤ a.long
  tool_nonneg : 0 ≤ a.tool
  output_nonneg : 0 ≤ a.output
  reasoning_nonneg : 0 ≤ a.reasoning
  writes : a.short + a.long = a.written
  cache : rule.inputIncludesCache = true → a.cached + a.written ≤ a.input
  reasoned : rule.outputIncludesReasoning = true → a.reasoning ≤ a.output
  input : ∀ n, v .inputTokens = some n → n = a.input
  cached : ∀ n, v .cachedInputTokens = some n → n = a.cached
  written : ∀ n, v .cacheWriteInputTokens = some n → n = a.written
  short : ∀ n, v .cacheWrite5mTokens = some n → n = a.short
  long : ∀ n, v .cacheWrite1hTokens = some n → n = a.long
  tool : ∀ n, v .toolInputTokens = some n → n = a.tool
  output : ∀ n, v .outputTokens = some n → n = a.output
  reasoning : ∀ n, v .reasoningOutputTokens = some n → n = a.reasoning

variable {rule a} {v : Tokens}

theorem Suits.completes (h : a.Suits rule v) (htotal : ∀ n, v .totalTokens = some n → n = a.total rule) :
    rule.Completes v (a.all rule) := by
  have hwrites := h.writes
  have hshort := h.short_nonneg
  have hlong := h.long_nonneg
  have hcached := h.cached_nonneg
  have htool := h.tool_nonneg
  have hinput := h.input_nonneg
  have houtput := h.output_nonneg
  have hreasoning := h.reasoning_nonneg
  refine { nonneg := fun f => ?_, input := ?_, output := ?_, total := ?_, writes := hwrites, tool := ?_, reported := ?_ }
  · have hcache := h.cache
    have hreasoned := h.reasoned
    cases f with
    | inputTokens =>
        simp only [all]
        split_ifs <;> omega
    | uncachedInputTokens =>
        simp only [all]
        split_ifs with hincl
        · have := hcache hincl
          omega
        · omega
    | cachedInputTokens => exact hcached
    | cacheWriteInputTokens =>
        show 0 ≤ a.written
        omega
    | cacheWrite5mTokens => exact hshort
    | cacheWrite1hTokens => exact hlong
    | toolInputTokens => exact htool
    | outputTokens =>
        simp only [all]
        split_ifs <;> omega
    | reasoningOutputTokens => exact hreasoning
    | nonReasoningOutputTokens =>
        simp only [all]
        split_ifs with hincl
        · exact Int.sub_nonneg.mpr (hreasoned hincl)
        · exact houtput
    | totalTokens =>
        simp only [all, total]
        split_ifs <;> omega
  · simp only [all]
    split_ifs <;> omega
  · simp only [all]
    split_ifs <;> omega
  · simp only [all, total]
    split_ifs <;> omega
  · have hcache := h.cache
    simp only [all]
    split_ifs with hincl
    · have := hcache hincl
      omega
    · omega
  · -- what the provider calls input and output is what was chosen for it
    intro f hf n hn
    cases f with
    | inputTokens =>
        rw [h.input n hn]
        simp only [Rule.meant, Rule.providerInput, all]
        split_ifs <;> omega
    | outputTokens =>
        rw [h.output n hn]
        simp only [Rule.meant, Rule.providerOutput, all]
        split_ifs <;> rfl
    | uncachedInputTokens => exact absurd rfl hf.1
    | nonReasoningOutputTokens => exact absurd rfl hf.2
    | cachedInputTokens => exact h.cached n hn
    | cacheWriteInputTokens => exact h.written n hn
    | cacheWrite5mTokens => exact h.short n hn
    | cacheWrite1hTokens => exact h.long n hn
    | toolInputTokens => exact h.tool n hn
    | reasoningOutputTokens => exact h.reasoning n hn
    | totalTokens => exact htotal n hn

/-! ### More of an amount that is not reported -/

theorem Suits.addInput (h : a.Suits rule v) (hv : v .inputTokens = none) {d : Int} (hd : 0 ≤ d) :
    Suits rule { a with input := a.input + d } v :=
  { h with
    input_nonneg := Int.add_nonneg h.input_nonneg hd
    cache := fun hincl => (h.cache hincl).trans (Int.le_add_of_nonneg_right hd)
    input := fun n hn => by rw [hv] at hn; cases hn }

theorem Suits.addOutput (h : a.Suits rule v) (hv : v .outputTokens = none) {d : Int} (hd : 0 ≤ d) :
    Suits rule { a with output := a.output + d } v :=
  { h with
    output_nonneg := Int.add_nonneg h.output_nonneg hd
    reasoned := fun hincl => (h.reasoned hincl).trans (Int.le_add_of_nonneg_right hd)
    output := fun n hn => by rw [hv] at hn; cases hn }

theorem Suits.addTool (h : a.Suits rule v) (hv : v .toolInputTokens = none) {d : Int} (hd : 0 ≤ d) :
    Suits rule { a with tool := a.tool + d } v :=
  { h with
    tool_nonneg := Int.add_nonneg h.tool_nonneg hd
    tool := fun n hn => by rw [hv] at hn; cases hn }

theorem Suits.addReasoning (h : a.Suits rule v) (hbeside : rule.outputIncludesReasoning = false)
    (hv : v .reasoningOutputTokens = none) {d : Int} (hd : 0 ≤ d) :
    Suits rule { a with reasoning := a.reasoning + d } v :=
  { h with
    reasoning_nonneg := Int.add_nonneg h.reasoning_nonneg hd
    reasoned := fun hincl => by rw [hbeside] at hincl; cases hincl
    reasoning := fun n hn => by rw [hv] at hn; cases hn }

theorem Suits.addCached (h : a.Suits rule v) (hbeside : rule.inputIncludesCache = false)
    (hv : v .cachedInputTokens = none) {d : Int} (hd : 0 ≤ d) : Suits rule { a with cached := a.cached + d } v :=
  { h with
    cached_nonneg := Int.add_nonneg h.cached_nonneg hd
    cache := fun hincl => by rw [hbeside] at hincl; cases hincl
    cached := fun n hn => by rw [hv] at hn; cases hn }

/-- What was written may have been written for either lifetime that is not reported. -/
theorem Suits.addWritten (h : a.Suits rule v) (hbeside : rule.inputIncludesCache = false)
    (hv : v .cacheWriteInputTokens = none) (hlifetime : v .cacheWrite5mTokens = none ∨ v .cacheWrite1hTokens = none)
    {d : Int} (hd : 0 ≤ d) : ∃ a' : Amounts, a'.Suits rule v ∧ a'.total rule = a.total rule + d := by
  have hwrites := h.writes
  have hshort := h.short_nonneg
  have hlong := h.long_nonneg
  rcases hlifetime with hs | hl
  · refine ⟨{ a with short := a.short + d, written := a.written + d }, { h with
      short_nonneg := Int.add_nonneg hshort hd
      writes := by show a.short + d + a.long = a.written + d; omega
      cache := fun hincl => by rw [hbeside] at hincl; cases hincl
      written := fun n hn => by rw [hv] at hn; cases hn
      short := fun n hn => by rw [hs] at hn; cases hn }, ?_⟩
    simp only [total, hbeside, Bool.false_eq_true, if_false]
    omega
  · refine ⟨{ a with long := a.long + d, written := a.written + d }, { h with
      long_nonneg := Int.add_nonneg hlong hd
      writes := by show a.short + (a.long + d) = a.written + d; omega
      cache := fun hincl => by rw [hbeside] at hincl; cases hincl
      written := fun n hn => by rw [hv] at hn; cases hn
      long := fun n hn => by rw [hl] at hn; cases hn }, ?_⟩
    simp only [total, hbeside, Bool.false_eq_true, if_false]
    omega

end Amounts

namespace Rule

variable {rule : Rule} {v : Tokens}

/-- The two lifetimes can be chosen. -/
theorem exists_lifetimes (hnonneg : NonNeg v) {w : Int}
    (hle : sumKnown [v .cacheWrite5mTokens, v .cacheWrite1hTokens] ≤ w)
    (heq : ∀ s l, v .cacheWrite5mTokens = some s → v .cacheWrite1hTokens = some l → s + l = w) :
    ∃ s l : Int, 0 ≤ s ∧ 0 ≤ l ∧ s + l = w ∧ (∀ n, v .cacheWrite5mTokens = some n → n = s) ∧
      ∀ n, v .cacheWrite1hTokens = some n → n = l := by
  rw [sumKnown_pair] at hle
  have hs := hnonneg .cacheWrite5mTokens
  have hl := hnonneg .cacheWrite1hTokens
  generalize v .cacheWrite5mTokens = short at hle heq hs ⊢
  generalize v .cacheWrite1hTokens = long at hle heq hl ⊢
  cases short with
  | none =>
      cases long with
      | none => exact ⟨w, 0, hle, le_rfl, Int.add_zero w, nofun, nofun⟩
      | some l =>
          refine ⟨w - l, l, ?_, hl l rfl, Int.sub_add_cancel w l, nofun, fun n hn => (Option.some.inj hn).symm⟩
          have hle : 0 + l ≤ w := hle
          omega
  | some s =>
      cases long with
      | none =>
          refine ⟨s, w - s, hs s rfl, ?_, by omega, fun n hn => (Option.some.inj hn).symm, nofun⟩
          have hle : s + 0 ≤ w := hle
          omega
      | some l =>
          exact ⟨s, l, hs s rfl, hl l rfl, heq s l rfl rfl, fun n hn => (Option.some.inj hn).symm,
            fun n hn => (Option.some.inj hn).symm⟩

theorem given_of_not_mem {f : Field} (h : f ∉ rule.parts) : rule.given v f = v f := by
  unfold given
  split
  · rw [if_neg]
    intro hmissing
    exact h (List.mem_of_mem_filter (hmissing ▸ List.mem_singleton_self f))
  · rfl

theorem mem_parts {f : Field} :
    f ∈ rule.parts ↔ f = .inputTokens ∨ f = .outputTokens ∨ f = .toolInputTokens ∨
      (rule.outputIncludesReasoning = false ∧ f = .reasoningOutputTokens) ∨
      (rule.inputIncludesCache = false ∧ (f = .cachedInputTokens ∨ f = .cacheWriteInputTokens)) := by
  unfold parts
  split_ifs with hreasoning hcache hcache <;> simp [hreasoning, hcache]

theorem lifetime_not_mem (f : Field) (hf : f = .cacheWrite5mTokens ∨ f = .cacheWrite1hTokens) : f ∉ rule.parts := by
  intro hmem
  rcases hf with rfl | rfl <;> simp [mem_parts] at hmem

theorem getD_nonneg (hnonneg : NonNeg v) (f : Field) : 0 ≤ (v f).getD 0 := by
  cases hv : v f with
  | none => exact le_rfl
  | some n => exact hnonneg f n hv

theorem eq_getD {f : Field} {d : Int} : ∀ n, v f = some n → n = (v f).getD d := fun n hn => by
  rw [hn]
  rfl

theorem leastWritten_nonneg (hnonneg : NonNeg v) : 0 ≤ leastWritten v := by
  have hs := getD_nonneg hnonneg .cacheWrite5mTokens
  have hl := getD_nonneg hnonneg .cacheWrite1hTokens
  unfold leastWritten
  cases hw : v .cacheWriteInputTokens with
  | none =>
      show 0 ≤ sumKnown [_, _]
      rw [sumKnown_pair]
      omega
  | some w => exact hnonneg _ w hw

theorem leastInput_nonneg (hnonneg : NonNeg v) : 0 ≤ rule.leastInput v := by
  have hc := getD_nonneg hnonneg .cachedInputTokens
  have hw := leastWritten_nonneg hnonneg
  unfold leastInput
  cases hi : v .inputTokens with
  | none =>
      rw [Option.getD_none]
      split_ifs <;> omega
  | some i => exact hnonneg _ i hi

theorem leastOutput_nonneg (hnonneg : NonNeg v) : 0 ≤ rule.leastOutput v := by
  have hr := getD_nonneg hnonneg .reasoningOutputTokens
  unfold leastOutput
  cases ho : v .outputTokens with
  | none =>
      rw [Option.getD_none]
      split_ifs <;> omega
  | some o => exact hnonneg _ o ho

/-- The least amounts suit the report, and add up to the least total. -/
theorem suits_least (hnonneg : NonNeg v) (hagrees : rule.Agrees v) (hwithin : rule.Within v) :
    ∃ a : Amounts, a.Suits rule v ∧ a.total rule = rule.leastTotal v := by
  -- the least that was written is split over the two lifetimes, with those reported as they are
  obtain ⟨s, l, hs, hl, hsum, hshort, hlong⟩ : ∃ s l : Int, 0 ≤ s ∧ 0 ≤ l ∧ s + l = leastWritten v ∧
      (∀ n, v .cacheWrite5mTokens = some n → n = s) ∧ ∀ n, v .cacheWrite1hTokens = some n → n = l := by
    unfold leastWritten
    cases hw : v .cacheWriteInputTokens with
    | none =>
        refine exists_lifetimes hnonneg le_rfl fun s l hs hl => ?_
        show s + l = sumKnown [_, _]
        rw [hs, hl, sumKnown_pair]
        rfl
    | some w =>
        obtain ⟨hle, heq⟩ := hagrees.writes w (given_of_some hw)
        rw [given_of_not_mem (lifetime_not_mem _ (.inl rfl)), given_of_not_mem (lifetime_not_mem _ (.inr rfl))] at hle heq
        exact exists_lifetimes hnonneg hle heq
  refine ⟨⟨rule.leastInput v, (v .cachedInputTokens).getD 0, leastWritten v, s, l, (v .toolInputTokens).getD 0,
    rule.leastOutput v, (v .reasoningOutputTokens).getD 0⟩, ?_, rfl⟩
  exact
    { input_nonneg := leastInput_nonneg hnonneg
      cached_nonneg := getD_nonneg hnonneg _
      short_nonneg := hs
      long_nonneg := hl
      tool_nonneg := getD_nonneg hnonneg _
      output_nonneg := leastOutput_nonneg hnonneg
      reasoning_nonneg := getD_nonneg hnonneg _
      writes := hsum
      cache := fun hincl => by
        show (v .cachedInputTokens).getD 0 + leastWritten v ≤ rule.leastInput v
        unfold leastInput
        cases hi : v .inputTokens with
        | none => rw [Option.getD_none, if_pos hincl]
        | some i => exact hwithin.cache hincl i hi
      reasoned := fun hincl => by
        show (v .reasoningOutputTokens).getD 0 ≤ rule.leastOutput v
        unfold leastOutput
        cases ho : v .outputTokens with
        | none => rw [Option.getD_none, if_pos hincl]
        | some o =>
            cases hr : v .reasoningOutputTokens with
            | none => exact hnonneg _ o ho
            | some r => exact hagrees.reasoning hincl o r (given_of_some ho) (given_of_some hr)
      input := eq_getD
      cached := eq_getD
      written := eq_getD
      short := hshort
      long := hlong
      tool := eq_getD
      output := eq_getD
      reasoning := eq_getD }

/-- Where every part is reported, the least total is their sum. -/
theorem leastTotal_eq (h : ∀ f ∈ rule.parts, (v f).isSome) : rule.leastTotal v = sumKnown (rule.parts.map v) := by
  have hknown : ∀ f ∈ rule.parts, ∀ d, (v f).getD d = (v f).getD 0 := fun f hf d => by
    obtain ⟨n, hn⟩ := Option.isSome_iff_exists.mp (h f hf)
    rw [hn]
    rfl
  have hmem : ∀ f ∈ [Field.inputTokens, .outputTokens, .toolInputTokens], f ∈ rule.parts :=
    fun f hf => List.mem_append_left _ (List.mem_append_left _ hf)
  unfold leastTotal leastInput leastOutput leastWritten
  rw [hknown .inputTokens (hmem _ (by decide)), hknown .outputTokens (hmem _ (by decide))]
  unfold parts at hknown ⊢
  split_ifs at hknown ⊢ with hreasoning hcache hcache
  · simp [sumKnown]
    omega
  · rw [hknown .cacheWriteInputTokens (by decide)]
    simp [sumKnown]
    omega
  · simp [sumKnown]
    omega
  · rw [hknown .cacheWriteInputTokens (by decide)]
    simp [sumKnown]
    omega

/-- Where the cache is beside the input and only the cache write is missing, the total says what was written. -/
theorem given_written (hbeside : rule.inputIncludesCache = false) {t : Int} (ht : v .totalTokens = some t)
    (hw : v .cacheWriteInputTokens = none) (h : ∀ f ∈ rule.parts, f ≠ .cacheWriteInputTokens → (v f).isSome) :
    rule.given v .cacheWriteInputTokens = some (t - (rule.leastTotal v - leastWritten v)) := by
  have hfilter : rule.parts.filter (fun name => (v name).isNone) = [.cacheWriteInputTokens] := by
    have honly : ∀ f ∈ rule.parts, (v f).isNone = decide (f = .cacheWriteInputTokens) := fun f hf => by
      by_cases hne : f = .cacheWriteInputTokens
      · rw [hne, hw]
        rfl
      · obtain ⟨n, hn⟩ := Option.isSome_iff_exists.mp (h f hf hne)
        rw [hn, decide_eq_false hne]
        rfl
    rw [List.filter_congr honly]
    simp only [parts, hbeside, Bool.false_eq_true, if_false]
    split_ifs
    · rfl
    · rfl
  have hsum : sumKnown (rule.parts.map v) = rule.leastTotal v - leastWritten v := by
    have hknown : ∀ f ∈ rule.parts, f ≠ .cacheWriteInputTokens → ∀ d, (v f).getD d = (v f).getD 0 :=
      fun f hf hne d => by
        obtain ⟨n, hn⟩ := Option.isSome_iff_exists.mp (h f hf hne)
        rw [hn]
        rfl
    have hmem : ∀ f ∈ [Field.inputTokens, .outputTokens, .toolInputTokens], f ∈ rule.parts :=
      fun f hf => List.mem_append_left _ (List.mem_append_left _ hf)
    unfold leastTotal leastInput leastOutput
    rw [hknown .inputTokens (hmem _ (by decide)) (by decide), hknown .outputTokens (hmem _ (by decide)) (by decide)]
    simp only [parts, hbeside, Bool.false_eq_true, if_false]
    split_ifs
    · simp [sumKnown, hw]
      omega
    · simp [sumKnown, hw]
      omega
  unfold given
  rw [ht]
  show (if _ then _ else _) = _
  rw [if_pos hfilter, hsum]

/-- A report whose comparisons and bounds hold can be completed. -/
theorem exists_completes (hnonneg : NonNeg v) (hagrees : rule.Agrees v) (hwithin : rule.Within v) :
    ∃ x, rule.Completes v x := by
  obtain ⟨a, hsuits, htotal⟩ := suits_least hnonneg hagrees hwithin
  cases ht : v .totalTokens with
  | none => exact ⟨_, hsuits.completes (by rw [ht]; nofun)⟩
  | some t =>
      have hle := hwithin.total t ht
      have hslack : 0 ≤ t - rule.leastTotal v := Int.sub_nonneg.mpr hle
      -- amounts that add up to the total complete the report
      have hdone : ∀ a' : Amounts, a'.Suits rule v → a'.total rule = a.total rule + (t - rule.leastTotal v) →
          ∃ x, rule.Completes v x := fun a' hsuits' htotal' => ⟨_, hsuits'.completes fun n hn => by
        rw [ht] at hn
        have hn := Option.some.inj hn
        omega⟩
      have hexact : rule.leastTotal v = t → ∃ x, rule.Completes v x := fun heq => hdone a hsuits (by omega)
      by_cases hi : v .inputTokens = none
      · exact hdone _ (hsuits.addInput hi hslack) (by simp only [Amounts.total]; omega)
      by_cases ho : v .outputTokens = none
      · exact hdone _ (hsuits.addOutput ho hslack) (by simp only [Amounts.total]; omega)
      by_cases htool : v .toolInputTokens = none
      · exact hdone _ (hsuits.addTool htool hslack) (by simp only [Amounts.total]; omega)
      by_cases hr : rule.outputIncludesReasoning = false ∧ v .reasoningOutputTokens = none
      · exact hdone _ (hsuits.addReasoning hr.1 hr.2 hslack) (by simp only [Amounts.total, hr.1]; simp; omega)
      by_cases hc : rule.inputIncludesCache = false ∧ v .cachedInputTokens = none
      · exact hdone _ (hsuits.addCached hc.1 hc.2 hslack) (by simp only [Amounts.total, hc.1]; simp; omega)
      -- at most the cache write is missing of the parts
      have hothers : ∀ f ∈ rule.parts, f ≠ .cacheWriteInputTokens → (v f).isSome := by
        intro f hf hne
        refine Option.isSome_iff_ne_none.mpr fun hnone => ?_
        rcases mem_parts.mp hf with rfl | rfl | rfl | ⟨hreasoning, rfl⟩ | ⟨hcache, rfl | rfl⟩
        · exact hi hnone
        · exact ho hnone
        · exact htool hnone
        · exact hr ⟨hreasoning, hnone⟩
        · exact hc ⟨hcache, hnone⟩
        · exact hne rfl
      by_cases hw : rule.inputIncludesCache = false ∧ v .cacheWriteInputTokens = none
      · obtain ⟨hbeside, hw⟩ := hw
        have hgiven := given_written hbeside ht hw hothers
        by_cases hlifetime : v .cacheWrite5mTokens = none ∨ v .cacheWrite1hTokens = none
        · obtain ⟨a', hsuits', htotal'⟩ := hsuits.addWritten hbeside hw hlifetime hslack
          exact hdone a' hsuits' htotal'
        · obtain ⟨hs, hl⟩ := not_or.mp hlifetime
          obtain ⟨s, hs⟩ := Option.ne_none_iff_exists'.mp hs
          obtain ⟨l, hl⟩ := Option.ne_none_iff_exists'.mp hl
          have hsum := (hagrees.writes _ hgiven).2 s l (given_of_some hs) (given_of_some hl)
          have hleast : leastWritten v = s + l := by
            unfold leastWritten
            rw [hw, hs, hl]
            exact sumKnown_pair _ _
          exact hexact (by omega)
      · have hall : ∀ f ∈ rule.parts, (v f).isSome := by
          intro f hf
          by_cases hne : f = .cacheWriteInputTokens
          · subst hne
            refine Option.isSome_iff_ne_none.mpr fun hnone => hw ⟨?_, hnone⟩
            rcases mem_parts.mp hf with h | h | h | ⟨-, h⟩ | ⟨hcache, -⟩
            · cases h
            · cases h
            · cases h
            · cases h
            · exact hcache
          · exact hothers f hf hne
        exact hexact (by rw [leastTotal_eq hall]; exact ((hagrees.parts t ht).2 hall))

end Rule

/-! ## What `normalize` compares -/

/-- A function fails with `InvalidUsage` if at all. -/
def OnlyInvalid {α : Type} (x : Except Failure α) : Prop := ∀ e, x = .error e → ∃ m, e = .invalidUsage m

theorem OnlyInvalid.ok {α : Type} (a : α) : OnlyInvalid (.ok a) := nofun

theorem OnlyInvalid.error {α : Type} (m : String) : OnlyInvalid (.error (.invalidUsage m) : Except Failure α) :=
  fun _ h => ⟨m, (Except.error.inj h).symm⟩

theorem OnlyInvalid.bind {α β : Type} {x : Except Failure α} {f : α → Except Failure β} (hx : OnlyInvalid x)
    (hf : ∀ a, OnlyInvalid (f a)) : OnlyInvalid (x >>= f) := by
  cases x with
  | error e => exact fun e' h => hx e' (congrArg Except.error (Except.error.inj h))
  | ok a => exact hf a

theorem OnlyInvalid.ite {α : Type} {p : Prop} [Decidable p] {x y : Except Failure α} (hx : OnlyInvalid x)
    (hy : OnlyInvalid y) : OnlyInvalid (if p then x else y) := by
  split_ifs
  · exact hx
  · exact hy

theorem onlyInvalid_atPath (raw : Json) (path : List String) : OnlyInvalid (atPath raw path) := by
  induction path generalizing raw with
  | nil =>
      unfold atPath
      exact .ok raw
  | cons name path ih =>
      cases raw with
      | null => exact .ok _
      | obj members => exact ih _
      | _ => exact .error _

theorem onlyInvalid_count (value : Json) : OnlyInvalid (count value) := by
  cases value with
  | null => exact .ok _
  | int n => exact .ite (.error _) (.ok _)
  | _ => exact .error _

namespace Rule

variable {rule : Rule} {v k : Tokens}

theorem onlyInvalid_readFields (raw : Json) (fields : List (Field × List String)) (k : Tokens) :
    OnlyInvalid (readFields raw fields k) := by
  induction fields generalizing k with
  | nil => exact .ok k
  | cons field fields ih =>
      exact (onlyInvalid_atPath raw field.2).bind fun value => (onlyInvalid_count value).bind fun _ => ih _

theorem not_isNone_iff {a : Option Int} : ¬ a.isNone = true ↔ a.isSome = true := by
  cases a <;> simp

/-- What `completeFromTotal` makes of counters. -/
theorem completeFromTotal_ok (h : rule.PartsAgree v) : ∃ ds, rule.completeFromTotal v = .ok (rule.given v, ds) := by
  unfold completeFromTotal
  cases ht : v .totalTokens with
  | none =>
      refine ⟨[], ?_⟩
      have hsame : rule.given v = v := funext fun f => by
        unfold given
        rw [ht]
      rw [hsame]
  | some total =>
      obtain ⟨hle, heq⟩ := h total ht
      dsimp only
      rw [if_neg]
      · split
        · next name hmissing =>
          refine ⟨[name.name ++ ":provider_total_minus_other_components"], ?_⟩
          have hgiven : rule.given v = Function.update v name (some (total - sumKnown (rule.parts.map v))) :=
            funext fun f => by
              unfold given
              rw [ht, hmissing]
              by_cases hf : f = name
              · subst hf
                rw [Function.update_self]
                exact if_pos rfl
              · rw [Function.update_of_ne hf]
                exact if_neg fun h => hf (List.cons.inj h).1.symm
          rw [hgiven]
        · next hmissing =>
          refine ⟨[], ?_⟩
          have hsame : rule.given v = v := funext fun f => by
            unfold given
            rw [ht]
            exact if_neg (hmissing f)
          rw [hsame]
      · rintro (hbig | ⟨hnone, hne⟩)
        · exact absurd hle (not_le.mpr hbig)
        · refine hne (heq fun f hf => ?_)
          have := List.filter_eq_nil_iff.mp hnone f hf
          exact not_isNone_iff.mp this

theorem partsAgree_of_ok {r : Tokens × List String} (h : rule.completeFromTotal v = .ok r) : rule.PartsAgree v := by
  intro total ht
  unfold completeFromTotal at h
  rw [ht] at h
  dsimp only at h
  split_ifs at h with hbad
  obtain ⟨hle, heq⟩ := not_or.mp hbad
  refine ⟨not_lt.mp hle, fun hsome => ?_⟩
  by_contra hne
  refine heq ⟨List.filter_eq_nil_iff.mpr fun f hf => ?_, hne⟩
  exact not_isNone_iff.mpr (hsome f hf)

theorem onlyInvalid_completeFromTotal (v : Tokens) : OnlyInvalid (rule.completeFromTotal v) := by
  unfold completeFromTotal
  split
  · exact .ok _
  · refine .ite (.error _) ?_
    split
    · exact .ok _
    · exact .ok _

theorem onlyInvalid_splitInput (k : Tokens) : OnlyInvalid (rule.splitInput k) :=
  .ite (.ite (.error _) (.ok _)) (.ok _)

theorem splitInput_ok_iff : (∃ k', rule.splitInput k = .ok k') ↔
    (rule.inputIncludesCache = true → ∀ i, k .inputTokens = some i →
      sumKnown [k .cachedInputTokens, k .cacheWriteInputTokens] ≤ i) := by
  unfold splitInput
  dsimp only
  split_ifs with hincl hbad
  · refine iff_of_false nofun fun h => ?_
    cases hi : k .inputTokens with
    | none =>
        rw [hi] at hbad
        cases hbad
    | some i =>
        rw [hi] at hbad
        exact absurd (h hincl i hi) (not_le.mpr (of_decide_eq_true hbad))
  · refine iff_of_true ⟨_, rfl⟩ fun _ i hi => ?_
    rw [hi] at hbad
    exact not_lt.mp fun hlt => hbad (decide_eq_true hlt)
  · exact iff_of_true ⟨_, rfl⟩ fun h => absurd h hincl

theorem onlyInvalid_checkWrites (k : Tokens) : OnlyInvalid (checkWrites k) := by
  unfold checkWrites
  dsimp only
  split
  · exact .ok _
  · exact .ite (.error _) (.ok _)

theorem checkWrites_ok_iff : (∃ u, checkWrites k = .ok u) ↔
    ∀ w, k .cacheWriteInputTokens = some w →
      sumKnown [k .cacheWrite5mTokens, k .cacheWrite1hTokens] ≤ w ∧
        ∀ s l, k .cacheWrite5mTokens = some s → k .cacheWrite1hTokens = some l → s + l = w := by
  unfold checkWrites
  dsimp only
  cases hw : k .cacheWriteInputTokens with
  | none => exact iff_of_true ⟨_, rfl⟩ nofun
  | some w =>
      dsimp only
      split_ifs with hbad
      · refine iff_of_false nofun fun h => ?_
        obtain ⟨hle, heq⟩ := h w rfl
        rcases hbad with hbig | ⟨hs, hl, hne⟩
        · exact absurd hle (not_le.mpr hbig)
        · obtain ⟨s, hs⟩ := Option.isSome_iff_exists.mp hs
          obtain ⟨l, hl⟩ := Option.isSome_iff_exists.mp hl
          refine hne ?_
          rw [hs, hl, sumKnown_pair]
          exact heq s l hs hl
      · refine iff_of_true ⟨_, rfl⟩ fun w' hw' => ?_
        obtain rfl := Option.some.inj hw'
        obtain ⟨hle, heq⟩ := not_or.mp hbad
        refine ⟨not_lt.mp hle, fun s l hs hl => ?_⟩
        by_contra hne
        refine heq ⟨by rw [hs]; rfl, by rw [hl]; rfl, ?_⟩
        rw [hs, hl, sumKnown_pair]
        exact hne

theorem onlyInvalid_splitOutput (k : Tokens) : OnlyInvalid (rule.splitOutput k) := by
  unfold splitOutput
  dsimp only
  refine .ite ?_ (.ok _)
  split
  · exact .ite (.error _) (.ok _)
  · exact .ok _

theorem splitOutput_ok_iff : (∃ k', rule.splitOutput k = .ok k') ↔
    (rule.outputIncludesReasoning = true → ∀ o r, k .outputTokens = some o → k .reasoningOutputTokens = some r →
      r ≤ o) := by
  unfold splitOutput
  dsimp only
  split_ifs with hincl
  · split
    · next o r ho hr =>
      split_ifs with hbad
      · exact iff_of_false nofun fun h => absurd (h hincl o r ho hr) (not_le.mpr hbad)
      · refine iff_of_true ⟨_, rfl⟩ fun _ o' r' ho' hr' => ?_
        obtain rfl := Option.some.inj (ho.symm.trans ho')
        obtain rfl := Option.some.inj (hr.symm.trans hr')
        exact not_lt.mp hbad
    · next hmissing => exact iff_of_true ⟨_, rfl⟩ fun _ o r ho hr => absurd hr (hmissing o r ho)
  · exact iff_of_true ⟨_, rfl⟩ fun h => absurd h hincl

theorem onlyInvalid_closeTotal (k : Tokens) : OnlyInvalid (closeTotal k) := by
  unfold closeTotal
  split
  · exact .ite (.error _) (.ok _)
  · exact .ok _
  · exact .ok _

theorem onlyInvalid_normalizeFlat (rule : Rule) (raw : Json) : OnlyInvalid (rule.normalizeFlat raw) :=
  (onlyInvalid_readFields _ _ _).bind fun _ => (onlyInvalid_completeFromTotal _).bind fun _ =>
    (onlyInvalid_splitInput _).bind fun _ => (onlyInvalid_checkWrites _).bind fun _ =>
      (onlyInvalid_splitOutput _).bind fun _ => (onlyInvalid_closeTotal _).bind fun _ => .ok _

end Rule

namespace Rule

variable {rule : Rule} {v k k' : Tokens} {raw : Json}

/-! ## Counters that `normalize` returns -/

theorem splitOutput_parts (h : rule.splitOutput k = .ok k') {o r n : Int} (ho : k' .outputTokens = some o)
    (hr : k' .reasoningOutputTokens = some r) (hn : k' .nonReasoningOutputTokens = some n) : o = r + n := by
  unfold splitOutput at h
  dsimp only at h
  split_ifs at h with hincl
  · split at h
    · next o' r' ho' hr' =>
      split_ifs at h with hbad
      cases h
      have ho : o' = o := Option.some.inj (ho'.symm.trans ho)
      have hr : r' = r := Option.some.inj (hr'.symm.trans hr)
      have hn : o' - r' = n := Option.some.inj hn
      omega
    · cases h
      cases hn
  · cases h
    have hn : k .outputTokens = some n := hn
    have hr : k .reasoningOutputTokens = some r := hr
    have ho : sumAll [k .outputTokens, k .reasoningOutputTokens] = some o := ho
    rw [hn, hr] at ho
    have ho : n + (r + 0) = o := Option.some.inj ho
    omega

theorem closeTotal_total {r : Tokens × List String} (h : closeTotal k = .ok r) {t i o : Int}
    (ht : r.1 .totalTokens = some t) (hi : r.1 .inputTokens = some i) (ho : r.1 .outputTokens = some o) : t = i + o := by
  unfold closeTotal at h
  split at h
  · next total derived htotal hderived =>
    split_ifs at h with hne
    cases h
    have hi : k .inputTokens = some i := hi
    have ho : k .outputTokens = some o := ho
    rw [hi, ho] at hderived
    have hderived : i + (o + 0) = derived := Option.some.inj hderived
    have ht : total = t := Option.some.inj (htotal.symm.trans ht)
    have heq : total = derived := not_not.mp hne
    omega
  · next derived htotal hderived =>
    cases h
    have hi : k .inputTokens = some i := hi
    have ho : k .outputTokens = some o := ho
    rw [hi, ho] at hderived
    have hderived : i + (o + 0) = derived := Option.some.inj hderived
    have ht : derived = t := Option.some.inj ht
    omega
  · next hnone =>
    cases h
    have hi : k .inputTokens = some i := hi
    have ho : k .outputTokens = some o := ho
    rw [hi, ho] at hnone
    cases hnone

theorem normalizeFlat_partition {r : Tokens × List String} (h : rule.normalizeFlat raw = .ok r) : Partition r.1 := by
  have hnormal := normalizeFlat_normal h
  unfold normalizeFlat at h
  obtain ⟨k₀, h₀, h⟩ := bind_ok.mp h
  obtain ⟨⟨k₁, ds₁⟩, h₁, h⟩ := bind_ok.mp h
  obtain ⟨k₂, h₂, h⟩ := bind_ok.mp h
  obtain ⟨⟨⟩, h₃, h⟩ := bind_ok.mp h
  obtain ⟨k₄, h₄, h⟩ := bind_ok.mp h
  obtain ⟨⟨k₅, ds₅⟩, h₅, h⟩ := bind_ok.mp h
  cases h
  have hstart : NonNeg fun _ => none := fun _ _ hn => nomatch hn
  have hnonneg₁ := completeFromTotal_nonneg (setZeros_nonneg (readFields_nonneg hstart h₀)) h₁
  obtain ⟨hnonneg₂, -, -⟩ := splitInput_spec hnonneg₁ h₂
  obtain ⟨hnonneg₄, -⟩ := splitOutput_spec hnonneg₂ h₄
  obtain ⟨-, hsame₅⟩ := closeTotal_spec hnonneg₄ h₅
  refine ⟨hnormal.nonneg, fun i u c w hi hu hc hw => ?_, fun o r n ho hr hn => ?_, fun t i o ht hi ho =>
    closeTotal_total h₅ ht hi ho⟩
  · exact Option.some.inj (hi.symm.trans (hnormal.whole u c w hu hc hw))
  · refine splitOutput_parts h₄ ?_ ?_ ?_
    · exact (hsame₅ _ (by decide)).symm.trans ho
    · exact (hsame₅ _ (by decide)).symm.trans hr
    · exact (hsame₅ _ (by decide)).symm.trans hn

/-! ## When `normalize` refuses an object -/

/-- All parts of a total, when they are known, are all of it. -/
theorem sumKnown_given (h : rule.PartsAgree v) {t : Int} (ht : v .totalTokens = some t)
    (hsome : ∀ f ∈ rule.parts, (rule.given v f).isSome) : sumKnown (rule.parts.map (rule.given v)) = t := by
  have hvalue : ∀ f ∈ rule.parts, ∀ n, v f = some n → n = (rule.given v f).getD 0 := fun f _ n hn => by
    rw [given_of_some hn]
    rfl
  rw [sumKnown_eq hsome fun f _ => eq_getD (d := 0)]
  by_cases hone : ∃ f, rule.parts.filter (fun name => (v name).isNone) = [f]
  · obtain ⟨f, hf⟩ := hone
    have hgiven : rule.given v f = some (t - sumKnown (rule.parts.map v)) := by
      unfold given
      rw [ht]
      exact if_pos hf
    have hsum := sumKnown_of_filter hf hvalue
    rw [hgiven] at hsum
    have hsum : sumKnown (rule.parts.map v) + (t - sumKnown (rule.parts.map v)) = _ := hsum
    omega
  · have hsame : rule.given v = v := funext fun f => by
      unfold given
      rw [ht]
      exact if_neg fun hf => hone ⟨f, hf⟩
    rw [hsame] at hsome hvalue ⊢
    rw [← sumKnown_eq hsome hvalue]
    exact (h t ht).2 hsome

theorem splitInput_input (h : rule.splitInput k = .ok k') :
    k' .inputTokens = if rule.inputIncludesCache then sumAll [k .inputTokens, k .toolInputTokens]
      else sumAll [k .inputTokens, k .cachedInputTokens, k .cacheWriteInputTokens, k .toolInputTokens] := by
  unfold splitInput at h
  dsimp only at h
  split_ifs at h ⊢
  · cases h
    rfl
  · cases h
    rfl

theorem splitOutput_output (h : rule.splitOutput k = .ok k') :
    k' .outputTokens = if rule.outputIncludesReasoning then k .outputTokens
      else sumAll [k .outputTokens, k .reasoningOutputTokens] := by
  unfold splitOutput at h
  dsimp only at h
  split_ifs at h ⊢
  · split at h
    · split_ifs at h
      cases h
      rfl
    · cases h
      rfl
  · cases h
    rfl

/-- A sum of known values. -/
theorem sumAll_some {vs : List (Option Int)} {n : Int} (h : sumAll vs = some n) :
    (∀ a ∈ vs, a.isSome) ∧ sumKnown vs = n := by
  induction vs generalizing n with
  | nil =>
      cases h
      exact ⟨nofun, rfl⟩
  | cons a vs ih =>
      obtain ⟨m, rfl, b, hb, rfl⟩ := sumAll_cons.mp h
      obtain ⟨hsome, rfl⟩ := ih hb
      exact ⟨List.forall_mem_cons.mpr ⟨rfl, hsome⟩, rfl⟩

/-- The input and the output of a report, where they are known, are its total. -/
theorem derived_total (h : rule.PartsAgree v) {t i o : Int} (ht : v .totalTokens = some t)
    (hi : (if rule.inputIncludesCache then sumAll [rule.given v .inputTokens, rule.given v .toolInputTokens]
      else sumAll [rule.given v .inputTokens, rule.given v .cachedInputTokens, rule.given v .cacheWriteInputTokens,
        rule.given v .toolInputTokens]) = some i)
    (ho : (if rule.outputIncludesReasoning then rule.given v .outputTokens
      else sumAll [rule.given v .outputTokens, rule.given v .reasoningOutputTokens]) = some o) : t = i + o := by
  have hsum := sumKnown_given h ht
  have houtput : ∃ os, sumAll os = some o ∧
      os = if rule.outputIncludesReasoning then [rule.given v .outputTokens]
        else [rule.given v .outputTokens, rule.given v .reasoningOutputTokens] := by
    split_ifs at ho ⊢
    · refine ⟨_, ?_, rfl⟩
      rw [ho]
      exact congrArg some (Int.add_zero o)
    · exact ⟨_, ho, rfl⟩
  obtain ⟨os, ho, hos⟩ := houtput
  obtain ⟨hosome, ho⟩ := sumAll_some ho
  unfold parts at hsum
  split_ifs at hi hos hsum
  all_goals
    subst hos
    obtain ⟨hisome, hi⟩ := sumAll_some hi
    simp only [List.forall_mem_cons] at hisome hosome hsum
    simp [sumKnown, hisome, hosome] at hi ho hsum
    omega

theorem normalizeFlat_ok_iff (hread : readFields raw rule.fields (fun _ => none) = .ok k)
    (hv : v = setZeros rule.zeroFields k) : (∃ r, rule.normalizeFlat raw = .ok r) ↔ rule.Agrees v := by
  have hstart : NonNeg fun _ => none := fun _ _ hn => nomatch hn
  have hnonneg : NonNeg v := hv ▸ setZeros_nonneg (readFields_nonneg hstart hread)
  have hbind : rule.normalizeFlat raw = (rule.completeFromTotal v >>= fun completed =>
      rule.splitInput completed.1 >>= fun values => checkWrites values >>= fun _ =>
        rule.splitOutput values >>= fun values => closeTotal values >>= fun closed =>
          pure (closed.1, (rule.zeroFields.map fun f => f.name ++ ":not_a_separate_counter_in_this_protocol") ++
            completed.2 ++ closed.2)) := by
    unfold normalizeFlat
    rw [hread, hv]
    rfl
  rw [hbind]
  constructor
  · rintro ⟨r, h⟩
    obtain ⟨⟨k₁, ds₁⟩, h₁, h⟩ := bind_ok.mp h
    obtain ⟨k₂, h₂, h⟩ := bind_ok.mp h
    obtain ⟨⟨⟩, h₃, h⟩ := bind_ok.mp h
    obtain ⟨k₄, h₄, -⟩ := bind_ok.mp h
    have hparts := partsAgree_of_ok h₁
    obtain ⟨ds, hgiven⟩ := completeFromTotal_ok hparts
    -- each later step checks counters that the steps before it left alone
    obtain rfl : k₁ = rule.given v := congrArg Prod.fst (Except.ok.inj (h₁.symm.trans hgiven))
    obtain ⟨-, -, hsame⟩ := splitInput_spec (completeFromTotal_nonneg hnonneg h₁) h₂
    refine ⟨hparts, splitInput_ok_iff.mp ⟨k₂, h₂⟩, ?_, ?_⟩
    · have hwrites := checkWrites_ok_iff.mp ⟨(), h₃⟩
      rw [hsame _ (by decide) (by decide), hsame .cacheWrite5mTokens (by decide) (by decide),
        hsame .cacheWrite1hTokens (by decide) (by decide)] at hwrites
      exact hwrites
    · have hreasoning := splitOutput_ok_iff.mp ⟨k₄, h₄⟩
      rw [hsame _ (by decide) (by decide), hsame .reasoningOutputTokens (by decide) (by decide)] at hreasoning
      exact hreasoning
  · intro h
    obtain ⟨ds, hgiven⟩ := completeFromTotal_ok h.parts
    obtain ⟨k₂, h₂⟩ := splitInput_ok_iff.mpr h.cache
    have hnonneg₁ := completeFromTotal_nonneg hnonneg hgiven
    obtain ⟨hnonneg₂, -, hsame⟩ := splitInput_spec hnonneg₁ h₂
    have h₃ : ∃ u, checkWrites k₂ = .ok u := by
      refine checkWrites_ok_iff.mpr ?_
      rw [hsame _ (by decide) (by decide), hsame .cacheWrite5mTokens (by decide) (by decide),
        hsame .cacheWrite1hTokens (by decide) (by decide)]
      exact h.writes
    obtain ⟨⟨⟩, h₃⟩ := h₃
    have h₄ : ∃ k₄, rule.splitOutput k₂ = .ok k₄ := by
      refine splitOutput_ok_iff.mpr ?_
      rw [hsame _ (by decide) (by decide), hsame .reasoningOutputTokens (by decide) (by decide)]
      exact h.reasoning
    obtain ⟨k₄, h₄⟩ := h₄
    obtain ⟨-, hsame₄⟩ := splitOutput_spec hnonneg₂ h₄
    -- the check of the total that is left never fails
    have h₅ : ∃ r, closeTotal k₄ = .ok r := by
      have hinput := splitInput_input h₂
      have houtput := splitOutput_output h₄
      rw [hsame .outputTokens (by decide) (by decide), hsame .reasoningOutputTokens (by decide) (by decide)] at houtput
      rw [← hsame₄ .inputTokens (by decide) (by decide)] at hinput
      have htotal : k₄ .totalTokens = rule.given v .totalTokens :=
        (hsame₄ _ (by decide) (by decide)).trans (hsame _ (by decide) (by decide))
      have htotal : k₄ .totalTokens = v .totalTokens := htotal.trans (given_of_not_mem (by simp [mem_parts]))
      unfold closeTotal
      split
      · next total derived ht hd =>
        obtain ⟨i, hi, b, hb, hsum⟩ := sumAll_cons.mp hd
        obtain ⟨o, ho, z, hz, hsum'⟩ := sumAll_cons.mp hb
        cases hz
        rw [if_neg]
        · exact ⟨_, rfl⟩
        · have heq := derived_total h.parts (htotal.symm.trans ht) (hinput.symm.trans hi) (houtput.symm.trans ho)
          omega
      · exact ⟨_, rfl⟩
      · exact ⟨_, rfl⟩
    obtain ⟨closed, h₅⟩ := h₅
    exact ⟨_, bind_ok.mpr ⟨_, hgiven, bind_ok.mpr ⟨_, h₂, bind_ok.mpr ⟨_, h₃, bind_ok.mpr ⟨_, h₄, bind_ok.mpr
      ⟨_, h₅, rfl⟩⟩⟩⟩⟩⟩

end Rule

end Ramulator.ChiaLoop.Accounting
