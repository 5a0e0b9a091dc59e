/-
# Ramulator.ChiaLoop.Quote — when quotes are conservative.

`quote_conservative_iff`: what a usage may have cost lies within its quote, for a usage of one request
whenever there is a quote, and for totals of many requests just when the tariff has a tier that is the
cheapest in every price and one that is the dearest. What one request may cost is within `reservation`.

The code fails on three kinds of input, `mixed_requests_below_quote`: requests in several tiers, counters
of which none has a price, and samplings whose costs are rounded up one by one.
-/
import Ramulator.ChiaLoop.Tariff

namespace Ramulator.ChiaLoop.Accounting

open Ramulator.Lib

/-! ## Tokens of many requests -/

/-- The tokens of a kind, in all requests. -/
def total (rs : List Request) (c : Kind) : ℚ := ((rs.map fun r => r.tokens c).sum : Nat)

@[simp] theorem total_nil (c : Kind) : total [] c = 0 := rfl

@[simp] theorem total_cons (r : Request) (rs : List Request) (c : Kind) :
    total (r :: rs) c = r.tokens c + total rs c := by
  unfold total
  push_cast [List.map_cons, List.sum_cons]
  rfl

theorem total_append (rs rs' : List Request) (c : Kind) : total (rs ++ rs') c = total rs c + total rs' c := by
  unfold total
  push_cast [List.map_append, List.sum_append]
  rfl

theorem total_replicate (m : Nat) (r : Request) (c : Kind) :
    total (List.replicate m r) c = m * r.tokens c := by
  unfold total
  rw [List.map_replicate, List.sum_replicate, nsmul_eq_mul]
  push_cast
  rfl

/-- At fixed prices the cost of requests is the cost of their tokens. -/
theorem sum_costAt (price : Kind → ℚ) (rs : List Request) :
    (rs.map fun r => costAt price fun c => r.tokens c).sum = costAt price (total rs) := by
  induction rs with
  | nil => simp [Rates.costAt_eq]
  | cons r rs ih =>
      rw [List.map_cons, List.sum_cons, ih]
      simp only [Rates.costAt_eq, total_cons]
      ring

theorem costAt_mono {p p' n : Kind → ℚ} (hn : ∀ c, 0 ≤ n c) (h : ∀ c, p c ≤ p' c) : costAt p n ≤ costAt p' n := by
  have hterm : ∀ c, n c * p c ≤ n c * p' c := fun c => mul_le_mul_of_nonneg_left (h c) (hn c)
  have h₁ := hterm .input
  have h₂ := hterm .cachedInput
  have h₃ := hterm .write5m
  have h₄ := hterm .write1h
  have h₅ := hterm .output
  rw [Rates.costAt_eq, Rates.costAt_eq]
  linarith

/-- Counters of requests, in terms of their tokens. -/
theorem sum_counter_input (rs : List Request) : ((rs.map fun r => r.counter .inputTokens).sum : Nat) =
    total rs .input + (total rs .cachedInput + (total rs .write5m + total rs .write1h)) := by
  induction rs with
  | nil => simp
  | cons r rs ih =>
      rw [List.map_cons, List.sum_cons, Nat.cast_add, ih]
      simp only [total_cons, Request.counter, Request.tokens]
      push_cast
      ring

theorem sum_counter_written (rs : List Request) :
    ((rs.map fun r => r.counter .cacheWriteInputTokens).sum : Nat) = total rs .write5m + total rs .write1h := by
  induction rs with
  | nil => simp
  | cons r rs ih =>
      rw [List.map_cons, List.sum_cons, Nat.cast_add, ih]
      simp only [total_cons, Request.counter, Request.tokens]
      push_cast
      ring

namespace FlatUsage

variable {usage : FlatUsage} {k : Tokens} {scope : Scope} {rs : List Request}

/-- The tokens of requests agree with the counters that they stand for. -/
theorem StandsFor.agrees (h : usage.StandsFor scope rs) (ht : usage.tokens = some k) : Agrees k (total rs) := by
  have hknown : ∀ f (m : Int), k f = some m → (((rs.map fun r => r.counter f).sum : Nat) : ℚ) = m := by
    intro f m hm
    rw [← h.2 k ht f m hm, Int.cast_natCast]
  constructor
  · intro c
    exact Nat.cast_nonneg _
  · intro m hm
    rw [← sum_counter_input]
    exact hknown _ m hm
  · exact fun m hm => hknown .uncachedInputTokens m hm
  · exact fun m hm => hknown .cachedInputTokens m hm
  · intro m hm
    rw [← sum_counter_written]
    exact hknown _ m hm
  · exact fun m hm => hknown .cacheWrite5mTokens m hm
  · exact fun m hm => hknown .cacheWrite1hTokens m hm
  · exact fun m hm => hknown .outputTokens m hm

/-- The one request of a usage has the input that is known. -/
theorem StandsFor.single (h : usage.StandsFor .providerRequest rs) :
    ∃ r, rs = [r] ∧ ∀ k, usage.tokens = some k → ∀ f n, k f = some n → (r.counter f : Int) = n := by
  obtain ⟨r, rfl⟩ := List.length_eq_one_iff.mp (h.1 rfl)
  refine ⟨r, rfl, fun k hk f n hn => ?_⟩
  simpa using h.2 k hk f n hn

end FlatUsage

/-! ## Where a quote is right -/

/-- `Conservative` of one object. -/
def ConservativeFlat (tariff : Tariff) (usage : FlatUsage) (scope : Scope) : Prop :=
  ∃ q, quoteFlat usage (some tariff) scope = .ok q ∧
    ∀ rs, usage.StandsFor scope rs → q.Bounds (rs.map tariff.cost).sum

/-- A tier that no other is below, in any price. -/
def HasCheapest (tariff : Tariff) : Prop :=
  ∃ t ∈ tariff.tiers, ∀ t' ∈ tariff.tiers, ∀ c, t.rates.price c ≤ t'.rates.price c

/-- A tier that no other is above, in any price. -/
def HasDearest (tariff : Tariff) : Prop :=
  ∃ t ∈ tariff.tiers, ∀ t' ∈ tariff.tiers, ∀ c, t'.rates.price c ≤ t.rates.price c

section Flat

variable {tariff : Tariff} {usage : FlatUsage} {k : Tokens} {scope : Scope}

/-- What the tokens cost in any of the tiers of the quote is within it. -/
theorem quoteFlat_bounds (tariff : Tariff) (scope : Scope) (ht : usage.tokens = some k) (hk : Normal k) (hb : ¬Blank k) :
    ∃ q, quoteFlat usage (some tariff) scope = .ok q ∧
      ∀ n, Agrees k n → ∀ t ∈ (tariff.tiersFor k scope).1, q.Bounds (costAt t.rates.price n) := by
  obtain ⟨q, l, hq, hencloses, hall⟩ := quoteFlat_ok tariff scope ht hk hb
  refine ⟨q, hq, fun n ha t htier => ?_⟩
  obtain ⟨range, hrange, hinterval⟩ := exists_of_mem_left hall htier
  obtain ⟨hlow, hhigh⟩ := Rates.interval_bounds hk hinterval ha
  constructor
  · intro lo hlo
    obtain ⟨p, -, hfloor, hle⟩ := hencloses.lower
    rw [hfloor] at hlo
    cases hlo
    exact (Int.floor_le _).trans ((hle range hrange).trans hlow)
  · intro hi hhi
    obtain ⟨p, -, u, -, rfl, hge⟩ := hencloses.upper hi hhi
    obtain ⟨u', hu', hle⟩ := hge range hrange
    exact (hhigh u' hu').trans (hle.trans (Int.le_ceil _))

/-- With nothing reported there are no ends. -/
theorem conservativeFlat_none (ht : usage.tokens = none) : ConservativeFlat tariff usage scope := by
  refine ⟨⟨none, none, ["usage_unavailable"]⟩, ?_, fun rs _ => ?_⟩
  · unfold quoteFlat
    rw [ht]
  · exact ⟨fun l hl => (nomatch hl), fun u hu => (nomatch hu)⟩

/-- The one request is in a tier of its quote. -/
theorem conservative_of_request (ht : usage.tokens = some k) (hk : Normal k) (hb : ¬Blank k) :
    ConservativeFlat tariff usage .providerRequest := by
  obtain ⟨q, hq, hbounds⟩ := quoteFlat_bounds tariff .providerRequest ht hk hb
  refine ⟨q, hq, fun rs hrs => ?_⟩
  have hagrees := hrs.agrees ht
  obtain ⟨r, rfl, hr⟩ := hrs.single
  have hmem : tariff.tierOf (r.counter .inputTokens) ∈ (tariff.tiersFor k .providerRequest).1 := by
    cases hinput : k .inputTokens with
    | none =>
        rw [Tariff.tiersFor_all (.inr hinput)]
        exact tariff.tierOf_mem _
    | some n =>
        rw [Tariff.tiersFor_request hinput, hr k ht _ n hinput]
        exact List.mem_singleton_self _
  have hcost := hbounds _ hagrees _ hmem
  rw [← sum_costAt, List.map_singleton, List.sum_singleton] at hcost
  rw [List.map_singleton, List.sum_singleton]
  exact hcost

/-- All requests cost at least what they would in the cheapest tier, and at most what they would in the
dearest. -/
theorem conservative_of_tiers (hcheap : HasCheapest tariff) (hdear : HasDearest tariff)
    (hscope : scope ≠ .providerRequest) (ht : usage.tokens = some k) (hk : Normal k) (hb : ¬Blank k) :
    ConservativeFlat tariff usage scope := by
  obtain ⟨q, hq, hbounds⟩ := quoteFlat_bounds tariff scope ht hk hb
  obtain ⟨cheap, hcheap_mem, hcheap⟩ := hcheap
  obtain ⟨dear, hdear_mem, hdear⟩ := hdear
  rw [Tariff.tiersFor_all (.inl hscope)] at hbounds
  refine ⟨q, hq, fun rs hrs => ?_⟩
  have hagrees := hrs.agrees ht
  have hnonneg : ∀ (r : Request) c, (0 : ℚ) ≤ r.tokens c := fun r c => Nat.cast_nonneg _
  have hlow : costAt cheap.rates.price (total rs) ≤ (rs.map tariff.cost).sum := by
    rw [← sum_costAt]
    exact List.sum_le_sum fun r _ => costAt_mono (hnonneg r) (hcheap _ (tariff.tierOf_mem _))
  have hhigh : (rs.map tariff.cost).sum ≤ costAt dear.rates.price (total rs) := by
    rw [← sum_costAt]
    exact List.sum_le_sum fun r _ => costAt_mono (hnonneg r) (hdear _ (tariff.tierOf_mem _))
  exact ⟨fun l hl => ((hbounds _ hagrees cheap hcheap_mem).1 l hl).trans hlow,
    fun u hu => hhigh.trans ((hbounds _ hagrees dear hdear_mem).2 u hu)⟩

end Flat

/-! ## Samplings -/

/-- The objects of a usage: itself, or its samplings. -/
def Usage.objects : Usage → List FlatUsage
  | .flat usage => [usage]
  | .iterated _ parts => parts.map Prod.snd

/-- In every object something that has a price is known, unless nothing was reported. -/
def Usage.Priceable (usage : Usage) : Prop := ∀ o ∈ usage.objects, ∀ k, o.tokens = some k → ¬Blank k

theorem normalizeObject_normal {p : Protocol} {raw : Json} {o : FlatUsage} (h : normalizeObject p raw = .ok o) :
    ∀ k, o.tokens = some k → Normal k := by
  obtain ⟨⟨k, ds⟩, hflat, h⟩ := bind_ok.mp h
  cases h
  intro k' hk
  cases hk
  exact Rule.normalizeFlat_normal hflat

theorem normalizeIterations_eq_ok {p q : Protocol} {rows : Json} {usage : Usage}
    (h : normalizeIterations p q rows = .ok usage) :
    ∃ (rows' : List Json) (types : List String) (objects : List FlatUsage), List.Forall₂ (fun row o => normalizeObject q row = .ok o) rows' objects ∧
      types.length = objects.length ∧
      usage = .iterated ⟨some fun name => sumAll (objects.map fun o => o.tokens.bind (· name)),
        ["sampling_iterations_replace_top_level_usage"], p⟩ (types.zip objects) := by
  unfold normalizeIterations at h
  split at h
  · next row rows =>
    obtain ⟨types, htypes, h⟩ := bind_ok.mp h
    obtain ⟨objects, hobjects, h⟩ := bind_ok.mp h
    cases h
    refine ⟨row :: rows, types, objects, mapM_ok.mp hobjects, ?_, rfl⟩
    rw [← (mapM_ok.mp htypes).length_eq, ← (mapM_ok.mp hobjects).length_eq]
  · cases h

/-- The counters of a usage as a whole. -/
def Usage.tokens : Usage → Option Tokens
  | .flat usage => usage.tokens
  | .iterated usage _ => usage.tokens

/-- What `normalize` returns: an object, or samplings with the sums of their counters. -/
theorem normalize_cases {raw : Json} {p : Protocol} {usage : Usage} (h : normalize raw p = .ok usage) :
    (∃ o, usage = .flat o) ∨
      usage.tokens = some fun name => sumAll (usage.objects.map fun o => o.tokens.bind (· name)) := by
  unfold normalize at h
  split at h
  · cases h
    exact .inl ⟨_, rfl⟩
  · split at h
    · obtain ⟨o, -, h⟩ := bind_ok.mp h
      cases h
      exact .inl ⟨o, rfl⟩
    · obtain ⟨o, -, h⟩ := bind_ok.mp h
      cases h
      exact .inl ⟨o, rfl⟩
    · obtain ⟨rows', types, objects, -, hlength, rfl⟩ := normalizeIterations_eq_ok h
      refine .inr ?_
      rw [Usage.objects, List.map_snd_zip hlength.ge]
      rfl
  · cases h

/-- The counters of every object of a normalized usage are normal. -/
theorem normalize_normal {raw : Json} {p : Protocol} {usage : Usage} (h : normalize raw p = .ok usage) :
    ∀ o ∈ usage.objects, ∀ k, o.tokens = some k → Normal k := by
  unfold normalize at h
  split at h
  · cases h
    intro o ho k hk
    rw [List.mem_singleton.mp ho] at hk
    cases hk
  · split at h
    · obtain ⟨o, hnormal, h⟩ := bind_ok.mp h
      cases h
      intro o' ho'
      rw [List.mem_singleton.mp ho']
      exact normalizeObject_normal hnormal
    · obtain ⟨o, hnormal, h⟩ := bind_ok.mp h
      cases h
      intro o' ho'
      rw [List.mem_singleton.mp ho']
      exact normalizeObject_normal hnormal
    · obtain ⟨rows', types, objects, hall, hlength, rfl⟩ := normalizeIterations_eq_ok h
      intro o ho
      rw [Usage.objects, List.map_snd_zip hlength.ge] at ho
      obtain ⟨row, -, hrow⟩ := exists_of_mem_right hall ho
      exact normalizeObject_normal hrow
  · cases h

section Iterated

variable {tariff : Tariff} {scope : Scope}

/-- Sums of quotes bound sums of costs. -/
theorem sumAll_bounds {parts : List (String × FlatUsage)} {costs : List Quote} {rss : List (List Request)}
    (hcosts : List.Forall₂ (fun part q => ∀ rs, part.2.StandsFor scope rs → q.Bounds (rs.map tariff.cost).sum)
      parts costs)
    (hrss : List.Forall₂ (fun part rs => part.2.StandsFor scope rs) parts rss) :
    (∀ l, sumAll (costs.map Quote.lower) = some l → l ≤ (rss.flatten.map tariff.cost).sum) ∧
      ∀ u, sumAll (costs.map Quote.upper) = some u → (rss.flatten.map tariff.cost).sum ≤ u := by
  induction hcosts generalizing rss with
  | nil =>
      cases hrss
      constructor <;> intro x hx <;> cases hx <;> exact le_rfl
  | @cons part q parts costs hq _ ih =>
      cases hrss with
      | @cons _ rs _ rss hrs hrss =>
          obtain ⟨hlow, hhigh⟩ := ih hrss
          obtain ⟨hlow₁, hhigh₁⟩ := hq rs hrs
          rw [List.flatten_cons, List.map_append, List.sum_append]
          constructor
          · intro l hl
            obtain ⟨a, ha, b, hb, rfl⟩ := sumAll_cons.mp hl
            push_cast
            exact add_le_add (hlow₁ a ha) (hlow b hb)
          · intro u hu
            obtain ⟨a, ha, b, hb, rfl⟩ := sumAll_cons.mp hu
            push_cast
            exact add_le_add (hhigh₁ a ha) (hhigh b hb)

/-- The quote of a usage is conservative when those of its objects are. -/
theorem conservative_of_objects {usage : Usage} (h : ∀ o ∈ usage.objects, ConservativeFlat tariff o scope) :
    Conservative tariff usage scope := by
  cases usage with
  | flat usage =>
      obtain ⟨q, hq, hbounds⟩ := h usage (List.mem_singleton_self _)
      refine ⟨⟨q, []⟩, ?_, hbounds⟩
      show (quoteFlat usage (some tariff) scope >>= fun q => pure (⟨q, []⟩ : UsageQuote)) = _
      rw [hq]
      rfl
  | iterated usage parts =>
      have hparts : ∀ part ∈ parts, ConservativeFlat tariff part.2 scope := fun part hpart =>
        h part.2 (List.mem_map_of_mem hpart)
      obtain ⟨costs, hcosts, hbounds⟩ := mapM_forall₂
        (f := fun part : String × FlatUsage => quoteFlat part.2 (some tariff) scope)
        (P := fun part q => ∀ rs, part.2.StandsFor scope rs → q.Bounds (rs.map tariff.cost).sum) hparts
      refine ⟨⟨⟨sumAll (costs.map Quote.lower), sumAll (costs.map Quote.upper),
        ["sum_sampling_iterations_once; not_invoice_or_quota"]⟩, (parts.map Prod.fst).zip costs⟩, ?_, ?_⟩
      · show (parts.mapM _ >>= fun costs => _) = _
        rw [hcosts]
        rfl
      · rintro rs ⟨rss, hrss, rfl⟩
        exact sumAll_bounds hbounds hrss

/-- There is no quote of a usage when there is none of one of its objects. -/
theorem quoteFlat_of_quote {usage : Usage} {q : UsageQuote} (h : quote usage (some tariff) scope = .ok q)
    {o : FlatUsage} (ho : o ∈ usage.objects) : ∃ q', quoteFlat o (some tariff) scope = .ok q' := by
  cases usage with
  | flat usage =>
      obtain ⟨q', hq', -⟩ := bind_ok.mp h
      rw [List.mem_singleton.mp ho]
      exact ⟨q', hq'⟩
  | iterated usage parts =>
      obtain ⟨costs, hcosts, -⟩ := bind_ok.mp h
      obtain ⟨part, hpart, rfl⟩ := List.mem_map.mp ho
      obtain ⟨q', -, hq'⟩ := exists_of_mem_left (mapM_ok.mp hcosts) hpart
      exact ⟨q', hq'⟩

theorem priceable_of_conservative {usage : Usage} (hn : ∀ o ∈ usage.objects, ∀ k, o.tokens = some k → Normal k)
    (h : Conservative tariff usage scope) : usage.Priceable := by
  intro o ho k hk hb
  obtain ⟨q, hq, -⟩ := h
  obtain ⟨q', hq'⟩ := quoteFlat_of_quote hq ho
  rw [quoteFlat_blank hk (hn o ho k hk) hb] at hq'
  cases hq'

end Iterated

/-! ## Requests of several tiers -/

theorem CompleteTiers.tail {t t' : Tier} {ts : List Tier} (h : CompleteTiers (t :: t' :: ts)) :
    (∃ m, t.maximumInputTokens = some m ∧ ∀ s ∈ t' :: ts, ∀ m' ∈ s.maximumInputTokens, m < m') ∧
      CompleteTiers (t' :: ts) := by
  obtain ⟨last, hlast, hnone⟩ := h.unbounded
  rw [List.getLast?_cons_cons] at hlast
  have hdrop : (t :: t' :: ts).dropLast = t :: (t' :: ts).dropLast := rfl
  have hbounded := h.bounded
  have hincreasing := h.increasing
  rw [hdrop] at hbounded hincreasing
  obtain ⟨m, hm⟩ := Option.ne_none_iff_exists'.mp (hbounded t (List.mem_cons_self ..))
  rw [List.filterMap_cons_some hm, List.pairwise_cons] at hincreasing
  refine ⟨⟨m, hm, fun s hs m' hm' => ?_⟩, ⟨last, hlast, hnone⟩,
    fun s hs => hbounded s (List.mem_cons_of_mem _ hs), hincreasing.2⟩
  -- what has a limit is not the last
  have hmem : s ∈ (t' :: ts).dropLast := by
    rw [← List.dropLast_append_getLast? last hlast] at hs
    rcases List.mem_append.mp hs with hs | hs
    · exact hs
    · rw [List.mem_singleton.mp hs, hnone] at hm'
      cases hm'
  exact hincreasing.1 m' (List.mem_filterMap.mpr ⟨s, hmem, hm'⟩)

/-- Every tier is the tier of some input. -/
theorem CompleteTiers.exists_size {tiers : List Tier} (h : CompleteTiers tiers) (b : Nat)
    (hb : ∀ t ∈ tiers, ∀ m ∈ t.maximumInputTokens, b < m) :
    ∀ t ∈ tiers, ∃ n : Nat, b < n ∧ tiers.find? (Tier.fits n) = some t := by
  induction tiers generalizing b with
  | nil => exact fun t ht => absurd ht List.not_mem_nil
  | cons t ts ih =>
      cases ts with
      | nil =>
          intro s hs
          obtain ⟨last, hlast, hnone⟩ := h.unbounded
          cases hlast
          have hnone : t.maximumInputTokens = none := hnone
          rw [List.mem_singleton.mp hs]
          refine ⟨b + 1, Nat.lt_succ_self b, ?_⟩
          rw [List.find?_cons_of_pos]
          unfold Tier.fits
          rw [hnone]
      | cons t' ts =>
          obtain ⟨⟨m, hm, hlater⟩, hrest⟩ := h.tail
          intro s hs
          rcases List.mem_cons.mp hs with rfl | hs
          · refine ⟨m, hb s (List.mem_cons_self ..) m hm, ?_⟩
            rw [List.find?_cons_of_pos]
            unfold Tier.fits
            rw [hm]
            exact decide_eq_true le_rfl
          · obtain ⟨n, hn, hfind⟩ := ih hrest m hlater s hs
            have hbm := hb t (List.mem_cons_self ..) m hm
            refine ⟨n, hbm.trans hn, ?_⟩
            rw [List.find?_cons_of_neg, hfind]
            unfold Tier.fits
            rw [hm]
            simpa using hn

theorem Tariff.exists_size (tariff : Tariff) {t : Tier} (ht : t ∈ tariff.tiers) :
    ∃ n : Nat, 0 < n ∧ tariff.tierOf n = t := by
  have hpos : ∀ s ∈ tariff.tiers, ∀ m ∈ s.maximumInputTokens, 0 < m := fun s _ m hm => s.maximum_pos m hm
  obtain ⟨n, hn, hfind⟩ := tariff.complete_tiers.exists_size 0 hpos t ht
  refine ⟨n, hn, ?_⟩
  unfold tierOf
  simp only [hfind, Option.get_some]

/-- A request with the tokens that are given. -/
def Request.ofTokens (n : Kind → Nat) : Request where
  prompt := n .input
  cached := n .cachedInput
  write5m := n .write5m
  write1h := n .write1h
  answer := n .output

@[simp] theorem Request.tokens_ofTokens (n : Kind → Nat) (c : Kind) : (ofTokens n).tokens c = n c := by
  cases c
  all_goals simp [ofTokens, tokens]

/-- Tokens of one kind. -/
def only (c : Kind) (m : Nat) : Kind → Nat := fun c' => if c' = c then m else 0

theorem counter_only {c : Kind} (hc : c ≠ .output) (m : Nat) :
    (Request.ofTokens (only c m)).counter .inputTokens = m := by
  cases c
  case output => exact absurd rfl hc
  all_goals simp [Request.ofTokens, Request.counter, only]

theorem exists_least {α : Type} {l : List α} (hne : l ≠ []) (f : α → ℚ) : ∃ a ∈ l, ∀ b ∈ l, f a ≤ f b := by
  have hne' : l.map f ≠ [] := by simpa using hne
  have hmem := least_mem hne'
  obtain ⟨a, ha, heq⟩ := List.mem_map.mp hmem
  refine ⟨a, ha, fun b hb => ?_⟩
  rw [heq]
  exact least_le (List.mem_map_of_mem hb)

/-- A number of repetitions that makes up for a constant, in each of finitely many cases. -/
theorem exists_repetitions {α : Type} (l : List α) (gap off : α → ℚ) (h : ∀ a ∈ l, 0 < gap a) :
    ∃ m : Nat, ∀ a ∈ l, off a ≤ m * gap a := by
  induction l with
  | nil => exact ⟨0, fun a ha => absurd ha List.not_mem_nil⟩
  | cons a l ih =>
      obtain ⟨m, hm⟩ := ih fun b hb => h b (List.mem_cons_of_mem _ hb)
      have hgap := h a (List.mem_cons_self ..)
      obtain ⟨m', hm'⟩ : ∃ m' : Nat, off a / gap a ≤ m' := ⟨_, Nat.le_ceil _⟩
      refine ⟨max m m', fun b hb => ?_⟩
      rcases List.mem_cons.mp hb with rfl | hb
      · have hle : off b ≤ m' * gap b := (div_le_iff₀ hgap).mp hm'
        refine hle.trans (mul_le_mul_of_nonneg_right ?_ hgap.le)
        exact_mod_cast le_max_right m m'
      · refine (hm b hb).trans (mul_le_mul_of_nonneg_right ?_ (h b (List.mem_cons_of_mem _ hb)).le)
        exact_mod_cast le_max_left m m'

section Mixed

variable (tariff : Tariff) (size : Kind → Nat) (m : Nat)

/-- Requests of one kind of input each, and one that has the output. The size of the inputs puts them in
the tiers that are wanted. -/
def mixed : List Request :=
  List.replicate m (.ofTokens (only .input (size .input))) ++
  (List.replicate m (.ofTokens (only .cachedInput (size .cachedInput))) ++
  (List.replicate m (.ofTokens (only .write5m (size .write5m))) ++
  (List.replicate m (.ofTokens (only .write1h (size .write1h))) ++
  [.ofTokens fun c => if c = .input then size .output else if c = .output then m else 0])))

/-- How many tokens of a kind are in one round of the requests. -/
def share (c : Kind) : ℚ := if c = .output then 1 else size c

/-- What the requests cost, each in its tier. -/
theorem sum_mixed {p : Tier → Kind → ℚ} {t : Kind → Tier} (ht : ∀ c, tariff.tierOf (size c) = t c) :
    ((mixed size m).map fun r => costAt (p (tariff.tierOf (r.counter .inputTokens))) fun c => r.tokens c).sum =
      m * costAt (fun c => p (t c) c) (share size) + size .output * p (t .output) .input := by
  have hlast : (Request.ofTokens fun c => if c = .input then size .output else if c = .output then m else 0).counter
      .inputTokens = size .output := by
    simp [Request.ofTokens, Request.counter]
  unfold mixed
  simp only [List.map_append, List.sum_append, List.map_replicate, List.sum_replicate, nsmul_eq_mul,
    List.map_singleton, List.sum_singleton, Request.tokens_ofTokens, hlast,
    counter_only (c := .input) (by decide), counter_only (c := .cachedInput) (by decide),
    counter_only (c := .write5m) (by decide), counter_only (c := .write1h) (by decide), ht]
  simp only [Rates.costAt_eq, only, share]
  simp
  ring

/-- What the requests would cost all in one tier. -/
theorem costAt_total_mixed (p : Kind → ℚ) :
    costAt p (total (mixed size m)) = m * costAt p (share size) + size .output * p .input := by
  unfold mixed
  simp only [Rates.costAt_eq, total_append, total_replicate, total_cons, total_nil, Request.tokens_ofTokens, only,
    share]
  simp
  ring

variable {tariff}

/-- Without a tier that is least in every kind, requests of several tiers come to less than their tokens in
any one tier. -/
theorem mixed_below {p : Tier → Kind → ℚ}
    (h : ¬∃ t ∈ tariff.tiers, ∀ t' ∈ tariff.tiers, ∀ c, p t c ≤ p t' c) :
    ∃ size m, ∀ t ∈ tariff.tiers,
      ((mixed size m).map fun r => costAt (p (tariff.tierOf (r.counter .inputTokens))) fun c => r.tokens c).sum + 1 ≤
        costAt (p t) (total (mixed size m)) := by
  choose t ht hle using fun c => exists_least tariff.tiers_ne_nil fun s => p s c
  choose size hsize htier using fun c => tariff.exists_size (ht c)
  have hshare : ∀ c, 0 < share size c := by
    intro c
    unfold share
    split_ifs
    · exact one_pos
    · exact_mod_cast hsize c
  -- each tier is above the least prices in some kind
  have hgap : ∀ s ∈ tariff.tiers, 0 < costAt (p s) (share size) - costAt (fun c => p (t c) c) (share size) := by
    intro s hs
    have hterm : ∀ c, 0 ≤ share size c * (p s c - p (t c) c) := fun c =>
      mul_nonneg (hshare c).le (sub_nonneg.mpr (hle c s hs))
    obtain ⟨c, hc⟩ : ∃ c, 0 < share size c * (p s c - p (t c) c) := by
      by_contra hnone
      refine h ⟨s, hs, fun s' hs' c => ?_⟩
      have hle' := not_lt.mp fun hpos => hnone ⟨c, hpos⟩
      have heq : p s c - p (t c) c ≤ 0 := nonpos_of_mul_nonpos_right hle' (hshare c)
      exact (sub_nonpos.mp heq).trans (hle c s' hs')
    have h₁ := hterm .input
    have h₂ := hterm .cachedInput
    have h₃ := hterm .write5m
    have h₄ := hterm .write1h
    have h₅ := hterm .output
    rw [Rates.costAt_eq, Rates.costAt_eq]
    cases c <;> linarith
  obtain ⟨m, hm⟩ := exists_repetitions tariff.tiers _
    (fun s => 1 + size .output * (p (t .output) .input - p s .input)) hgap
  refine ⟨size, m, fun s hs => ?_⟩
  have hle := hm s hs
  rw [sum_mixed tariff size m htier, costAt_total_mixed]
  linarith

end Mixed

/-! ## What a quote is when all is known -/

/-- An object with all the counters of the Messages API. -/
def reported (n : Kind → Nat) : Json :=
  .obj [("input_tokens", .int (n .input)),
    ("cache_read_input_tokens", .int (n .cachedInput)),
    ("cache_creation_input_tokens", .int (n .write5m + n .write1h)),
    ("cache_creation", .obj [("ephemeral_5m_input_tokens", .int (n .write5m)),
      ("ephemeral_1h_input_tokens", .int (n .write1h))]),
    ("output_tokens", .int (n .output))]

/-- Its counters when it is normalized. -/
def knownTokens (n : Kind → Nat) : Tokens
  | .inputTokens => some (n .input + (n .cachedInput + ((n .write5m + n .write1h) + 0)))
  | .uncachedInputTokens => some (n .input)
  | .cachedInputTokens => some (n .cachedInput)
  | .cacheWriteInputTokens => some (n .write5m + n .write1h)
  | .cacheWrite5mTokens => some (n .write5m)
  | .cacheWrite1hTokens => some (n .write1h)
  | .toolInputTokens => some 0
  | .outputTokens => some (n .output)
  | .reasoningOutputTokens => none
  | .nonReasoningOutputTokens => none
  | .totalTokens => some (n .input + (n .cachedInput + ((n .write5m + n .write1h) + 0)) + n .output)

theorem count_natCast (n : Nat) : count (.int n) = .ok (some (n : Int)) := by
  have hn : ¬(n : Int) < 0 := by omega
  simp only [count, hn, if_false]

/-- The counters as they are read. -/
def readTokens (n : Kind → Nat) : Tokens
  | .inputTokens => some (n .input)
  | .cachedInputTokens => some (n .cachedInput)
  | .cacheWriteInputTokens => some (n .write5m + n .write1h)
  | .cacheWrite5mTokens => some (n .write5m)
  | .cacheWrite1hTokens => some (n .write1h)
  | .outputTokens => some (n .output)
  | _ => none

theorem readFields_reported (n : Kind → Nat) :
    Rule.readFields (reported n) anthropicFields (fun _ => none) = .ok (readTokens n) := by
  have hwritten : count (.int (n .write5m + n .write1h)) = .ok (some (n .write5m + n .write1h : Int)) := by
    exact_mod_cast count_natCast (n .write5m + n .write1h)
  simp only [Rule.readFields, anthropicFields, reported, atPath, List.lookup_cons, count_natCast, hwritten, bind, Except.bind,
    Option.getD_some, beq_self_eq_true, String.reduceBEq]
  congr 1
  funext f
  cases f <;> rfl

theorem normalizeFlat_reported (n : Kind → Nat) :
    Protocol.anthropicApi.rule.normalizeFlat (reported n) = .ok (knownTokens n,
      ["tool_input_tokens:not_a_separate_counter_in_this_protocol", "total_tokens:input_plus_output"]) := by
  have hread : Rule.readFields (reported n) Protocol.anthropicApi.rule.fields (fun _ => none) = .ok (readTokens n) :=
    readFields_reported n
  -- the counters before the total is added
  let values : Tokens := Function.update (knownTokens n) .totalTokens none
  have hsplit : ∀ k, k = Function.update (readTokens n) .toolInputTokens (some 0) →
      Protocol.anthropicApi.rule.splitInput k = .ok values := by
    rintro k rfl
    refine congrArg Except.ok (funext fun f => ?_)
    cases f <;> simp [values, knownTokens, readTokens, sumAll, Function.update]
  have hwrites : Rule.checkWrites values = .ok () := by
    simp [Rule.checkWrites, values, knownTokens, sumKnown]
  have hout : Protocol.anthropicApi.rule.splitOutput values = .ok values := by
    refine congrArg Except.ok (funext fun f => ?_)
    cases f <;> rfl
  have hclose : Rule.closeTotal values = .ok (knownTokens n, ["total_tokens:input_plus_output"]) := by
    have hsum : sumAll [values .inputTokens, values .outputTokens] = knownTokens n .totalTokens := by
      simp [values, knownTokens, sumAll]
    unfold Rule.closeTotal
    rw [hsum]
    refine congrArg (fun k => Except.ok (k, ["total_tokens:input_plus_output"])) (funext fun f => ?_)
    cases f <;> rfl
  have hcomplete : Protocol.anthropicApi.rule.completeFromTotal
      (Rule.setZeros Protocol.anthropicApi.rule.zeroFields (readTokens n)) =
      .ok (Function.update (readTokens n) .toolInputTokens (some 0), []) := rfl
  refine bind_ok.mpr ⟨_, hread, bind_ok.mpr ⟨_, hcomplete, bind_ok.mpr ⟨_, hsplit _ rfl, ?_⟩⟩⟩
  refine bind_ok.mpr ⟨_, hwrites, bind_ok.mpr ⟨_, hout, bind_ok.mpr ⟨_, hclose, rfl⟩⟩⟩

/-- The usage of a turn of which all counters are reported. -/
def reportedUsage (n : Kind → Nat) : FlatUsage where
  tokens := some (knownTokens n)
  derived := ["tool_input_tokens:not_a_separate_counter_in_this_protocol", "total_tokens:input_plus_output"]
  protocol := .anthropicApi

theorem normalize_reported (n : Kind → Nat) :
    normalize (reported n) .anthropicApi = .ok (.flat (reportedUsage n)) := by
  have h : normalizeObject .anthropicApi (reported n) = .ok (reportedUsage n) :=
    bind_ok.mpr ⟨_, normalizeFlat_reported n, rfl⟩
  show (normalizeObject .anthropicApi (reported n) >>= fun usage => pure (Usage.flat usage)) = _
  rw [h]
  rfl

theorem agrees_knownTokens (n : Kind → Nat) : Agrees (knownTokens n) fun c => n c := by
  constructor
  · intro c
    exact Nat.cast_nonneg _
  all_goals
    intro m hm
    cases hm
    push_cast
  all_goals simp

/-- All counts are known, so that the prices of the writes have one mean. -/
theorem writePrices_known (rates : Rates) (n : Kind → Nat) :
    ((n .write5m + n .write1h : ℚ) * least (rates.writePrices (knownTokens n)) =
      n .write5m * rates.price .write5m + n .write1h * rates.price .write1h) ∧
    ((n .write5m + n .write1h : ℚ) * greatest (rates.writePrices (knownTokens n)) =
      n .write5m * rates.price .write5m + n .write1h * rates.price .write1h) := by
  obtain ⟨-, -, -, hlow, hhigh⟩ := Rates.writePrices_fits rates (agrees_knownTokens n)
  have hshape : (∃ a, rates.writePrices (knownTokens n) = [a]) ∨ (n .write5m + n .write1h : ℚ) = 0 := by
    unfold Rates.writePrices knownTokens
    dsimp only
    split
    · split_ifs with hzero
      · exact .inr (by exact_mod_cast hzero)
      · exact .inl ⟨_, rfl⟩
    · exact .inl ⟨_, rfl⟩
  rcases hshape with ⟨a, ha⟩ | hzero
  · rw [ha] at hlow hhigh ⊢
    exact ⟨le_antisymm hlow hhigh, le_antisymm hlow hhigh⟩
  · rw [hzero, zero_mul] at hlow hhigh
    rw [hzero, zero_mul, zero_mul]
    exact ⟨le_antisymm hlow hhigh, le_antisymm hlow hhigh⟩

/-- Both ends of the interval of a tier are what the tokens cost in it. -/
theorem interval_known {rates : Rates} {n : Kind → Nat} {range : Amount × Option Amount}
    (h : rates.interval (knownTokens n) = .ok range) :
    range.1.value = costAt rates.price (fun c => n c) ∧
      ∃ u, range.2 = some u ∧ u.value = costAt rates.price (fun c => n c) := by
  obtain ⟨input, hinput, hrange⟩ := Rates.interval_eq_ok h
  obtain ⟨hleast, hgreatest⟩ := writePrices_known rates n
  have hin : input = (priced least (rates.components (knownTokens n)),
      some (priced greatest (rates.components (knownTokens n)))) := by
    have hok : rates.inputRange (knownTokens n) = .ok (priced least (rates.components (knownTokens n)),
      some (priced greatest (rates.components (knownTokens n)))) := rfl
    rw [hok] at hinput
    exact (Except.ok.inj hinput).symm
  have hvalue : ∀ pick : List ℚ → ℚ, (∀ a, pick [a] = a) →
      ((n .write5m + n .write1h : ℚ) * pick (rates.writePrices (knownTokens n)) =
        n .write5m * rates.price .write5m + n .write1h * rates.price .write1h) →
      (priced pick (rates.components (knownTokens n))).value + n .output * rates.price .output =
        costAt rates.price (fun c => n c) := by
    intro pick hpick hwrite
    have hpriced : (priced pick (rates.components (knownTokens n))).value =
        0 + (n .write5m + n .write1h : Int) * pick (rates.writePrices (knownTokens n)) +
        (n .cachedInput : Int) * pick [rates.cachedInput.value] + (n .input : Int) * pick [rates.input.value] := by
      simp [priced, Rates.components, knownTokens, Amount.value, Amount.plus]
    rw [hpriced, hpick, hpick, Rates.costAt_eq]
    push_cast
    rw [hwrite]
    unfold Rates.price
    ring
  rcases hrange with ⟨hout, -⟩ | ⟨out, hout, rfl⟩
  · cases hout
  · cases hout
    rw [hin]
    exact ⟨hvalue least (fun _ => rfl) hleast, _, rfl, hvalue greatest (fun _ => rfl) hgreatest⟩

/-- Requests without tools and reasoning stand for the sum of their tokens. -/
theorem standsFor_reported {scope : Scope} (hscope : scope ≠ .providerRequest) {rs : List Request}
    (h : ∀ r ∈ rs, r.tool = 0 ∧ r.reasoning = 0) :
    (reportedUsage fun c => (rs.map fun r => r.tokens c).sum).StandsFor scope rs := by
  refine ⟨fun hp => absurd hp hscope, fun k hk f => ?_⟩
  cases hk
  have hcounter : ∀ n, knownTokens (fun c => (rs.map fun r => r.tokens c).sum) f = some n →
      ((rs.map fun r => r.counter f).sum : Nat) = n := by
    induction rs with
    | nil =>
        intro n hn
        cases f <;> cases hn <;> rfl
    | cons r rs ih =>
        obtain ⟨htool, hreasoning⟩ := h r (List.mem_cons_self ..)
        have ih := ih fun r' hr' => h r' (List.mem_cons_of_mem _ hr')
        intro n hn
        cases f <;> simp only [knownTokens, Option.some.injEq, reduceCtorEq] at ih hn
        all_goals
          have ih := ih _ rfl
          simp only [List.map_cons, List.sum_cons, Request.counter, Request.tokens, htool, hreasoning] at ih hn ⊢
          push_cast at ih hn ⊢
          omega
  exact hcounter

theorem mixed_plain (size : Kind → Nat) (m : Nat) : ∀ r ∈ mixed size m, r.tool = 0 ∧ r.reasoning = 0 := by
  intro r hr
  simp only [mixed, List.mem_append, List.mem_replicate, List.mem_singleton] at hr
  rcases hr with ⟨-, rfl⟩ | ⟨-, rfl⟩ | ⟨-, rfl⟩ | ⟨-, rfl⟩ | rfl
  all_goals exact ⟨rfl, rfl⟩

section Reported

variable {tariff : Tariff} {scope : Scope}

theorem reportedUsage_not_blank (n : Kind → Nat) : ¬Blank (knownTokens n) := fun hb => by
  cases hb.1

/-- A quote of known counters: what the tokens cost in the tier where they cost least, and where most. -/
theorem quoteFlat_reported (hscope : scope ≠ .providerRequest) (n : Kind → Nat) {q : Quote}
    (h : quoteFlat (reportedUsage n) (some tariff) scope = .ok q) :
    (∃ t ∈ tariff.tiers, q.lower = some ⌊costAt t.rates.price fun c => n c⌋) ∧
      ∃ t ∈ tariff.tiers, q.upper = some ⌈costAt t.rates.price fun c => n c⌉ := by
  have hk : Normal (knownTokens n) := by
    exact Rule.normalizeFlat_normal (normalizeFlat_reported n)
  obtain ⟨q', l, hq', hencloses, hall⟩ :=
    @quoteFlat_ok (reportedUsage n) _ tariff scope rfl hk (reportedUsage_not_blank n)
  rw [h] at hq'
  cases hq'
  rw [Tariff.tiersFor_all (.inl hscope)] at hall
  constructor
  · obtain ⟨p, hp, hlower, -⟩ := hencloses.lower
    obtain ⟨t, ht, hinterval⟩ := exists_of_mem_right hall hp
    exact ⟨t, ht, by rw [hlower, (interval_known hinterval).1]⟩
  · cases hupper : q.upper with
    | none =>
        obtain ⟨p, hp, hnone⟩ := hencloses.unbounded hupper
        obtain ⟨t, -, hinterval⟩ := exists_of_mem_right hall hp
        obtain ⟨-, u, hu, -⟩ := interval_known hinterval
        rw [hnone] at hu
        cases hu
    | some c =>
        obtain ⟨p, hp, u, hu, rfl, -⟩ := hencloses.upper c hupper
        obtain ⟨t, ht, hinterval⟩ := exists_of_mem_right hall hp
        obtain ⟨-, u', hu', hvalue⟩ := interval_known hinterval
        rw [hu] at hu'
        cases hu'
        exact ⟨t, ht, by rw [hvalue]⟩

theorem total_eq (rs : List Request) :
    total rs = fun c => (((rs.map fun r => r.tokens c).sum : Nat) : ℚ) := rfl

/-- If no tier is the cheapest in every price, requests of several tiers can cost less than any quote says. -/
theorem hasCheapest_of_conservative (hscope : scope ≠ .providerRequest)
    (h : ∀ n, ConservativeFlat tariff (reportedUsage n) scope) : HasCheapest tariff := by
  by_contra hnone
  obtain ⟨size, m, hbelow⟩ := mixed_below (p := fun t => t.rates.price) hnone
  obtain ⟨q, hq, hbounds⟩ := h fun c => ((mixed size m).map fun r => r.tokens c).sum
  obtain ⟨⟨t, ht, hlower⟩, -⟩ := quoteFlat_reported hscope _ hq
  have hcost := (hbounds _ (standsFor_reported hscope (mixed_plain size m))).1 _ hlower
  have hbelow := hbelow t ht
  have hfloor := Int.lt_floor_add_one (costAt t.rates.price (total (mixed size m)))
  rw [total_eq] at hbelow hfloor
  have hsum : ((mixed size m).map fun r => costAt (tariff.tierOf (r.counter .inputTokens)).rates.price
      fun c => r.tokens c).sum = ((mixed size m).map tariff.cost).sum := rfl
  rw [hsum] at hbelow
  linarith

/-- If none is the dearest, they can cost more. -/
theorem hasDearest_of_conservative (hscope : scope ≠ .providerRequest)
    (h : ∀ n, ConservativeFlat tariff (reportedUsage n) scope) : HasDearest tariff := by
  by_contra hnone
  have hneg : ∀ (price n : Kind → ℚ), costAt (fun c => -price c) n = -costAt price n := by
    intro price n
    rw [Rates.costAt_eq, Rates.costAt_eq]
    ring
  have hleast : ¬∃ t ∈ tariff.tiers, ∀ t' ∈ tariff.tiers, ∀ c, -t.rates.price c ≤ -t'.rates.price c := by
    rintro ⟨t, ht, hle⟩
    exact hnone ⟨t, ht, fun t' ht' c => neg_le_neg_iff.mp (hle t' ht' c)⟩
  obtain ⟨size, m, hbelow⟩ := mixed_below hleast
  obtain ⟨q, hq, hbounds⟩ := h fun c => ((mixed size m).map fun r => r.tokens c).sum
  obtain ⟨-, t, ht, hupper⟩ := quoteFlat_reported hscope _ hq
  have hcost := (hbounds _ (standsFor_reported hscope (mixed_plain size m))).2 _ hupper
  have hbelow := hbelow t ht
  have hceil := Int.ceil_lt_add_one (costAt t.rates.price (total (mixed size m)))
  rw [hneg, total_eq] at hbelow
  rw [total_eq] at hceil
  have hsum : ∀ rs : List Request, (rs.map fun r => costAt
      (fun c => -(tariff.tierOf (r.counter .inputTokens)).rates.price c) fun c => r.tokens c).sum =
      -(rs.map tariff.cost).sum := by
    intro rs
    induction rs with
    | nil => simp
    | cons r rs ih =>
        rw [List.map_cons, List.sum_cons, ih, hneg, List.map_cons, List.sum_cons]
        show -tariff.cost r + _ = _
        ring
  rw [hsum] at hbelow
  linarith

end Reported

theorem reportedUsage_priceable (n : Kind → Nat) : (Usage.flat (reportedUsage n)).Priceable := by
  intro o ho k hk
  rw [List.mem_singleton.mp ho] at hk
  cases hk
  exact reportedUsage_not_blank n

/-! ## Reservations -/

/-- A usage within the declared bounds of a request. -/
def Usage.Within (usage : Usage) (bounds : RequestBounds) : Prop :=
  ∀ k, usage.tokens = some k → (∀ n, k .inputTokens = some n → n ≤ bounds.maximumInputTokens) ∧
    ∀ n, k .outputTokens = some n → n ≤ bounds.maximumOutputTokens

/-- The dearest prices are whole micro-USD. -/
def WholePrices (tariff : Tariff) : Prop :=
  (∃ m : Int, tariff.inputRate = m) ∧ ∃ m : Int, tariff.outputRate = m

namespace Tariff

variable {tariff : Tariff}

theorem le_inputRate {t : Tier} (ht : t ∈ tariff.tiers) : ∀ x ∈ t.rates.inputPrices, x ≤ tariff.inputRate :=
  fun _ hx => le_greatest (List.mem_flatMap.mpr ⟨t, ht, hx⟩)

theorem le_outputRate {t : Tier} (ht : t ∈ tariff.tiers) : t.rates.output.value ≤ tariff.outputRate :=
  le_greatest (List.mem_map_of_mem (f := fun t : Tier => t.rates.output.value) ht)

theorem rates_nonneg (tariff : Tariff) : 0 ≤ tariff.inputRate ∧ 0 ≤ tariff.outputRate := by
  obtain ⟨t, ht⟩ := List.exists_mem_of_ne_nil _ tariff.tiers_ne_nil
  constructor
  · have hmem : t.rates.input.value ∈ t.rates.inputPrices := by simp [Rates.inputPrices]
    exact (Price.value_nonneg _).trans (le_inputRate ht _ hmem)
  · exact (Price.value_nonneg _).trans (le_outputRate ht)

end Tariff

section Reserved

variable {tariff : Tariff} {scope : Scope}

/-- The upper end of a quote is within the dearest prices of its counters. -/
theorem quoteFlat_upper {o : FlatUsage} (hn : ∀ k, o.tokens = some k → Normal k) {q : Quote} {c : Int}
    (h : quoteFlat o (some tariff) scope = .ok q) (hc : q.upper = some c) :
    ∃ k, ∃ m out : Int, o.tokens = some k ∧ k .inputTokens = some m ∧ k .outputTokens = some out ∧
      c ≤ ⌈m * tariff.inputRate + out * tariff.outputRate⌉ := by
  cases ht : o.tokens with
  | none =>
      unfold quoteFlat at h
      rw [ht] at h
      cases h
      cases hc
  | some k =>
      have hk := hn k ht
      have hb : ¬Blank k := fun hb => by
        rw [quoteFlat_blank ht hk hb] at h
        cases h
      obtain ⟨q', l, hq', hencloses, hall⟩ := quoteFlat_ok tariff scope ht hk hb
      rw [h] at hq'
      cases hq'
      obtain ⟨p, hp, u, hu, rfl, -⟩ := hencloses.upper c hc
      obtain ⟨t, ht', hinterval⟩ := exists_of_mem_right hall hp
      have htier := (tariff.tiersFor_subset k scope).2 ht'
      obtain ⟨m, out, hm, hout, hle⟩ := Rates.interval_le hk (Tariff.le_inputRate htier) hinterval hu
      have hout_nonneg : (0 : ℚ) ≤ out := by exact_mod_cast hk.nonneg _ out hout
      have hprice := mul_le_mul_of_nonneg_left (Tariff.le_outputRate htier) hout_nonneg
      exact ⟨k, m, out, rfl, hm, hout, Int.ceil_le_ceil (by linarith)⟩

/-- The upper ends of samplings: together within whole prices, and within any prices if there is but one. -/
theorem sum_upper {os : List FlatUsage} {costs : List Quote}
    (hcosts : List.Forall₂ (fun o q => quoteFlat o (some tariff) scope = .ok q) os costs)
    (hn : ∀ o ∈ os, ∀ k, o.tokens = some k → Normal k) {u : Int} (hu : sumAll (costs.map Quote.upper) = some u) :
    ∃ m out, sumAll (os.map fun o => o.tokens.bind (· .inputTokens)) = some m ∧
      sumAll (os.map fun o => o.tokens.bind (· .outputTokens)) = some out ∧
      (os.length ≤ 1 ∨ WholePrices tariff → u ≤ ⌈m * tariff.inputRate + out * tariff.outputRate⌉) := by
  induction hcosts generalizing u with
  | nil =>
      cases hu
      exact ⟨0, 0, rfl, rfl, fun _ => by simp⟩
  | @cons o q os costs hq hrest ih =>
      obtain ⟨a, ha, b, hb, rfl⟩ := sumAll_cons.mp hu
      obtain ⟨k, m₁, out₁, ht, hm₁, hout₁, hle₁⟩ := quoteFlat_upper (hn o (List.mem_cons_self ..)) hq ha
      obtain ⟨m, out, hm, hout, hle⟩ := ih (fun o' ho' => hn o' (List.mem_cons_of_mem _ ho')) hb
      refine ⟨m₁ + m, out₁ + out, ?_, ?_, ?_⟩
      · exact sumAll_cons.mpr ⟨m₁, Option.bind_eq_some_iff.mpr ⟨k, ht, hm₁⟩, m, hm, rfl⟩
      · exact sumAll_cons.mpr ⟨out₁, Option.bind_eq_some_iff.mpr ⟨k, ht, hout₁⟩, out, hout, rfl⟩
      · rintro (hlength | hwhole)
        · -- the only one
          have hnil : os = [] := List.length_eq_zero_iff.mp (by simpa using hlength)
          subst hnil
          cases hrest
          cases hb
          cases hm
          cases hout
          simpa using hle₁
        · have hle := hle (.inr hwhole)
          obtain ⟨⟨x, hx⟩, y, hy⟩ := hwhole
          rw [hx, hy] at hle₁ hle ⊢
          have hceil : ∀ i j : Int, ⌈(i * x + j * y : ℚ)⌉ = i * x + j * y := fun i j => by
            exact_mod_cast Int.ceil_intCast (R := ℚ) (i * x + j * y)
          rw [hceil] at hle₁ hle
          have hsum := hceil (m₁ + m) (out₁ + out)
          rw [hsum]
          linarith

theorem quote_upper {usage : Usage} {q : UsageQuote} (h : quote usage (some tariff) scope = .ok q) :
    ∃ costs, List.Forall₂ (fun o q => quoteFlat o (some tariff) scope = .ok q) usage.objects costs ∧
      ∀ u, q.upper = some u → sumAll (costs.map Quote.upper) = some u := by
  cases usage with
  | flat usage =>
      obtain ⟨q', hq', h⟩ := bind_ok.mp h
      cases h
      refine ⟨[q'], .cons hq' .nil, fun u hu => ?_⟩
      exact sumAll_cons.mpr ⟨u, hu, 0, rfl, by simp⟩
  | iterated usage parts =>
      obtain ⟨costs, hcosts, h⟩ := bind_ok.mp h
      cases h
      refine ⟨costs, ?_, fun u hu => hu⟩
      exact List.forall₂_map_left_iff.mpr (mapM_ok.mp hcosts)

/-- A sum over the objects of a usage is its counter. -/
theorem tokens_of_sum {raw : Json} {p : Protocol} {usage : Usage} (h : normalize raw p = .ok usage) {f : Field}
    {m : Int} (hm : sumAll (usage.objects.map fun o => o.tokens.bind (· f)) = some m) :
    ∃ k, usage.tokens = some k ∧ k f = some m := by
  rcases normalize_cases h with ⟨o, rfl⟩ | htokens
  · obtain ⟨a, ha, b, hb, rfl⟩ := sumAll_cons.mp hm
    cases hb
    obtain ⟨k, hk, hf⟩ := Option.bind_eq_some_iff.mp ha
    exact ⟨k, hk, by simpa using hf⟩
  · exact ⟨_, htokens, hm⟩

/-- What one request within the bounds may cost was reserved. -/
theorem upper_le_reservation {bounds : RequestBounds} (hbounds : tariff.requestBounds = some bounds)
    {raw : Json} {p : Protocol} {usage : Usage} (h : normalize raw p = .ok usage) (hw : usage.Within bounds)
    (hwhole : usage.objects.length ≤ 1 ∨ WholePrices tariff) {q : UsageQuote}
    (hq : quote usage (some tariff) scope = .ok q) {u : Int} (hu : q.upper = some u) :
    ∃ m, reservation tariff = .ok m ∧ u ≤ m := by
  obtain ⟨costs, hcosts, hupper⟩ := quote_upper hq
  obtain ⟨m, out, hm, hout, hle⟩ := sum_upper hcosts (normalize_normal h) (hupper u hu)
  obtain ⟨k, hk, hm⟩ := tokens_of_sum h hm
  obtain ⟨k', hk', hout⟩ := tokens_of_sum h hout
  have hm_le : (m : ℚ) ≤ bounds.maximumInputTokens := by exact_mod_cast (hw k hk).1 m hm
  have hout_le : (out : ℚ) ≤ bounds.maximumOutputTokens := by exact_mod_cast (hw k' hk').2 out hout
  refine ⟨_, by unfold reservation; rw [hbounds], (hle hwhole).trans (Int.ceil_le_ceil ?_)⟩
  exact add_le_add (mul_le_mul_of_nonneg_right hm_le tariff.rates_nonneg.1)
    (mul_le_mul_of_nonneg_right hout_le tariff.rates_nonneg.2)

end Reserved

/-! ## The quotes of a tariff -/

/-- Which quotes are conservative: of one request all that are made, of totals all that are made if the
tariff has a cheapest and a dearest tier, and else not all of them. Reservations cover what one sampling may
cost, and what several may if the dearest prices are whole. -/
theorem quote_conservative_iff (tariff : Tariff) :
    (∀ raw p usage, normalize raw p = .ok usage →
      (Conservative tariff usage .providerRequest ↔ usage.Priceable)) ∧
    (∀ scope, scope ≠ .providerRequest →
      ((∀ raw p usage, normalize raw p = .ok usage → (Conservative tariff usage scope ↔ usage.Priceable)) ↔
        HasCheapest tariff ∧ HasDearest tariff)) ∧
    ∀ bounds, tariff.requestBounds = some bounds → ∀ raw p usage, normalize raw p = .ok usage →
      usage.Within bounds → (usage.objects.length ≤ 1 ∨ WholePrices tariff) →
      ∀ q, quote usage (some tariff) .providerRequest = .ok q → ∀ u, q.upper = some u →
        ∃ m, reservation tariff = .ok m ∧ u ≤ m := by
  refine ⟨fun raw p usage h => ⟨?_, ?_⟩, fun scope hscope => ⟨?_, ?_⟩, ?_⟩
  · exact priceable_of_conservative (normalize_normal h)
  · intro hpriceable
    apply conservative_of_objects
    intro o ho
    cases ht : o.tokens with
    | none => exact conservativeFlat_none ht
    | some k => exact conservative_of_request ht (normalize_normal h o ho k ht) (hpriceable o ho k ht)
  · intro hall
    have hreported : ∀ n, ConservativeFlat tariff (reportedUsage n) scope := by
      intro n
      obtain ⟨q, hq, hbounds⟩ := (hall _ _ _ (normalize_reported n)).mpr (reportedUsage_priceable n)
      obtain ⟨q', hq', h⟩ := bind_ok.mp hq
      cases h
      exact ⟨q', hq', hbounds⟩
    exact ⟨hasCheapest_of_conservative hscope hreported, hasDearest_of_conservative hscope hreported⟩
  · rintro ⟨hcheap, hdear⟩ raw p usage h
    refine ⟨priceable_of_conservative (normalize_normal h), fun hpriceable => ?_⟩
    apply conservative_of_objects
    intro o ho
    cases ht : o.tokens with
    | none => exact conservativeFlat_none ht
    | some k =>
        exact conservative_of_tiers hcheap hdear hscope ht (normalize_normal h o ho k ht) (hpriceable o ho k ht)
  · intro bounds hbounds raw p usage h hw hwhole q hq u hu
    exact upper_le_reservation hbounds h hw hwhole hq hu

/-! ### Concrete tariffs -/

theorem half_wellFormed : (readPrice "0.5").isSome := by decide +kernel

def half : Price := ⟨"0.5", half_wellFormed⟩

def halfRates : Rates := ⟨half, half, half, half, none, none, rfl⟩

theorem no_limit_pos : ∀ m ∈ (none : Option Nat), 1 ≤ m := fun _ h => nomatch h

def halfTier : Tier := ⟨none, halfRates, no_limit_pos⟩

theorem halfTier_complete : CompleteTiers [halfTier] where
  unbounded := ⟨halfTier, rfl, rfl⟩
  bounded := List.forall_mem_nil _
  increasing := .nil

theorem one_le_one : 1 ≤ 1 := Nat.le_refl 1

theorem one_le_two : 1 ≤ 2 := Nat.le_succ 1

/-- Half a micro-USD for each token, in requests of two tokens of input and one of output. -/
def halfTariff : Tariff := ⟨[halfTier], some ⟨2, 1, one_le_two, one_le_one⟩, halfTier_complete⟩

theorem nine_wellFormed : (readPrice "9").isSome := by decide +kernel

theorem two_wellFormed : (readPrice "2").isSome := by decide +kernel

theorem one_wellFormed : (readPrice "1").isSome := by decide +kernel

def shortRates : Rates :=
  ⟨⟨"1", one_wellFormed⟩, ⟨"1", one_wellFormed⟩, ⟨"1", one_wellFormed⟩, ⟨"9", nine_wellFormed⟩, none, none, rfl⟩

def longRates : Rates :=
  ⟨⟨"2", two_wellFormed⟩, ⟨"2", two_wellFormed⟩, ⟨"2", two_wellFormed⟩, ⟨"1", one_wellFormed⟩, none, none, rfl⟩

theorem limit_pos : ∀ m ∈ some 1, 1 ≤ m := fun _ h => by
  cases h
  exact le_rfl

def shortTier : Tier := ⟨some 1, shortRates, limit_pos⟩

def longTier : Tier := ⟨none, longRates, no_limit_pos⟩

theorem twoTiers_complete : CompleteTiers [shortTier, longTier] where
  unbounded := ⟨longTier, rfl, rfl⟩
  bounded := List.forall_mem_singleton.mpr (Option.some_ne_none 1)
  increasing := List.pairwise_singleton _ _

/-- Input costs less in short requests, output in long ones. -/
def twoTiers : Tariff := ⟨[shortTier, longTier], none, twoTiers_complete⟩

def threeAndOne : Kind → Nat
  | .input => 3
  | .output => 1
  | _ => 0

/-- The counters of one sampling. -/
def sampling (input output : Nat) : Json :=
  .obj [("type", .str "message"), ("input_tokens", .int input), ("cache_read_input_tokens", .int 0),
    ("cache_creation_input_tokens", .int 0), ("output_tokens", .int output)]

def threeSamplings : Json := .obj [("iterations", .arr [sampling 1 0, sampling 1 0, sampling 0 1])]

def twoAndOne : Kind → Nat
  | .input => 2
  | .output => 1
  | _ => 0

theorem twoAndOne_within : (Usage.flat (reportedUsage twoAndOne)).Within ⟨2, 1, one_le_two, one_le_one⟩ := by
  intro k hk
  cases hk
  constructor
  · intro n hn
    cases hn
    decide
  · intro n hn
    cases hn
    decide

/-- With one tier, and within the bounds, quotes are conservative and their upper end was reserved. -/
theorem quote_conservative_small :
    Conservative halfTariff (.flat (reportedUsage twoAndOne)) .providerRequest ∧
    Conservative halfTariff (.flat (reportedUsage twoAndOne)) .nativeCliTurn ∧
    ∃ q, quote (.flat (reportedUsage twoAndOne)) (some halfTariff) .providerRequest = .ok q ∧
      q.upper = some 2 ∧ ∃ m, reservation halfTariff = .ok m ∧ 2 ≤ m := by
  obtain ⟨hrequest, htotal, hreserved⟩ := quote_conservative_iff halfTariff
  have hcheap : HasCheapest halfTariff := ⟨halfTier, List.mem_singleton_self _, fun t ht c => by
    rw [List.mem_singleton.mp ht]⟩
  have hdear : HasDearest halfTariff := ⟨halfTier, List.mem_singleton_self _, fun t ht c => by
    rw [List.mem_singleton.mp ht]⟩
  have hnormal := normalize_reported twoAndOne
  have hpriceable := reportedUsage_priceable twoAndOne
  have hquote : (quote (.flat (reportedUsage twoAndOne)) (some halfTariff) .providerRequest).map (·.upper) =
      .ok (some 2) := by decide +kernel
  refine ⟨(hrequest _ _ _ hnormal).mpr hpriceable, ?_, ?_⟩
  · exact ((htotal .nativeCliTurn (by decide)).mpr ⟨hcheap, hdear⟩ _ _ _ hnormal).mpr hpriceable
  · cases hq : quote (.flat (reportedUsage twoAndOne)) (some halfTariff) .providerRequest with
    | error e =>
        rw [hq] at hquote
        cases hquote
    | ok q =>
        rw [hq] at hquote
        have hupper : q.upper = some 2 := Except.ok.inj hquote
        exact ⟨q, rfl, hupper,
          hreserved _ rfl _ _ _ hnormal twoAndOne_within (.inl le_rfl) q hq 2 hupper⟩

/-- A short request for input and a long one for output cost 6, and the quote for their tokens begins at 7.
Without counters there is no quote. And three samplings of one token are quoted above what was reserved. -/
theorem quotes_not_conservative :
    (∃ usage, normalize (reported threeAndOne) .anthropicApi = .ok usage ∧
      ¬Conservative twoTiers usage .nativeCliTurn) ∧
    (∃ usage, normalize (.obj []) .anthropicApi = .ok usage ∧ ¬Conservative twoTiers usage .providerRequest) ∧
    ∃ usage bounds q u, normalize threeSamplings .anthropicMessages = .ok usage ∧
      halfTariff.requestBounds = some bounds ∧ usage.Within bounds ∧
      quote usage (some halfTariff) .providerRequest = .ok q ∧ q.upper = some u ∧
      ¬∃ m, reservation halfTariff = .ok m ∧ u ≤ m := by
  refine ⟨⟨_, normalize_reported threeAndOne, ?_⟩, ?_, ?_⟩
  · rintro ⟨q, hq, hbounds⟩
    have hquote : (quote (.flat (reportedUsage threeAndOne)) (some twoTiers) .nativeCliTurn).map (·.lower) =
        .ok (some 7) := by decide +kernel
    rw [hq] at hquote
    have hlower : q.lower = some 7 := Except.ok.inj hquote
    have hstands : (reportedUsage threeAndOne).StandsFor .nativeCliTurn [{ prompt := 1 }, { prompt := 2, answer := 1 }] := by
      have hsum : threeAndOne = fun c =>
          (([{ prompt := 1 }, { prompt := 2, answer := 1 }] : List Request).map fun r => r.tokens c).sum := by
        funext c
        cases c <;> rfl
      rw [hsum]
      exact standsFor_reported (by decide) (by decide)
    have hle := (hbounds _ hstands).1 7 hlower
    exact absurd hle (by decide +kernel)
  · have hquote : (normalize (.obj []) .anthropicApi >>= fun usage =>
        quote usage (some twoTiers) .providerRequest).isOk = false := by decide +kernel
    cases husage : normalize (.obj []) .anthropicApi with
    | error e =>
        have hok : (normalize (.obj []) .anthropicApi).isOk = true := by decide +kernel
        rw [husage] at hok
        cases hok
    | ok usage =>
        refine ⟨usage, rfl, ?_⟩
        rintro ⟨q, hq, -⟩
        rw [husage] at hquote
        change (quote usage (some twoTiers) .providerRequest).isOk = false at hquote
        rw [hq] at hquote
        cases hquote
  · have hquote : (normalize threeSamplings .anthropicMessages >>= fun usage =>
        (quote usage (some halfTariff) .providerRequest).map fun q =>
          (q.upper, usage.tokens.map fun k => (k .inputTokens, k .outputTokens))) =
        .ok (some 3, some (some 2, some 1)) := by decide +kernel
    obtain ⟨usage, husage, hquote⟩ := bind_ok.mp hquote
    cases hq : quote usage (some halfTariff) .providerRequest with
    | error e =>
        rw [hq] at hquote
        cases hquote
    | ok q =>
        rw [hq] at hquote
        have hpair := Prod.ext_iff.mp (Except.ok.inj hquote)
        refine ⟨usage, _, q, 3, husage, rfl, ?_, hq, hpair.1, ?_⟩
        · intro k hk
          have hcounts : (usage.tokens.map fun k => (k .inputTokens, k .outputTokens)) = some (some 2, some 1) := hpair.2
          rw [hk] at hcounts
          obtain ⟨hinput, hout⟩ := Prod.ext_iff.mp (Option.some.inj hcounts)
          constructor
          · intro n hn
            have hn : k .inputTokens = some n := hn
            cases hn.symm.trans hinput
            decide
          · intro n hn
            have hn : k .outputTokens = some n := hn
            cases hn.symm.trans hout
            decide
        · rintro ⟨m, hm, hle⟩
          have hreserved : reservation halfTariff = .ok 2 := by decide +kernel
          rw [hm] at hreserved
          cases hreserved
          exact absurd hle (by decide)

end Ramulator.ChiaLoop.Accounting
