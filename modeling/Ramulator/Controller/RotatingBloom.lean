/-
# Ramulator.Controller.RotatingBloom — what BlockHammer's rotating Bloom filter promises.

`UnifiedBloomFilter` inserts every activated row in all of its filters, tests one of them, and resets
that one when its epoch ends. A filter's constructor initializes `m_saturate` with itself instead of
with its argument, so a filter may count on where it should have stopped. Counters are compared here
with the insertions since the filter's last reset, for whatever the constructor finds in memory.
-/
import Ramulator.Controller.BlockHammer
import Ramulator.Lib.Ticks
import Mathlib.Data.Nat.ModEq

namespace Ramulator.Controller

open Ramulator.Lib
open Ramulator.Lib.TickOp (updates duringLast)

/-! ## Counters of one filter -/

namespace CountingBloomFilter

/-- A filter after its construction and a list of insertions, the last of them first. -/
def inserted (f : CountingBloomFilter) : List Int → CountingBloomFilter
  | [] => f
  | elem :: elems => (f.inserted elems).insert elem

/-- How many hash functions send an element to a counter. -/
def hits (f : CountingBloomFilter) (idx : UInt32) (elem : Int) : Nat :=
  f.hashFunctions.countP fun hash => f.index hash elem = idx

/-- The increments that insertions ask for at one counter. -/
def received (f : CountingBloomFilter) (elems : List Int) (idx : UInt32) : Nat :=
  (elems.map (f.hits idx)).sum

/-- The value of a counter after `n` increments were asked for: it stops at the threshold, or it is a
number of 32 bits. -/
def counted (f : CountingBloomFilter) (n : Nat) : Nat :=
  if f.saturate then min f.ctrThresh.toNat n else n % 4294967296

theorem counted_le (f : CountingBloomFilter) (n : Nat) : f.counted n ≤ n := by
  unfold counted
  split
  · exact Nat.min_le_right _ _
  · exact Nat.mod_le _ _

/-- Increments change the counters only. -/
structure SameFields (f g : CountingBloomFilter) : Prop where
  numCounters : g.numCounters = f.numCounters
  ctrThresh : g.ctrThresh = f.ctrThresh
  saturate : g.saturate = f.saturate
  hashFunctions : g.hashFunctions = f.hashFunctions

namespace SameFields

variable {f g : CountingBloomFilter}

theorem refl (f : CountingBloomFilter) : SameFields f f := ⟨rfl, rfl, rfl, rfl⟩

theorem trans {k : CountingBloomFilter} (h : SameFields f g) (h' : SameFields g k) : SameFields f k :=
  ⟨h'.numCounters.trans h.numCounters, h'.ctrThresh.trans h.ctrThresh, h'.saturate.trans h.saturate,
    h'.hashFunctions.trans h.hashFunctions⟩

theorem insertAt (f : CountingBloomFilter) (j : UInt32) : SameFields f (f.insertAt j) := by
  unfold CountingBloomFilter.insertAt
  split
  · exact ⟨rfl, rfl, rfl, rfl⟩
  · exact refl f

theorem index (h : SameFields f g) (hash : UInt32 → UInt32) (elem : Int) :
    g.index hash elem = f.index hash elem := by
  unfold CountingBloomFilter.index
  rw [h.numCounters]

theorem counted (h : SameFields f g) (n : Nat) : g.counted n = f.counted n := by
  unfold CountingBloomFilter.counted
  rw [h.saturate, h.ctrThresh]

end SameFields

/-- One increment, at a counter that stands for `n` of them. -/
theorem insertAt_counters {f : CountingBloomFilter} {idx j : UInt32} {n : Nat}
    (h : (f.counters idx).toNat = f.counted n) :
    ((f.insertAt j).counters idx).toNat = f.counted (n + if j = idx then 1 else 0) := by
  unfold insertAt
  by_cases hj : j = idx
  · subst hj
    rw [if_pos rfl]
    unfold counted at h ⊢
    cases hsat : f.saturate with
    | true =>
        rw [hsat, if_pos rfl] at h
        simp only [Bool.true_eq_false, false_or, if_true]
        by_cases hlt : f.counters j < f.ctrThresh
        · rw [if_pos hlt]
          have hbelow : (f.counters j).toNat < f.ctrThresh.toNat := hlt
          have hthresh := f.ctrThresh.toNat_lt
          simp only [Function.update_self, UInt32.toNat_add, UInt32.toNat_one]
          omega
        · rw [if_neg hlt, h]
          have hreached : ¬ (f.counters j).toNat < f.ctrThresh.toNat := hlt
          omega
    | false =>
        rw [hsat] at h
        simp only [Bool.false_eq_true, if_false] at h ⊢
        simp only [true_or, if_true, Function.update_self, UInt32.toNat_add, UInt32.toNat_one, h]
        omega
  · rw [if_neg hj, Nat.add_zero]
    split
    · dsimp only
      rw [Function.update_of_ne (fun heq => hj heq.symm)]
      exact h
    · exact h

/-- The increments of one element, hash function after hash function. -/
theorem foldl_insertAt {f g : CountingBloomFilter} (elem : Int) {idx : UInt32} {n : Nat}
    (hashes : List (UInt32 → UInt32)) (hg : SameFields f g) (h : (g.counters idx).toNat = f.counted n) :
    SameFields f (hashes.foldl (fun g hash => g.insertAt (g.index hash elem)) g) ∧
      ((hashes.foldl (fun g hash => g.insertAt (g.index hash elem)) g).counters idx).toNat =
        f.counted (n + hashes.countP fun hash => f.index hash elem = idx) := by
  induction hashes generalizing g n with
  | nil => exact ⟨hg, h⟩
  | cons hash hashes ih =>
      have hstep := insertAt_counters (j := g.index hash elem) (h.trans (hg.counted n).symm)
      rw [hg.counted, hg.index] at hstep
      have hrest := ih (hg.trans (.insertAt g (g.index hash elem)))
        (n := n + if f.index hash elem = idx then 1 else 0) (by rw [hg.index]; exact hstep)
      rw [List.foldl_cons, List.countP_cons]
      refine ⟨hrest.1, hrest.2.trans ?_⟩
      congr 1
      simp only [decide_eq_true_eq]
      omega

/-- After insertions into a filter that starts empty, each counter stands for the increments asked
for. -/
theorem inserted_counters {f : CountingBloomFilter} (hempty : ∀ idx, f.counters idx = 0) (elems : List Int)
    (idx : UInt32) :
    SameFields f (f.inserted elems) ∧
      ((f.inserted elems).counters idx).toNat = f.counted (f.received elems idx) := by
  induction elems with
  | nil =>
      refine ⟨.refl f, ?_⟩
      rw [inserted, hempty idx]
      simp [received, counted]
  | cons elem elems ih =>
      have h := foldl_insertAt elem (f.inserted elems).hashFunctions ih.1 ih.2
      rw [inserted, insert]
      refine ⟨h.1, h.2.trans ?_⟩
      rw [ih.1.hashFunctions, received, received, List.map_cons, List.sum_cons, Nat.add_comm]
      rfl

theorem received_cons (f : CountingBloomFilter) (elem : Int) (elems : List Int) (idx : UInt32) :
    f.received (elem :: elems) idx = f.hits idx elem + f.received elems idx := by
  rw [received, List.map_cons, List.sum_cons]
  rfl

/-- Every insertion of an element asks for an increment of each of its counters. -/
theorem count_le_received (f : CountingBloomFilter) {hash : UInt32 → UInt32} (hhash : hash ∈ f.hashFunctions)
    (elem : Int) (elems : List Int) : elems.count elem ≤ f.received elems (f.index hash elem) := by
  induction elems with
  | nil => exact Nat.zero_le _
  | cons e elems ih =>
      rw [received_cons, List.count_cons]
      by_cases heq : e = elem
      · have hpos : 0 < f.hits (f.index hash elem) elem :=
          List.countP_pos_iff.2 ⟨hash, hhash, decide_eq_true rfl⟩
        simp only [heq, beq_self_eq_true, if_true]
        omega
      · simp only [beq_iff_eq, heq, if_false]
        omega

end CountingBloomFilter

/-! ## The rotation -/

namespace UnifiedBloomFilter

/-- What the constructor is given. -/
structure Arguments where
  numCounters : UInt32
  ctrThresh : UInt32
  numFilters : Nat
  saturate : Bool
  hashFunctions : List (UInt32 → UInt32)
  lenEpochClk : Nat

variable {a : Arguments} {memory : Nat → Bool} {log : List (TickOp Int)} {i : Nat}

/-- The `i`-th filter after its construction, with what its `m_saturate` finds in memory. -/
def filterAt (a : Arguments) (memory : Nat → Bool) (i : Nat) : CountingBloomFilter where
  numCounters := a.numCounters
  ctrThresh := a.ctrThresh
  saturate := memory i
  hashFunctions := a.hashFunctions

/-- The constructor. -/
def create (a : Arguments) (memory : Nat → Bool) : UnifiedBloomFilter where
  lenEpoch := a.lenEpochClk
  filters := (List.range a.numFilters).map (filterAt a memory)

/-- The filters of a bank, whatever `bf_ctr_saturate` says. -/
theorem init_bankFilters (bh : BlockHammerConfig) (bank : Int) (saturate : Bool) :
    bh.init.bankFilters bank = create
      { numCounters := bh.bfCtrCount
        ctrThresh := bh.bfCtrThresh
        numFilters := bh.bfNumFilters
        saturate := saturate
        hashFunctions := (List.range bh.bfNumHashes).map bh.hashFunction
        lenEpochClk := bh.bfLenEpochClk } (bh.saturate bank) := rfl

def call : TickOp Int → UnifiedBloomFilter → UnifiedBloomFilter
  | .insert elem, u => u.insert elem
  | .update, u => u.update

/-- New filters after a sequence of calls, the last of them first. -/
def run (a : Arguments) (memory : Nat → Bool) : List (TickOp Int) → UnifiedBloomFilter
  | [] => create a memory
  | op :: log => call op (run a memory log)

/-- The filter that is tested. -/
def active (a : Arguments) (log : List (TickOp Int)) : Nat := updates log / a.lenEpochClk % a.numFilters

/-- What was inserted since filter `i` was last reset, at the end of an epoch in which it was tested. -/
def sinceReset (a : Arguments) (i : Nat) : List (TickOp Int) → List Int
  | [] => []
  | .insert elem :: log => elem :: sinceReset a i log
  | .update :: log =>
      if (updates log + 1) % a.lenEpochClk = 0 ∧ active a log = i then [] else sinceReset a i log

/-- The increments that filter `i` was asked for at a counter since it was last reset. -/
def received (a : Arguments) (memory : Nat → Bool) (i : Nat) (log : List (TickOp Int)) (idx : UInt32) : Nat :=
  (filterAt a memory i).received (sinceReset a i log) idx

/-- What the rotating filter promises. -/
structure Promise (a : Arguments) (memory : Nat → Bool) (log : List (TickOp Int)) : Prop where
  no_false_negative : ∀ row,
    a.ctrThresh.toNat ≤ (duringLast ((a.numFilters - 1) * a.lenEpochClk + 1) log).count row →
      (run a memory log).test row = true
  no_early_positive : ∀ row, (run a memory log).test row = true → ∀ hash ∈ a.hashFunctions,
    a.ctrThresh.toNat ≤ received a memory (active a log) log (hash (UInt32.ofInt row) % a.numCounters)
  saturates : a.saturate = true → ∀ f ∈ (run a memory log).filters, ∀ idx, f.counters idx ≤ a.ctrThresh

/-- A counter of a filter that does not stop at the threshold has room for what it is asked for: up to
the threshold if it should have stopped there, and else up to the end of its 32 bits. -/
def HasRoom (a : Arguments) (memory : Nat → Bool) (log : List (TickOp Int)) : Prop :=
  ∀ i < a.numFilters, memory i = true ∨
    ∀ idx, received a memory i log idx ≤ if a.saturate then a.ctrThresh.toNat else 4294967295

/-- The state is known from the log. -/
structure Tracks (a : Arguments) (memory : Nat → Bool) (log : List (TickOp Int)) (u : UnifiedBloomFilter) : Prop where
  lenEpoch : u.lenEpoch = a.lenEpochClk
  tick : u.tick = updates log % a.lenEpochClk
  testIdx : u.testIdx = active a log
  filters : u.filters = (List.range a.numFilters).map fun i => (filterAt a memory i).inserted (sinceReset a i log)

theorem filterAt_counters (a : Arguments) (memory : Nat → Bool) (i : Nat) (idx : UInt32) :
    (filterAt a memory i).counters idx = 0 := rfl

theorem inserted_reset (a : Arguments) (memory : Nat → Bool) (i : Nat) (elems : List Int) :
    ((filterAt a memory i).inserted elems).reset = filterAt a memory i := by
  obtain ⟨hsame, -⟩ := CountingBloomFilter.inserted_counters (filterAt_counters a memory i) elems 0
  rw [CountingBloomFilter.reset, hsame.numCounters, hsame.ctrThresh, hsame.saturate, hsame.hashFunctions]
  rfl

theorem updates_update (log : List (TickOp Int)) : updates (.update :: log) = updates log + 1 := rfl

theorem updates_insert (elem : Int) (log : List (TickOp Int)) : updates (.insert elem :: log) = updates log := rfl

theorem tracks_run (hL : 0 < a.lenEpochClk) : Tracks a memory log (run a memory log) := by
  induction log with
  | nil => exact ⟨rfl, (Nat.zero_mod _).symm, by simp [run, create, active, updates], rfl⟩
  | cons op log ih =>
      cases op with
      | insert elem =>
          refine ⟨ih.lenEpoch, ih.tick, ih.testIdx, ?_⟩
          rw [run, call, insert, ih.filters, List.map_map]
          rfl
      | update =>
          rw [run, call, update, ih.lenEpoch, ih.tick]
          by_cases hend : a.lenEpochClk ≤ updates log % a.lenEpochClk + 1
          · obtain ⟨hmod, hdiv⟩ := TickOp.epoch_ends hL hend
            rw [if_pos hend]
            refine ⟨rfl, hmod.symm, ?_, ?_⟩
            · dsimp only
              rw [ih.filters, ih.testIdx, List.length_map, List.length_range, active, active, updates_update, hdiv,
                Nat.mod_add_mod]
            · dsimp only
              rw [ih.filters, ih.testIdx]
              apply List.ext_getElem
              · simp
              · intro i hi hi'
                simp only [List.getElem_modify, List.getElem_map, List.getElem_range, sinceReset, hmod, true_and]
                split
                · rw [inserted_reset]
                  rfl
                · rfl
          · obtain ⟨hmod, hdiv⟩ := TickOp.epoch_goes_on hL hend
            rw [if_neg hend]
            refine ⟨rfl, hmod.symm, ?_, ?_⟩
            · dsimp only
              rw [ih.testIdx, active, active, updates_update, hdiv]
            · dsimp only
              rw [ih.filters]
              have hne : ¬ (updates log + 1) % a.lenEpochClk = 0 := by omega
              simp only [sinceReset, hne, false_and, if_false]

/-- The insertions since the last reset of the filter that is tested `j` epochs from now. -/
theorem sinceReset_eq (hL : 0 < a.lenEpochClk) {j : Nat} (hj : j < a.numFilters)
    (hi : (updates log / a.lenEpochClk + j) % a.numFilters = i) :
    sinceReset a i log =
      duringLast ((a.numFilters - 1 - j) * a.lenEpochClk + updates log % a.lenEpochClk + 1) log := by
  induction log generalizing j with
  | nil => simp [sinceReset]
  | cons op log ih =>
      cases op with
      | insert elem =>
          rw [sinceReset, TickOp.duringLast_insert, updates_insert, ih hj hi]
      | update =>
          rw [updates_update] at hi ⊢
          rw [sinceReset, TickOp.duringLast_update]
          by_cases hend : a.lenEpochClk ≤ updates log % a.lenEpochClk + 1
          · obtain ⟨hmod, hdiv⟩ := TickOp.epoch_ends hL hend
            have hlt := Nat.mod_lt (updates log) hL
            rw [hdiv] at hi
            rw [hmod, Nat.add_zero]
            by_cases hlast : j + 1 = a.numFilters
            · -- the filter was tested until now
              have hactive : active a log = i := by
                rw [active, ← hi, Nat.add_assoc, Nat.add_comm 1 j, hlast, Nat.add_mod_right]
              have hzero : a.numFilters - 1 - j = 0 := by omega
              rw [if_pos ⟨rfl, hactive⟩, hzero, Nat.zero_mul, TickOp.duringLast_zero]
            · have hnot : active a log ≠ i := by
                rw [active, ← hi, Nat.add_assoc]
                intro heq
                have hcancel : 0 ≡ 1 + j [MOD a.numFilters] :=
                  Nat.ModEq.add_left_cancel' (updates log / a.lenEpochClk) heq
                rw [Nat.ModEq, Nat.zero_mod, Nat.mod_eq_of_lt (by omega)] at hcancel
                omega
              have hepochs : a.numFilters - 1 - j = a.numFilters - 1 - (j + 1) + 1 := by omega
              rw [if_neg (fun h => hnot h.2), ih (j := j + 1) (by omega) (by rw [← hi]; congr 1; omega), hepochs,
                Nat.succ_mul]
              congr 1
              omega
          · obtain ⟨hmod, hdiv⟩ := TickOp.epoch_goes_on hL hend
            rw [hdiv] at hi
            have hne : ¬ (updates log + 1) % a.lenEpochClk = 0 := by omega
            rw [if_neg (fun h => hne h.1), ih hj hi, hmod]
            congr 1

/-! ## The promise -/

theorem run_filters_getElem (hL : 0 < a.lenEpochClk) (hi : i < a.numFilters) :
    (run a memory log).filters[i]? = some ((filterAt a memory i).inserted (sinceReset a i log)) := by
  rw [(tracks_run hL).filters, List.getElem?_map, List.getElem?_range hi, Option.map_some]

/-- A counter of a filter, from the log. -/
theorem run_counters (a : Arguments) (memory : Nat → Bool) (i : Nat) (log : List (TickOp Int)) (idx : UInt32) :
    (((filterAt a memory i).inserted (sinceReset a i log)).counters idx).toNat =
      (filterAt a memory i).counted (received a memory i log idx) :=
  (CountingBloomFilter.inserted_counters (filterAt_counters a memory i) _ idx).2

/-- What a test finds. -/
theorem test_iff (hN : 0 < a.numFilters) (hL : 0 < a.lenEpochClk) (row : Int) :
    (run a memory log).test row = true ↔ ∀ hash ∈ a.hashFunctions,
      a.ctrThresh.toNat ≤ (filterAt a memory (active a log)).counted
        (received a memory (active a log) log (hash (UInt32.ofInt row) % a.numCounters)) := by
  have hactive : active a log < a.numFilters := Nat.mod_lt _ hN
  obtain ⟨hsame, -⟩ := CountingBloomFilter.inserted_counters (filterAt_counters a memory (active a log))
    (sinceReset a (active a log) log) 0
  rw [test, (tracks_run hL).testIdx, run_filters_getElem hL hactive, Option.any_some,
    CountingBloomFilter.test, hsame.hashFunctions, hsame.ctrThresh, List.all_eq_true]
  apply forall₂_congr
  intro hash _
  rw [hsame.index, decide_eq_true_iff, UInt32.le_iff_toNat_le, run_counters]
  rfl

/-- With room, a counter that was asked for enough increments has reached the threshold. -/
theorem HasRoom.counted (h : HasRoom a memory log) (hi : i < a.numFilters) {idx : UInt32}
    (hc : a.ctrThresh.toNat ≤ received a memory i log idx) :
    a.ctrThresh.toNat ≤ (filterAt a memory i).counted (received a memory i log idx) := by
  unfold CountingBloomFilter.counted
  have hthresh := a.ctrThresh.toNat_lt
  rcases h i hi with hstops | hroom
  · rw [if_pos (by exact hstops)]
    exact le_min (Nat.le_refl _) hc
  · split
    · exact le_min (Nat.le_refl _) hc
    · have hfits : received a memory i log idx < 4294967296 := by
        have hbound := hroom idx
        split at hbound <;> omega
      rwa [Nat.mod_eq_of_lt hfits]

theorem HasRoom.promise (hN : 0 < a.numFilters) (hL : 0 < a.lenEpochClk) (h : HasRoom a memory log) :
    Promise a memory log := by
  have hactive : active a log < a.numFilters := Nat.mod_lt _ hN
  refine ⟨?_, ?_, ?_⟩
  · intro row hrow
    rw [test_iff hN hL]
    intro hash hhash
    apply h.counted hactive
    have hsince : sinceReset a (active a log) log =
        duringLast ((a.numFilters - 1 - 0) * a.lenEpochClk + updates log % a.lenEpochClk + 1) log :=
      sinceReset_eq hL hN (by rw [Nat.add_zero]; rfl)
    rw [Nat.sub_zero] at hsince
    have hprefix : duringLast ((a.numFilters - 1) * a.lenEpochClk + 1) log <+: sinceReset a (active a log) log := by
      rw [hsince]
      exact TickOp.duringLast_prefix (by omega) log
    calc a.ctrThresh.toNat
        ≤ (duringLast ((a.numFilters - 1) * a.lenEpochClk + 1) log).count row := hrow
      _ ≤ (sinceReset a (active a log) log).count row := hprefix.sublist.count_le row
      _ ≤ _ := (filterAt a memory (active a log)).count_le_received hhash row _
  · intro row hrow hash hhash
    exact ((test_iff hN hL row).1 hrow hash hhash).trans (CountingBloomFilter.counted_le _ _)
  · intro hsat f hf idx
    rw [(tracks_run hL).filters, List.mem_map] at hf
    obtain ⟨i, hi, rfl⟩ := hf
    rw [UInt32.le_iff_toNat_le, run_counters, CountingBloomFilter.counted]
    split
    · exact Nat.min_le_left _ _
    · rename_i hnot
      rcases h i (List.mem_range.1 hi) with hstops | hroom
      · exact absurd hstops hnot
      · have hbound := hroom idx
        rw [if_pos hsat] at hbound
        exact (Nat.mod_le _ _).trans hbound

/-- A filter that should saturate and keeps its promise throughout had room. -/
theorem hasRoom_of_promise (hL : 0 < a.lenEpochClk) (hsat : a.saturate = true)
    (hints : a.ctrThresh.toNat + a.hashFunctions.length < 4294967296)
    (h : ∀ log', log' <:+ log → Promise a memory log') : HasRoom a memory log := by
  induction log with
  | nil =>
      intro i _
      right
      intro idx
      simp [received, sinceReset, CountingBloomFilter.received]
  | cons op log ih =>
      have hbefore := ih fun log' hs => h log' (hs.trans (List.suffix_cons op log))
      intro i hi
      rcases hbefore i hi with hstops | hroom
      · exact .inl hstops
      · by_cases hstops : memory i = true
        · exact .inl hstops
        right
        intro idx
        have hbound := hroom idx
        cases op with
        | insert elem =>
            have hmem : (filterAt a memory i).inserted (sinceReset a i (.insert elem :: log)) ∈
                (run a memory (.insert elem :: log)).filters :=
              List.mem_of_getElem? (run_filters_getElem hL hi)
            have hcounter := (h _ (List.suffix_refl _)).saturates hsat _ hmem idx
            rw [UInt32.le_iff_toNat_le, run_counters, CountingBloomFilter.counted, if_neg (by exact hstops)] at hcounter
            have hhits : (filterAt a memory i).hits idx elem ≤ a.hashFunctions.length := List.countP_le_length
            have hstep : received a memory i (.insert elem :: log) idx =
                (filterAt a memory i).hits idx elem + received a memory i log idx :=
              CountingBloomFilter.received_cons _ _ _ _
            rw [hstep] at hcounter ⊢
            rw [if_pos hsat] at hbound ⊢
            rwa [Nat.mod_eq_of_lt (by omega)] at hcounter
        | update =>
            rw [if_pos hsat] at hbound ⊢
            rw [received, sinceReset]
            split
            · exact Nat.zero_le _
            · exact hbound

/-- Throughout a sequence of calls the rotating filter keeps its promise if its counters have room;
and for a filter that should saturate they must have it. The bound on the arguments is that of the
code's own 32-bit signed numbers. -/
theorem promise_iff_hasRoom (hN : 0 < a.numFilters) (hL : 0 < a.lenEpochClk) (memory : Nat → Bool)
    (log : List (TickOp Int)) :
    ((∀ log', log' <:+ log → HasRoom a memory log') → ∀ log', log' <:+ log → Promise a memory log') ∧
      (a.saturate = true → a.ctrThresh.toNat < 2147483648 → a.hashFunctions.length < 2147483648 →
        ((∀ log', log' <:+ log → Promise a memory log') ↔ ∀ log', log' <:+ log → HasRoom a memory log')) := by
  have hkeeps : (∀ log', log' <:+ log → HasRoom a memory log') → ∀ log', log' <:+ log → Promise a memory log' :=
    fun h log' hs => (h log' hs).promise hN hL
  refine ⟨hkeeps, ?_⟩
  intro hsat hthresh hhashes
  refine ⟨?_, hkeeps⟩
  intro h log' hs
  exact hasRoom_of_promise hL hsat (by omega) fun log'' hs' => h log'' (hs'.trans hs)

/-- Two filters with one hash function, that count to one. -/
def smallArguments : Arguments where
  numCounters := 8
  ctrThresh := 1
  numFilters := 2
  saturate := true
  hashFunctions := [id]
  lenEpochClk := 2

/-- Where the memory happens to say so, the filters saturate. -/
theorem promise_small : Promise smallArguments (fun _ => true) [.insert 5, .update, .update, .insert 5] :=
  (promise_iff_hasRoom (by decide) (by decide) _ _).1 (fun _ _ _ _ => .inl rfl) _ (List.suffix_refl _)

/-- Where it does not, a filter made to saturate counts past its threshold. -/
theorem not_promise_overrun : ¬ Promise smallArguments (fun _ => false) [.insert 5, .insert 5] := by
  intro h
  have hbound := h.saturates rfl ((filterAt smallArguments (fun _ => false) 0).inserted [5, 5])
    (by rw [(tracks_run (by decide)).filters]; exact List.mem_cons_self) 5
  exact absurd hbound (by decide)

end UnifiedBloomFilter

end Ramulator.Controller
