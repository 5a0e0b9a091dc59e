/-
# Ramulator.Controller.GrapheneBound — how many activations Graphene lets through.

Graphene keeps a table of heavy hitters for each bank. Its counts are lowered to the spillover counter
after a `VRR`, and a row may enter above rows that were there before. Here its tables, over any sequence
of calls, are compared with the activations.
-/
import Ramulator.Controller.Exposure
import Mathlib.Algebra.Order.Ring.Int

namespace Ramulator.Controller.Graphene

open Ramulator.Dram Ramulator.Lib

variable {cfg : GrapheneConfig} {s : Graphene} {x : Exposure} {bank : Int}

/-- A call, and what happens to the rows: the one activated has its victims refreshed when the plugin
sends the `VRR` of its own address. -/
def observe (cfg : GrapheneConfig) : PluginCall → Graphene × Exposure → Except String (Graphene × Exposure)
  | .preSchedule, (s, x) =>
      (s.preSchedule cfg).map fun s' => (s', if s'.clk % cfg.resetPeriodClk = 0 then {} else x)
  | .onIssue c addr visiting, (s, x) =>
      let out := s.onIssue (K := Unit) cfg c addr visiting
      .ok (out.state,
        if isActivation c then
          x.activate (cfg.spec.flatBankId addr) (addr.coord cfg.spec.rowLevel)
            (decide (vrrRequest addr ∈ out.sends))
        else x)

/-- While a bank sees fewer activations than this, the spillover counter stays below the threshold. -/
def capacity (cfg : GrapheneConfig) : Int := (cfg.numTableEntries + 1) * (cfg.activationThreshold - 1)

/-- The table of a bank counts its activations. -/
structure Inv (cfg : GrapheneConfig) (s : Graphene) (x : Exposure) (bank : Int) : Prop where
  covers : Covers (s.activationCountTable bank) (s.spilloverCounter bank) (x.since bank)
  size : (s.activationCountTable bank).length = cfg.numTableEntries
  nonneg : 0 ≤ s.spilloverCounter bank
  counted : total (s.activationCountTable bank) + s.spilloverCounter bank ≤ x.acts bank
  below : x.acts bank < capacity cfg → ∀ row count,
    (s.activationCountTable bank).lookup row = some count → count < cfg.activationThreshold
  most : x.acts bank < capacity cfg → ∀ row, (x.most bank row : Int) ≤ cfg.activationThreshold

namespace Inv

theorem share (h : Inv cfg s x bank) : (cfg.numTableEntries + 1) * s.spilloverCounter bank ≤ x.acts bank := by
  have hshare := h.covers.spill_le
  rw [h.size] at hshare
  exact hshare.trans h.counted

theorem spill_lt (h : Inv cfg s x bank) (hacts : x.acts bank < capacity cfg) :
    s.spilloverCounter bank < cfg.activationThreshold - 1 := by
  have hlt := lt_of_le_of_lt h.share hacts
  exact lt_of_mul_lt_mul_left hlt (by omega)

/-- No row is activated often before its victims' refresh is requested. -/
theorem since_lt (h : Inv cfg s x bank) (hacts : x.acts bank < capacity cfg) (row : Int) :
    (x.since bank row : Int) < cfg.activationThreshold := by
  have hcovered := h.covers.covered row
  have hspill := h.spill_lt hacts
  cases hrow : (s.activationCountTable bank).lookup row with
  | some count =>
      rw [estimate_of_some hrow] at hcovered
      have hbelow := h.below hacts row count hrow
      omega
  | none =>
      rw [estimate_of_none hrow] at hcovered
      omega

end Inv

/-! ## One call -/

/-- What an activation does to the tables. -/
theorem onIssue_cases {c : Command} {addr : AddrVec} (visiting : Visit) (hc : isActivation c = true)
    (hkeys : KeysNodup (s.activationCountTable (cfg.spec.flatBankId addr))) :
    let bank := cfg.spec.flatBankId addr
    let row := addr.coord cfg.spec.rowLevel
    let m := s.activationCountTable bank
    let spill := s.spilloverCounter bank
    let out := s.onIssue (K := Unit) cfg c addr visiting
    (∃ count, m.lookup row = some count ∧ cfg.activationThreshold ≤ count + 1 ∧
      out.state = s.setTable bank (assign row spill m) ∧ out.sends = [vrrRequest addr]) ∨
    (∃ count, m.lookup row = some count ∧ count + 1 < cfg.activationThreshold ∧
      out.state = s.setTable bank (assign row (count + 1) m) ∧ out.sends = []) ∨
    (∃ r, m.lookup row = none ∧ m.lookup r = some spill ∧
      out.state = s.setTable bank (assign row (spill + 1) (eraseKey r m)) ∧ out.sends = []) ∨
    (m.lookup row = none ∧ (∀ r v, m.lookup r = some v → v ≠ spill) ∧
      out.state = { s with spilloverCounter := Function.update s.spilloverCounter bank (spill + 1) } ∧
      out.sends = []) := by
  intro bank row m spill out
  have hout : out = s.onIssue (K := Unit) cfg c addr visiting := rfl
  rw [onIssue, hc, if_neg Bool.noConfusion] at hout
  dsimp only at hout
  cases hrow : m.lookup row with
  | some count =>
      rw [hrow] at hout
      dsimp only at hout
      by_cases hcount : count + 1 ≥ cfg.activationThreshold
      · rw [if_pos hcount] at hout
        exact .inl ⟨count, rfl, hcount, by rw [hout], by rw [hout]⟩
      · rw [if_neg hcount] at hout
        exact .inr (.inl ⟨count, rfl, Int.not_le.mp hcount, by rw [hout], by rw [hout]⟩)
  | none =>
      rw [hrow] at hout
      dsimp only at hout
      right
      right
      cases hfind : (visit visiting.order m).find? (fun e => e.2 = spill) with
      | some e =>
          obtain ⟨r, value⟩ := e
          rw [hfind] at hout
          have hvalue : value = spill := by simpa using List.find?_some hfind
          have hr := lookup_of_mem_visit hkeys (List.mem_of_find?_eq_some hfind)
          rw [hvalue] at hr hout
          exact .inl ⟨r, rfl, hr, by rw [hout], by rw [hout]⟩
      | none =>
          rw [hfind] at hout
          have hfull : ∀ r v, m.lookup r = some v → v ≠ spill := by
            intro r v hr
            simpa using List.find?_eq_none.mp hfind (r, v) (mem_visit visiting.order hr)
          exact .inr ⟨rfl, hfull, by rw [hout], by rw [hout]⟩

@[simp] theorem setTable_table (bank : Int) (m : List (Int × Int)) (s : Graphene) :
    (s.setTable bank m).activationCountTable bank = m := Function.update_self ..

@[simp] theorem setTable_spilloverCounter (bank : Int) (m : List (Int × Int)) (s : Graphene) :
    (s.setTable bank m).spilloverCounter = s.spilloverCounter := rfl

theorem setTable_table_of_ne {b : Int} (hb : b ≠ bank) (m : List (Int × Int)) (s : Graphene) :
    (s.setTable bank m).activationCountTable b = s.activationCountTable b := Function.update_of_ne hb ..

/-- The other banks are left alone. -/
theorem onIssue_of_ne {c : Command} {addr : AddrVec} (visiting : Visit) (hc : isActivation c = true)
    (hkeys : KeysNodup (s.activationCountTable (cfg.spec.flatBankId addr))) {b : Int}
    (hb : b ≠ cfg.spec.flatBankId addr) :
    (s.onIssue (K := Unit) cfg c addr visiting).state.activationCountTable b = s.activationCountTable b ∧
      (s.onIssue (K := Unit) cfg c addr visiting).state.spilloverCounter b = s.spilloverCounter b := by
  rcases onIssue_cases visiting hc hkeys with
    ⟨count, -, -, hstate, -⟩ | ⟨count, -, -, hstate, -⟩ | ⟨r, -, -, hstate, -⟩ | ⟨-, -, hstate, -⟩
  · rw [hstate]
    exact ⟨setTable_table_of_ne hb _ _, rfl⟩
  · rw [hstate]
    exact ⟨setTable_table_of_ne hb _ _, rfl⟩
  · rw [hstate]
    exact ⟨setTable_table_of_ne hb _ _, rfl⟩
  · rw [hstate]
    exact ⟨rfl, Function.update_of_ne hb ..⟩

namespace Inv

/-- Only the bank's own fields matter. -/
theorem congr {s' : Graphene} {x' : Exposure} (h : Inv cfg s x bank)
    (htable : s'.activationCountTable bank = s.activationCountTable bank)
    (hspill : s'.spilloverCounter bank = s.spilloverCounter bank) (hsince : x'.since bank = x.since bank)
    (hacts : x'.acts bank = x.acts bank) (hmost : x'.most bank = x.most bank) : Inv cfg s' x' bank := by
  refine ⟨?_, ?_, ?_, ?_, ?_, ?_⟩
  · rw [htable, hspill, hsince]
    exact h.covers
  · rw [htable]
    exact h.size
  · rw [hspill]
    exact h.nonneg
  · rw [htable, hspill, hacts]
    exact h.counted
  · rw [htable, hacts]
    exact h.below
  · rw [hacts, hmost]
    exact h.most

/-- The bank of an activation that is counted without a request. -/
theorem count {s' : Graphene} {row : Int} (h : Inv cfg s x bank)
    (hcounts : Counts row (s.activationCountTable bank) (s.spilloverCounter bank)
      (s'.activationCountTable bank) (s'.spilloverCounter bank))
    (hsize : (s'.activationCountTable bank).length = (s.activationCountTable bank).length)
    (htotal : total (s'.activationCountTable bank) + s'.spilloverCounter bank =
      total (s.activationCountTable bank) + s.spilloverCounter bank + 1)
    (hgrows : s.spilloverCounter bank ≤ s'.spilloverCounter bank)
    (hbelow : x.acts bank + 1 < capacity cfg → ∀ r count,
      (s'.activationCountTable bank).lookup r = some count → count < cfg.activationThreshold) :
    Inv cfg s' (x.activate bank row false) bank := by
  have hcounted := h.counted
  refine ⟨?_, hsize.trans h.size, h.nonneg.trans hgrows, ?_, ?_, ?_⟩
  · rw [Exposure.activate_since, if_neg Bool.false_ne_true]
    exact h.covers.counts hcounts
  · rw [Exposure.activate_acts]
    omega
  · rw [Exposure.activate_acts]
    exact hbelow
  · rw [Exposure.activate_acts]
    intro hacts
    have hbefore : (x.acts bank : Int) < capacity cfg := by omega
    exact Exposure.activate_most_le (h.most hbefore) (h.since_lt hbefore row)

/-- The bank of an activation that requests a refresh. -/
theorem request {count row : Int} (h : Inv cfg s x bank)
    (hrow : (s.activationCountTable bank).lookup row = some count) :
    Inv cfg (s.setTable bank (assign row (s.spilloverCounter bank) (s.activationCountTable bank)))
      (x.activate bank row true) bank := by
  have hcounted := h.counted
  have hfloor := h.covers.floor row count hrow
  refine ⟨?_, ?_, h.nonneg, ?_, ?_, ?_⟩
  · rw [setTable_table, Exposure.activate_since, if_pos rfl]
    exact h.covers.lower h.nonneg
  · rw [setTable_table, h.covers.keys.length_assign_of_some hrow]
    exact h.size
  · rw [setTable_table, setTable_spilloverCounter, total_assign_of_some h.covers.keys hrow,
      Exposure.activate_acts]
    omega
  · rw [setTable_table, Exposure.activate_acts]
    intro hacts r n hr
    have hbefore : (x.acts bank : Int) < capacity cfg := by omega
    have hspill := h.spill_lt hbefore
    rw [lookup_assign] at hr
    split at hr
    · rw [← Option.some.inj hr]
      omega
    · exact h.below hbefore r n hr
  · rw [Exposure.activate_acts]
    intro hacts
    have hbefore : (x.acts bank : Int) < capacity cfg := by omega
    exact Exposure.activate_most_le (h.most hbefore) (h.since_lt hbefore row)

/-- The bank of an activation of a row that is counted already. -/
theorem hit {count row : Int} (h : Inv cfg s x bank)
    (hrow : (s.activationCountTable bank).lookup row = some count) (hcount : count + 1 < cfg.activationThreshold) :
    Inv cfg (s.setTable bank (assign row (count + 1) (s.activationCountTable bank)))
      (x.activate bank row false) bank := by
  have hkeys := h.covers.keys
  apply h.count
  · rw [setTable_table]
    exact .hit hrow
  · rw [setTable_table]
    exact hkeys.length_assign_of_some hrow
  · rw [setTable_table, setTable_spilloverCounter, total_assign_of_some hkeys hrow]
    omega
  · exact Int.le_refl _
  · rw [setTable_table]
    intro hacts r n hr
    rw [lookup_assign] at hr
    split at hr
    · rw [← Option.some.inj hr]
      exact hcount
    · exact h.below (by omega) r n hr

/-- The bank of an activation whose row takes the place of one that is down to the spillover counter. -/
theorem replace {r row : Int} (h : Inv cfg s x bank)
    (hrow : (s.activationCountTable bank).lookup row = none)
    (hr : (s.activationCountTable bank).lookup r = some (s.spilloverCounter bank)) :
    Inv cfg (s.setTable bank
        (assign row (s.spilloverCounter bank + 1) (eraseKey r (s.activationCountTable bank))))
      (x.activate bank row false) bank := by
  have hkeys := h.covers.keys
  apply h.count
  · rw [setTable_table]
    exact .replace hrow hr
  · rw [setTable_table]
    exact length_replace hkeys hrow hr _
  · rw [setTable_table, setTable_spilloverCounter, total_replace hkeys hrow hr]
    omega
  · exact Int.le_refl _
  · rw [setTable_table]
    intro hacts r' n hr'
    have hbefore : (x.acts bank : Int) < capacity cfg := by omega
    have hspill := h.spill_lt hbefore
    rw [lookup_assign] at hr'
    split at hr'
    · rw [← Option.some.inj hr']
      omega
    · rw [lookup_eraseKey] at hr'
      split at hr'
      · cases hr'
      · exact h.below hbefore r' n hr'

/-- The bank of an activation that only the spillover counter counts. -/
theorem spillOver {row : Int} (h : Inv cfg s x bank)
    (hrow : (s.activationCountTable bank).lookup row = none)
    (hfull : ∀ r v, (s.activationCountTable bank).lookup r = some v → v ≠ s.spilloverCounter bank) :
    Inv cfg
      { s with spilloverCounter := Function.update s.spilloverCounter bank (s.spilloverCounter bank + 1) }
      (x.activate bank row false) bank := by
  apply h.count
  · dsimp only
    rw [Function.update_self]
    exact .spillOver hrow hfull
  · rfl
  · dsimp only
    rw [Function.update_self]
    omega
  · dsimp only
    rw [Function.update_self]
    omega
  · intro hacts
    exact h.below (by omega)

/-- An issued command keeps the tables right. -/
theorem onIssue {c : Command} {addr : AddrVec} {visiting : Visit} (h : ∀ b, Inv cfg s x b) (b : Int) :
    Inv cfg (s.onIssue (K := Unit) cfg c addr visiting).state
      (if isActivation c then
        x.activate (cfg.spec.flatBankId addr) (addr.coord cfg.spec.rowLevel)
          (decide (vrrRequest addr ∈ (s.onIssue (K := Unit) cfg c addr visiting).sends))
      else x) b := by
  cases hc : isActivation c with
  | false =>
      rw [Graphene.onIssue, hc, if_pos rfl, if_neg Bool.false_ne_true]
      exact h b
  | true =>
      rw [if_pos rfl]
      have hbank := h (cfg.spec.flatBankId addr)
      by_cases hb : b = cfg.spec.flatBankId addr
      · rw [hb]
        rcases onIssue_cases visiting hc hbank.covers.keys with
          ⟨count, hrow, -, hstate, hsends⟩ | ⟨count, hrow, hcount, hstate, hsends⟩ |
          ⟨r, hrow, hr, hstate, hsends⟩ | ⟨hrow, hfull, hstate, hsends⟩
        · rw [hstate, hsends, decide_eq_true (List.mem_singleton.mpr rfl)]
          exact hbank.request hrow
        all_goals rw [hstate, hsends, decide_eq_false List.not_mem_nil]
        · exact hbank.hit hrow hcount
        · exact hbank.replace hrow hr
        · exact hbank.spillOver hrow hfull
      · obtain ⟨htable, hspill⟩ := onIssue_of_ne visiting hc hbank.covers.keys hb
        exact (h b).congr htable hspill (Exposure.activate_since_of_ne hb) (Exposure.activate_acts_of_ne hb)
          (Exposure.activate_most_of_ne hb)

/-- Tables of zeroes, after `setup` or a periodic reset. -/
theorem zero {s : Graphene} {m : List (Int × Int)} (hkeys : KeysNodup m)
    (hlength : m.length = cfg.numTableEntries)
    (htable : s.activationCountTable bank = m.map fun e => (e.1, (0 : Int)))
    (hspill : s.spilloverCounter bank = 0) : Inv cfg s {} bank := by
  have hzero : ∀ r n, (s.activationCountTable bank).lookup r = some n → n = 0 := by
    intro r n hr
    rw [htable] at hr
    obtain ⟨e, -, he⟩ := List.mem_map.mp (mem_of_lookup hr)
    exact (congrArg Prod.snd he).symm
  have htotal : total (s.activationCountTable bank) = 0 := by
    rw [htable, total, List.map_map]
    exact List.sum_eq_zero fun n hn => by
      obtain ⟨e, -, rfl⟩ := List.mem_map.mp hn
      rfl
  -- without activations there is room only for a positive threshold
  have hpos : ((({} : Exposure).acts bank : Nat) : Int) < capacity cfg → 0 < cfg.activationThreshold := by
    intro hacts
    have hroom : ((cfg.numTableEntries : Int) + 1) * 0 < (cfg.numTableEntries + 1) * (cfg.activationThreshold - 1) := by
      rw [Int.mul_zero]
      exact hacts
    have hlt : 0 < cfg.activationThreshold - 1 := lt_of_mul_lt_mul_left hroom (by omega)
    omega
  refine ⟨?_, ?_, ?_, ?_, ?_, ?_⟩
  · rw [htable, hspill]
    exact .zero hkeys
  · rw [htable, List.length_map]
    exact hlength
  · rw [hspill]
  · rw [htotal, hspill]
    exact Int.le_refl 0
  · intro hacts r n hr
    rw [hzero r n hr]
    exact hpos hacts
  · intro hacts r
    exact (hpos hacts).le

theorem init (cfg : GrapheneConfig) (b : Int) : Inv cfg (Graphene.init cfg) {} b := by
  refine zero (m := (Graphene.init cfg).activationCountTable b) ?_ ?_ ?_ rfl
  · simp only [KeysNodup, Graphene.init, List.bind_eq_flatMap, List.pure_def, ← List.map_eq_flatMap, List.map_map]
    refine List.nodup_range.map ?_
    intro i j hij
    have heq : -(cfg.spec.levelSize cfg.spec.rowLevel : Int) + i = -(cfg.spec.levelSize cfg.spec.rowLevel : Int) + j :=
      hij
    omega
  · simp [Graphene.init]
  · rw [Graphene.init, List.map_map]
    rfl

/-- A cycle passes, and the tables may be reset. -/
theorem preSchedule {s' : Graphene} (h : ∀ b, Inv cfg s x b) (hstep : s.preSchedule cfg = .ok s') (b : Int) :
    Inv cfg s' (if s'.clk % cfg.resetPeriodClk = 0 then {} else x) b := by
  unfold Graphene.preSchedule at hstep
  dsimp only at hstep
  split at hstep
  · cases hstep
  split at hstep
  · rename_i hreset
    rw [← Except.ok.inj hstep, if_pos hreset]
    exact zero (h b).covers.keys (h b).size rfl rfl
  · rename_i hreset
    rw [← Except.ok.inj hstep, if_neg hreset]
    exact (h b).congr rfl rfl rfl rfl rfl

end Inv

/-! ## Runs -/

/-- A call keeps the tables right. -/
theorem inv_observe {call : PluginCall} {p p' : Graphene × Exposure} (h : ∀ b, Inv cfg p.1 p.2 b)
    (hstep : observe cfg call p = .ok p') (b : Int) : Inv cfg p'.1 p'.2 b := by
  cases call with
  | preSchedule =>
      obtain ⟨s', hs', rfl⟩ := except_map_eq_ok.mp hstep
      exact Inv.preSchedule h hs' b
  | onIssue c addr visiting =>
      rw [← Except.ok.inj hstep]
      exact Inv.onIssue h b

/-- In every state that a sequence of calls reaches, whatever order the hash maps are visited in: each
count is at least the spillover counter; the count of a row, or the spillover counter for a row that has
none, is at least the number of its activations since its last `VRR` request or the reset; the spillover
counter is at most an even share of the activations; and while these are few enough, no row was activated
more often than the threshold between two requests. -/
theorem counts_activations {calls : List PluginCall} {s : Graphene} {x : Exposure}
    (h : runAll (observe cfg) calls (Graphene.init cfg, {}) = .ok (s, x)) (bank : Int) :
    (∀ row count, (s.activationCountTable bank).lookup row = some count → s.spilloverCounter bank ≤ count) ∧
      (∀ row, (x.since bank row : Int) ≤ ((s.activationCountTable bank).lookup row).getD (s.spilloverCounter bank)) ∧
      (cfg.numTableEntries + 1) * s.spilloverCounter bank ≤ x.acts bank ∧
      (x.acts bank < (cfg.numTableEntries + 1) * (cfg.activationThreshold - 1) →
        ∀ row, (x.most bank row : Int) ≤ cfg.activationThreshold) := by
  have hreached := reachable_of_runAll .start h
  have hinv := hreached.invariant (fun p => ∀ b, Inv cfg p.1 p.2 b) (Inv.init cfg)
    fun p call p' hp hstep => inv_observe hp hstep
  exact ⟨(hinv bank).covers.floor, (hinv bank).covers.covered, (hinv bank).share, (hinv bank).most⟩

/-- Tables of two entries for each bank, and a threshold of three. -/
def smallGraphene : GrapheneConfig := ⟨RowTracker.smallVRR 16, 2, 3, 64⟩

/-- Rows 5 and 7 of bank 0 fill its table, row 6 spills over, and row 5 reaches the threshold. Another
bank is activated meanwhile. -/
def smallCalls : List PluginCall :=
  [(0, 5), (0, 7), (1, 5), (0, 6), (0, 5), (0, 5)].map fun (bank, row) =>
    .onIssue .ACT (RowTracker.smallAddr bank row) {}

/-- The third activation of row 5 requests its `VRR`, and its count falls to the spillover counter. -/
theorem counts_activations_small :
    ∃ s x, runAll (observe smallGraphene) smallCalls (Graphene.init smallGraphene, {}) = .ok (s, x) ∧
      s.spilloverCounter 0 = 1 ∧ (s.activationCountTable 0).lookup 5 = some 1 ∧ x.acts 0 = 5 ∧
      x.since 0 5 = 0 ∧ x.most 0 5 = 3 ∧ (x.since 0 6 : Int) ≤ 1 ∧
      ∀ row, (x.most 0 row : Int) ≤ smallGraphene.activationThreshold := by
  obtain ⟨p, hrun, hspill, hcount, hacts, hsince, hmost, hrow⟩ :
      ∃ p, runAll (observe smallGraphene) smallCalls (Graphene.init smallGraphene, {}) = .ok p ∧
        p.1.spilloverCounter 0 = 1 ∧ (p.1.activationCountTable 0).lookup 5 = some 1 ∧ p.2.acts 0 = 5 ∧
        p.2.since 0 5 = 0 ∧ p.2.most 0 5 = 3 ∧ (p.1.activationCountTable 0).lookup 6 = none :=
    ⟨_, rfl, by decide, by decide, by decide, by decide, by decide, by decide⟩
  obtain ⟨-, hcovered, -, hbound⟩ := counts_activations hrun 0
  have hsix := hcovered 6
  rw [hrow, Option.getD_none, hspill] at hsix
  have hroom : (p.2.acts 0 : Int) < (smallGraphene.numTableEntries + 1) * (smallGraphene.activationThreshold - 1) := by
    rw [hacts]
    decide
  exact ⟨p.1, p.2, hrun, hspill, hcount, hacts, hsince, hmost, hsix, hbound hroom⟩

end Ramulator.Controller.Graphene
