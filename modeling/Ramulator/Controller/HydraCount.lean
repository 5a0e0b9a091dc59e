/-
# Ramulator.Controller.HydraCount — when Hydra counts every activation.

Hydra counts a group of rows together first, then each row in a table of which a cache holds a part. The
group of a row is found by a shift, and the rows whose counters are written when a group is past its
threshold by a multiplication; the two agree for powers of two. Here the three levels, over any sequence of
calls, are compared with the activations.
-/
import Ramulator.Controller.Exposure

namespace Ramulator.Controller.Hydra

open Ramulator.Base (Request)
open Ramulator.Dram Ramulator.Lib

variable {K : Type} {cfg : HydraConfig} {s : Hydra} {x : Exposure} {visiting : Visit} {addr : AddrVec}
  {rank bank : Int} {i tag row : Nat} {set set' : List (Nat × RCCEntry)} {reqs : List (Request Command K)}

/-- A `VRR` is among the requests. -/
def requests (sends : List (Request Command K)) : Bool := sends.any fun r => r.finalCommand == some .VRR

/-- A call, and what happens to the rows. -/
def observe (cfg : HydraConfig) : PluginCall → Hydra × Exposure → Except String (Hydra × Exposure)
  | .preSchedule, (s, x) =>
      (s.preSchedule cfg).map fun s' => (s', if s'.clk % cfg.resetPeriodClk = 0 then {} else x)
  | .onIssue c addr visiting, (s, x) =>
      (s.onIssue (K := Unit) cfg c addr visiting).map fun out =>
        (out.state,
          if isActivation c then
            x.activate (cfg.spec.flatBankId addr) (addr.coord cfg.spec.rowLevel) (requests out.sends)
          else x)

/-- What Hydra knows of a row: its own count, or that of its group while the row has none. -/
def tracked (cfg : HydraConfig) (s : Hydra) (bank : Int) (row : Nat) : Int :=
  if (s.gct bank (cfg.gctIndex row)).initialized then s.rct bank row
  else (s.gct bank (cfg.gctIndex row)).groupCount

/-- An activation outside the region of the counters, of a row that belongs to the group whose index the
shift gives, in a bank and a rank that the address names. -/
def WellGrouped (cfg : HydraConfig) : PluginCall → Prop
  | .preSchedule => True
  | .onIssue c addr _ =>
      RowTracker.Distinct (.hydra cfg) c addr ∧
        (isActivation c = true → cfg.totalRctRowSize ≤ addr.coord cfg.spec.rowLevel →
          cfg.gctIndex (addr.coord cfg.spec.rowLevel).toNat = (addr.coord cfg.spec.rowLevel).toNat / cfg.rowGroupSize)

instance (call : PluginCall) : Decidable (WellGrouped cfg call) :=
  match call with
  | .preSchedule => inferInstanceAs (Decidable True)
  | .onIssue _ _ _ => inferInstanceAs (Decidable (_ ∧ (_ → _ → _)))

/-! ## Room in a set -/

theorem leastCount_mem {es : List (Nat × RCCEntry)} {e : Nat × RCCEntry} (h : leastCount es = some e) : e ∈ es := by
  have hfold : ∀ (l : List (Nat × RCCEntry)) (a : Nat × RCCEntry),
      l.foldl (fun least e => if e.2.count < least.2.count then e else least) a ∈ a :: l := by
    intro l
    induction l with
    | nil => exact fun a => List.mem_cons_self
    | cons b l ih =>
        intro a
        rw [List.foldl_cons]
        split
        · exact List.mem_cons_of_mem a (ih b)
        · rcases List.mem_cons.mp (ih a) with heq | hmem
          · rw [heq]
            exact List.mem_cons_self
          · exact List.mem_cons_of_mem a (List.mem_cons_of_mem b hmem)
  cases es with
  | nil => cases h
  | cons a l =>
      rw [← Option.some.inj h]
      exact hfold l a

/-- What is evicted from a full set is in it. -/
theorem getTagToEvict_mem (hkeys : KeysNodup set) (hset : set ≠ []) {chosen : Option Nat}
    (h : getTagToEvict cfg visiting set = .ok chosen) : ∃ tag e, chosen = some tag ∧ set.lookup tag = some e := by
  unfold getTagToEvict at h
  dsimp only at h
  have hlength : set.length ≤ (visit (visiting.order.map Int.toNat) set).length := by
    have hnodup : set.Nodup := List.Nodup.of_map Prod.fst hkeys
    refine (hnodup.subperm ?_).length_le
    intro e he
    exact mem_visit _ (hkeys.lookup_of_mem he)
  have hpos : 0 < set.length := List.length_pos_iff.mpr hset
  have hfound : ∀ e ∈ visit (visiting.order.map Int.toNat) set, set.lookup e.1 = some e.2 :=
    fun e he => lookup_of_mem_visit hkeys he
  cases hpolicy : cfg.rccPolicy with
  | random =>
      rw [hpolicy] at h
      have hlt := (Nat.mod_lt visiting.draw hpos).trans_le hlength
      rw [← Except.ok.inj h, List.getElem?_eq_getElem hlt]
      exact ⟨_, _, rfl, hfound _ (List.getElem_mem hlt)⟩
  | minCount =>
      rw [hpolicy] at h
      rw [← Except.ok.inj h]
      cases hleast : leastCount (visit (visiting.order.map Int.toNat) set) with
      | some e => exact ⟨_, _, rfl, hfound e (leastCount_mem hleast)⟩
      | none =>
          cases hentries : visit (visiting.order.map Int.toNat) set with
          | nil =>
              rw [hentries, List.length_nil] at hlength
              omega
          | cons e es =>
              rw [hentries] at hleast
              cases hleast
  | unknown name =>
      rw [hpolicy] at h
      cases h

/-- Making room leaves a set with at most fifteen of its entries. -/
theorem evict_room (hkeys : KeysNodup set) (hlength : set.length ≤ 16)
    (h : evict cfg visiting set = .ok (set', reqs)) : KeysNodup set' ∧ set'.length ≤ 15 := by
  unfold evict at h
  split at h
  · rename_i hfull
    have hset : set ≠ [] := by
      rintro rfl
      cases hfull
    rw [except_bind_eq_ok] at h
    obtain ⟨chosen, hchosen, h⟩ := h
    obtain ⟨tag, e, rfl, he⟩ := getTagToEvict_mem hkeys hset hchosen
    simp only [he] at h
    cases h
    refine ⟨hkeys.eraseKey tag, ?_⟩
    have herase := hkeys.length_eraseKey he
    omega
  · cases h
    exact ⟨hkeys, by omega⟩

/-! ## Counting a row -/

theorem requests_append (rs rs' : List (Request Command K)) : requests (rs ++ rs') = (requests rs || requests rs') :=
  List.any_append

theorem requests_of_ne (h : ∀ r ∈ reqs, r.finalCommand ≠ some .VRR) : requests reqs = false := by
  unfold requests
  rw [List.any_eq_false]
  intro r hr
  simpa using h r hr

theorem requests_vrr (addr : AddrVec) : requests [vrrRequest (K := K) addr] = true := rfl

/-- The counter in the cache, after an access: one more than the counter of the row, whether it was there
or not. -/
theorem access_spec {count : Int} {entry : RCCEntry} {tag : Nat} (hkeys : KeysNodup set) (hlength : set.length ≤ 16)
    (hhit : ∀ e, set.lookup tag = some e → e.rowId = row ∧ e.flatBankId = bank ∧ e.count + 1 = count)
    (h : access cfg visiting addr bank row tag count set = .ok (entry, set', reqs)) :
    entry.rowId = row ∧ entry.flatBankId = bank ∧ entry.count = count ∧
      (∀ tag' e, set'.lookup tag' = some e → set.lookup tag' = some e) ∧
      KeysNodup set' ∧ (∀ e, (assign tag e set').length ≤ 16) ∧ requests reqs = false := by
  unfold access at h
  cases hlookup : set.lookup tag with
  | some e =>
      simp only [hlookup] at h
      cases h
      obtain ⟨hrow, hbank, hcount⟩ := hhit e hlookup
      refine ⟨hrow, hbank, hcount, fun _ _ h => h, hkeys, ?_, rfl⟩
      intro e'
      rw [hkeys.length_assign_of_some hlookup]
      exact hlength
  | none =>
      simp only [hlookup] at h
      rw [except_bind_eq_ok] at h
      obtain ⟨⟨room, writeBack⟩, hevict, h⟩ := h
      cases h
      obtain ⟨hkept, hsends⟩ := evict_eq_ok hevict
      obtain ⟨hroomKeys, hroom⟩ := evict_room hkeys hlength hevict
      have hnone : room.lookup tag = none := by
        cases hroomLookup : room.lookup tag with
        | none => rfl
        | some e =>
            rw [hkept tag e hroomLookup] at hlookup
            cases hlookup
      refine ⟨rfl, rfl, rfl, hkept, hroomKeys, ?_, ?_⟩
      · intro e
        rw [length_assign_of_none hnone]
        omega
      · rw [requests_append, requests_of_ne hsends, requests_of_ne (issueRctAccess_ne _ _ _)]
        rfl

/-- Every entry of the cache holds the counter of its row. -/
def Backed (cfg : HydraConfig) (s : Hydra) : Prop :=
  ∀ rank i tag e, (s.rcc rank i).lookup tag = some e →
    e.count = s.rct e.flatBankId e.rowId ∧ (s.gct e.flatBankId (e.rowId / cfg.rowGroupSize)).initialized = true

/-- Every set of the cache holds an entry once, and at most sixteen. -/
def Sixteen (s : Hydra) : Prop := ∀ rank i, KeysNodup (s.rcc rank i) ∧ (s.rcc rank i).length ≤ 16

/-- What counting a row in the cache does. -/
theorem trackRow_cases {out : Outcome Hydra K} (hplaces : Inv cfg s) (hsixteen : Sixteen s) (hbacked : Backed cfg s)
    (hown : ∀ count, Cached cfg rank (cfg.rccIndex row) (cfg.rccTag row (bank % cfg.numBanksPerRank).toNat)
      ⟨row, bank, count, true, addr⟩)
    (h : s.trackRow cfg visiting addr rank bank row = .ok out) :
    ∃ entry set, let n := entry.count
      out.state = (s.setRct bank row n).setRcc rank (cfg.rccIndex row)
        (assign (cfg.rccTag row (bank % cfg.numBanksPerRank).toNat) entry set) ∧
      entry.rowId = row ∧ entry.flatBankId = bank ∧
      (∀ tag e, set.lookup tag = some e → (s.rcc rank (cfg.rccIndex row)).lookup tag = some e) ∧ KeysNodup set ∧
      (assign (cfg.rccTag row (bank % cfg.numBanksPerRank).toNat) entry set).length ≤ 16 ∧
      (s.rct bank row + 1 < cfg.trackingThreshold ∧ n = s.rct bank row + 1 ∧ requests out.sends = false ∨
        cfg.trackingThreshold ≤ s.rct bank row + 1 ∧ n = 0 ∧ requests out.sends = true) := by
  unfold trackRow at h
  dsimp only at h
  rw [except_bind_eq_ok] at h
  obtain ⟨⟨entry, set, sends⟩, haccess, h⟩ := h
  obtain ⟨hkeys, hlength⟩ := hsixteen rank (cfg.rccIndex row)
  have hhit : ∀ e, (s.rcc rank (cfg.rccIndex row)).lookup
      (cfg.rccTag row (bank % cfg.numBanksPerRank).toNat) = some e →
      e.rowId = row ∧ e.flatBankId = bank ∧ e.count + 1 = s.rct bank row + 1 := by
    intro e he
    obtain ⟨hrow, hbank⟩ := (hplaces _ _ _ e he).unique (hown 0)
    refine ⟨hrow, hbank, ?_⟩
    rw [(hbacked _ _ _ e he).1, hrow, hbank]
  obtain ⟨hrow, hbank, hcount, hkept, hkeys', hroom, hsends⟩ := access_spec hkeys hlength hhit haccess
  dsimp only at h
  split at h
  · rename_i hreached
    rw [hcount] at hreached
    cases h
    refine ⟨{ entry with count := 0 }, set, rfl, hrow, hbank, hkept, hkeys', hroom _, .inr ⟨hreached, rfl, ?_⟩⟩
    rw [requests_append, requests_vrr, Bool.or_true]
  · rename_i hbelow
    rw [hcount] at hbelow
    cases h
    refine ⟨entry, set, ?_, hrow, hbank, hkept, hkeys', hroom _, .inl ⟨Int.not_le.mp hbelow, hcount, hsends⟩⟩
    rw [hcount]

/-! ## All levels together -/

/-- The three levels count the activations of the rows outside the region of the counters. -/
structure Tallies (cfg : HydraConfig) (s : Hydra) (x : Exposure) : Prop where
  places : Inv cfg s
  sixteen : Sixteen s
  backed : Backed cfg s
  counters : ∀ bank row, 0 ≤ s.rct bank row ∧ s.rct bank row < cfg.trackingThreshold
  groups : ∀ bank i, 0 ≤ (s.gct bank i).groupCount ∧ (s.gct bank i).groupCount ≤ cfg.groupThreshold
  past : ∀ bank i, (s.gct bank i).initialized = true → cfg.groupThreshold ≤ (s.gct bank i).groupCount
  grouped : ∀ bank (row : Int), cfg.totalRctRowSize ≤ row → x.since bank row ≠ 0 →
    cfg.gctIndex row.toNat = row.toNat / cfg.rowGroupSize
  tallied : ∀ bank (row : Int), cfg.totalRctRowSize ≤ row → (x.since bank row : Int) ≤ tracked cfg s bank row.toNat
  most : ∀ bank (row : Int), cfg.totalRctRowSize ≤ row → (x.most bank row : Int) ≤ cfg.trackingThreshold

theorem setGct_gct_self (bank : Int) (i : Nat) (entry : GCTEntry) (s : Hydra) :
    (s.setGct bank i entry).gct bank i = entry := update_update_self s.gct bank i entry

theorem setGct_gct_of_ne {b : Int} {j : Nat} (h : (b, j) ≠ (bank, i)) (entry : GCTEntry) (s : Hydra) :
    (s.setGct bank i entry).gct b j = s.gct b j := update_update_of_ne s.gct h entry

theorem setRct_rct_self (bank : Int) (row : Nat) (n : Int) (s : Hydra) : (s.setRct bank row n).rct bank row = n :=
  update_update_self s.rct bank row n

theorem setRct_rct_of_ne {b : Int} {r : Nat} (h : (b, r) ≠ (bank, row)) (n : Int) (s : Hydra) :
    (s.setRct bank row n).rct b r = s.rct b r := update_update_of_ne s.rct h n

theorem setRcc_rcc_self (rank : Int) (i : Nat) (set : List (Nat × RCCEntry)) (s : Hydra) :
    (s.setRcc rank i set).rcc rank i = set := update_update_self s.rcc rank i set

theorem setRcc_rcc_of_ne {rank' : Int} {i' : Nat} (h : (rank', i') ≠ (rank, i)) (set : List (Nat × RCCEntry)) (s : Hydra) :
    (s.setRcc rank i set).rcc rank' i' = s.rcc rank' i' := update_update_of_ne s.rcc h set

/-- The counter of a row is written, and an entry for the row in the cache. -/
structure WritesRow (cfg : HydraConfig) (rank bank : Int) (row : Nat) (entry : RCCEntry) (set : List (Nat × RCCEntry))
    (s s' : Hydra) : Prop where
  gct : s'.gct = s.gct
  rct : s'.rct bank row = entry.count
  rct_ne : ∀ {b r}, (b, r) ≠ (bank, row) → s'.rct b r = s.rct b r
  rcc : s'.rcc rank (cfg.rccIndex row) = assign (cfg.rccTag row (bank % cfg.numBanksPerRank).toNat) entry set
  rcc_ne : ∀ {rank' i'}, (rank', i') ≠ (rank, cfg.rccIndex row) → s'.rcc rank' i' = s.rcc rank' i'

theorem writesRow (cfg : HydraConfig) (rank bank : Int) (row : Nat) (entry : RCCEntry) (set : List (Nat × RCCEntry))
    (s : Hydra) : WritesRow cfg rank bank row entry set s
      ((s.setRct bank row entry.count).setRcc rank (cfg.rccIndex row)
        (assign (cfg.rccTag row (bank % cfg.numBanksPerRank).toNat) entry set)) where
  gct := rfl
  rct := setRct_rct_self ..
  rct_ne := fun hne => setRct_rct_of_ne hne ..
  rcc := setRcc_rcc_self ..
  rcc_ne := fun hne => setRcc_rcc_of_ne hne ..

namespace WritesRow

variable {entry : RCCEntry} {set : List (Nat × RCCEntry)} {s' : Hydra}

theorem sixteen (h : WritesRow cfg rank bank row entry set s s') (hsixteen : Sixteen s) (hkeys : KeysNodup set)
    (hroom : (assign (cfg.rccTag row (bank % cfg.numBanksPerRank).toNat) entry set).length ≤ 16) : Sixteen s' := by
  intro rank' i'
  by_cases hi : (rank', i') = (rank, cfg.rccIndex row)
  · obtain ⟨rfl, rfl⟩ := Prod.mk.inj hi
    rw [h.rcc]
    exact ⟨hkeys.assign _ _, hroom⟩
  · rw [h.rcc_ne hi]
    exact hsixteen rank' i'

/-- The entry of the row stands in the place that was written, and holds its counter. -/
theorem backed (h : WritesRow cfg rank bank row entry set s s') (hbacked : Backed cfg s) (hplaces : Inv cfg s')
    (hown : Cached cfg rank (cfg.rccIndex row) (cfg.rccTag row (bank % cfg.numBanksPerRank).toNat)
      ⟨row, bank, 0, true, addr⟩)
    (hrow : entry.rowId = row) (hbank : entry.flatBankId = bank)
    (hkept : ∀ tag e, set.lookup tag = some e → (s.rcc rank (cfg.rccIndex row)).lookup tag = some e)
    (hstarted : (s.gct bank (row / cfg.rowGroupSize)).initialized = true) : Backed cfg s' := by
  intro rank' i' tag e he
  have hplace := hplaces rank' i' tag e he
  rw [h.gct]
  by_cases hmine : (e.flatBankId, e.rowId) = (bank, row)
  · obtain ⟨hb, hr⟩ := Prod.mk.inj hmine
    have hrank : rank' = rank := by rw [hplace.rank_eq, hb, hown.rank_eq]
    have hindex : i' = cfg.rccIndex row := by rw [hplace.index_eq, hr]
    have htag : tag = cfg.rccTag row (bank % cfg.numBanksPerRank).toNat := by rw [hplace.tag_eq, hb, hr]
    rw [hrank, hindex, h.rcc, lookup_assign, htag, beq_self_eq_true, if_pos rfl] at he
    rw [← Option.some.inj he, hbank, hrow, h.rct]
    exact ⟨rfl, hstarted⟩
  · have hbefore : (s.rcc rank' i').lookup tag = some e := by
      by_cases hi : (rank', i') = (rank, cfg.rccIndex row)
      · obtain ⟨rfl, rfl⟩ := Prod.mk.inj hi
        rw [h.rcc, lookup_assign] at he
        split at he
        · rw [← Option.some.inj he, hbank, hrow] at hmine
          exact absurd rfl hmine
        · exact hkept tag e he
      · rwa [h.rcc_ne hi] at he
    rw [h.rct_ne hmine]
    exact hbacked rank' i' tag e hbefore

theorem counters (h : WritesRow cfg rank bank row entry set s s')
    (hcounters : ∀ b r, 0 ≤ s.rct b r ∧ s.rct b r < cfg.trackingThreshold)
    (hentry : 0 ≤ entry.count ∧ entry.count < cfg.trackingThreshold) (b : Int) (r : Nat) :
    0 ≤ s'.rct b r ∧ s'.rct b r < cfg.trackingThreshold := by
  by_cases hbr : (b, r) = (bank, row)
  · obtain ⟨rfl, rfl⟩ := Prod.mk.inj hbr
    rw [h.rct]
    exact hentry
  · rw [h.rct_ne hbr]
    exact hcounters b r

/-- Of a row whose group has started Hydra knows the counter. -/
theorem tracked_self (h : WritesRow cfg rank bank row entry set s s')
    (hstarted : (s.gct bank (cfg.gctIndex row)).initialized = true) : tracked cfg s' bank row = entry.count := by
  unfold tracked
  rw [h.gct, hstarted, if_pos rfl, h.rct]

theorem tracked_ne (h : WritesRow cfg rank bank row entry set s s') {b : Int} {r : Nat} (hne : (b, r) ≠ (bank, row)) :
    tracked cfg s' b r = tracked cfg s b r := by
  unfold tracked
  rw [h.gct, h.rct_ne hne]

end WritesRow

theorem initializeGroup_of_started (h : (s.gct bank i).initialized = true) :
    (s.initializeGroup (K := K) cfg addr bank i).1 = s := by
  rw [initializeGroup]
  dsimp only
  rw [h, if_pos rfl]

/-- The rows whose counters are written are those of the group by division. -/
theorem initializeGroup_of_new (addr : AddrVec) (h : (s.gct bank i).initialized = false) :
    let s' := (s.initializeGroup (K := K) cfg addr bank i).1
    s'.rcc = s.rcc ∧
      (∀ b j, s'.gct b j = if (b, j) = (bank, i) then { s.gct bank i with initialized := true } else s.gct b j) ∧
      ∀ b r, s'.rct b r = if b = bank ∧ r / cfg.rowGroupSize = i then cfg.groupThreshold else s.rct b r := by
  have hrange : ∀ r, i * cfg.rowGroupSize ≤ r ∧ r < i * cfg.rowGroupSize + cfg.rowGroupSize ↔
      r / cfg.rowGroupSize = i := by
    intro r
    rw [Nat.div_eq_iff cfg.rowGroup_pos]
    have hpos := cfg.rowGroup_pos
    omega
  rw [initializeGroup]
  dsimp only
  rw [h, if_neg Bool.false_ne_true]
  dsimp only
  refine ⟨rfl, ?_, ?_⟩
  · intro b j
    split
    · rename_i heq
      obtain ⟨rfl, rfl⟩ := Prod.mk.inj heq
      exact setGct_gct_self ..
    · rename_i hne
      exact setGct_gct_of_ne hne ..
  · intro b r
    by_cases hb : b = bank
    · rw [hb, Function.update_self]
      simp only [hrange, true_and]
      rfl
    · rw [Function.update_of_ne hb, if_neg fun hand => hb hand.1]
      rfl

namespace Tallies

/-- Before anything, and after a reset. -/
theorem zero (hgroup : 0 ≤ cfg.groupThreshold) (clk : Int) : Tallies cfg { clk := clk } {} := by
  have htracking := cfg.tracking_gt
  refine ⟨nofun, ?_, nofun, ?_, ?_, nofun, ?_, ?_, ?_⟩
  · exact fun _ _ => ⟨List.nodup_nil, Nat.zero_le _⟩
  · exact fun _ _ => ⟨Int.le_refl 0, by dsimp only; omega⟩
  · exact fun _ _ => ⟨Int.le_refl 0, hgroup⟩
  · exact fun _ _ _ h => absurd rfl h
  · exact fun _ _ _ => Int.le_refl 0
  · intro _ _ _
    dsimp only
    omega

/-- A row below its threshold. -/
theorem since_lt (h : Tallies cfg s x) (hless : cfg.groupThreshold < cfg.trackingThreshold) (bank : Int) {row : Int}
    (hrow : cfg.totalRctRowSize ≤ row) : (x.since bank row : Int) + 1 ≤ cfg.trackingThreshold := by
  have htallied := h.tallied bank row hrow
  unfold tracked at htallied
  have hgroup := h.groups bank (cfg.gctIndex row.toNat)
  have hcounter := h.counters bank row.toNat
  split at htallied
  · omega
  · omega

/-- An activation in the region of the counters. -/
theorem region {s' : Hydra} {row : Int} {requested : Bool} (h : Tallies cfg s x) (hrow : row < cfg.totalRctRowSize)
    (hgct : s'.gct = s.gct) (hrct : s'.rct = s.rct) (hrcc : s'.rcc = s.rcc) :
    Tallies cfg s' (x.activate bank row requested) := by
  have hother : ∀ {b r : Int}, (cfg.totalRctRowSize : Int) ≤ r → (b, r) ≠ (bank, row) := by
    intro b r hr heq
    obtain ⟨-, rfl⟩ := Prod.mk.inj heq
    omega
  refine ⟨?_, ?_, ?_, ?_, ?_, ?_, ?_, ?_, ?_⟩
  · unfold Inv
    rw [hrcc]
    exact h.places
  · unfold Sixteen
    rw [hrcc]
    exact h.sixteen
  · unfold Backed
    rw [hrcc, hrct, hgct]
    exact h.backed
  · rw [hrct]
    exact h.counters
  · rw [hgct]
    exact h.groups
  · rw [hgct]
    exact h.past
  · intro b r hr
    rw [Exposure.activate_since_of_row_ne (hother hr)]
    exact h.grouped b r hr
  · intro b r hr
    rw [Exposure.activate_since_of_row_ne (hother hr), tracked, hgct, hrct]
    exact h.tallied b r hr
  · intro b r hr
    rw [Exposure.activate_most_of_row_ne (hother hr)]
    exact h.most b r hr

/-- An activation that its group counts. -/
theorem group {row : Int} (h : Tallies cfg s x) (hless : cfg.groupThreshold < cfg.trackingThreshold)
    (hrow : cfg.totalRctRowSize ≤ row) (hgrouped : cfg.gctIndex row.toNat = row.toNat / cfg.rowGroupSize)
    (hbelow : (s.gct bank (cfg.gctIndex row.toNat)).groupCount < cfg.groupThreshold) :
    Tallies cfg (s.setGct bank (cfg.gctIndex row.toNat) { s.gct bank (cfg.gctIndex row.toNat) with
      groupCount := (s.gct bank (cfg.gctIndex row.toNat)).groupCount + 1 }) (x.activate bank row false) := by
  have hnot : (s.gct bank (cfg.gctIndex row.toNat)).initialized = false := by
    cases hinit : (s.gct bank (cfg.gctIndex row.toNat)).initialized with
    | false => rfl
    | true =>
        have hpast := h.past _ _ hinit
        omega
  have hgroup := h.groups bank (cfg.gctIndex row.toNat)
  refine ⟨h.places, h.sixteen, ?_, h.counters, ?_, ?_, ?_, ?_, ?_⟩
  · intro rank i tag e he
    obtain ⟨hcount, hinit⟩ := h.backed rank i tag e he
    refine ⟨hcount, ?_⟩
    by_cases hi : (e.flatBankId, e.rowId / cfg.rowGroupSize) = (bank, cfg.gctIndex row.toNat)
    · obtain ⟨hb, hi⟩ := Prod.mk.inj hi
      rw [hb, hi, hnot] at hinit
      cases hinit
    · rw [setGct_gct_of_ne hi]
      exact hinit
  · intro b j
    by_cases hj : (b, j) = (bank, cfg.gctIndex row.toNat)
    · obtain ⟨rfl, rfl⟩ := Prod.mk.inj hj
      rw [setGct_gct_self]
      dsimp only
      omega
    · rw [setGct_gct_of_ne hj]
      exact h.groups b j
  · intro b j
    by_cases hj : (b, j) = (bank, cfg.gctIndex row.toNat)
    · obtain ⟨rfl, rfl⟩ := Prod.mk.inj hj
      rw [setGct_gct_self]
      dsimp only
      rw [hnot]
      exact nofun
    · rw [setGct_gct_of_ne hj]
      exact h.past b j
  · intro b r hr hne
    by_cases hbr : (b, r) = (bank, row)
    · obtain ⟨rfl, rfl⟩ := Prod.mk.inj hbr
      exact hgrouped
    · rw [Exposure.activate_since_of_row_ne hbr] at hne
      exact h.grouped b r hr hne
  · intro b r hr
    have hbefore := h.tallied b r hr
    unfold tracked at hbefore ⊢
    -- the group of the row counts for all its rows
    by_cases hj : (b, cfg.gctIndex r.toNat) = (bank, cfg.gctIndex row.toNat)
    · obtain ⟨rfl, hindex⟩ := Prod.mk.inj hj
      rw [hindex, hnot, if_neg Bool.false_ne_true] at hbefore
      rw [hindex, setGct_gct_self]
      dsimp only
      rw [hnot, if_neg Bool.false_ne_true]
      by_cases hbr : (b, r) = (b, row)
      · obtain ⟨-, rfl⟩ := Prod.mk.inj hbr
        rw [Exposure.activate_since_row, if_neg Bool.false_ne_true]
        omega
      · rw [Exposure.activate_since_of_row_ne hbr]
        omega
    · have hbr : (b, r) ≠ (bank, row) := by
        rintro heq
        obtain ⟨rfl, rfl⟩ := Prod.mk.inj heq
        exact hj rfl
      rw [setGct_gct_of_ne hj, Exposure.activate_since_of_row_ne hbr]
      exact hbefore
  · intro b r hr
    by_cases hbr : (b, r) = (bank, row)
    · obtain ⟨rfl, rfl⟩ := Prod.mk.inj hbr
      have hmost := h.most b r hr
      have hsince := h.since_lt hless b hr
      rw [Exposure.activate_most_row]
      omega
    · rw [Exposure.activate_most_of_row_ne hbr]
      exact h.most b r hr

/-- The counters of a group that is past its threshold are written. -/
theorem startGroup {i : Nat} (addr : AddrVec) (h : Tallies cfg s x) (hless : cfg.groupThreshold < cfg.trackingThreshold)
    (hgroup : 0 ≤ cfg.groupThreshold) (hpast : cfg.groupThreshold ≤ (s.gct bank i).groupCount) :
    Tallies cfg (s.initializeGroup (K := K) cfg addr bank i).1 x ∧
      ((s.initializeGroup (K := K) cfg addr bank i).1.gct bank i).initialized = true := by
  cases hinit : (s.gct bank i).initialized with
  | true =>
      rw [initializeGroup_of_started hinit]
      exact ⟨h, hinit⟩
  | false =>
      obtain ⟨hrcc, hgct, hrct⟩ := initializeGroup_of_new (K := K) addr hinit
      generalize (s.initializeGroup (K := K) cfg addr bank i).1 = s' at hrcc hgct hrct ⊢
      refine ⟨⟨?_, ?_, ?_, ?_, ?_, ?_, h.grouped, ?_, h.most⟩, ?_⟩
      · unfold Inv
        rw [hrcc]
        exact h.places
      · unfold Sixteen
        rw [hrcc]
        exact h.sixteen
      · -- an entry of the cache belongs to a group that was started before
        intro rank' i' tag e he
        rw [hrcc] at he
        obtain ⟨hcount, hstarted⟩ := h.backed rank' i' tag e he
        have hne : ¬ (e.flatBankId = bank ∧ e.rowId / cfg.rowGroupSize = i) := by
          rintro ⟨hb, hi⟩
          rw [hb, hi, hinit] at hstarted
          cases hstarted
        refine ⟨?_, ?_⟩
        · rw [hrct, if_neg hne]
          exact hcount
        · rw [hgct, if_neg fun heq => hne (Prod.mk.inj heq)]
          exact hstarted
      · intro b r
        rw [hrct]
        split
        · exact ⟨hgroup, hless⟩
        · exact h.counters b r
      · intro b j
        rw [hgct]
        split
        · exact h.groups bank i
        · exact h.groups b j
      · intro b j
        rw [hgct]
        split
        · exact fun _ => hpast
        · exact h.past b j
      · intro b r hr
        unfold tracked
        by_cases hnone : x.since b r = 0
        · -- nothing to count
          rw [hnone]
          split
          · rw [hrct]
            split
            · exact hgroup
            · exact (h.counters b r.toNat).1
          · rw [hgct]
            split
            · exact (h.groups bank i).1
            · exact (h.groups b _).1
        · have hbefore := h.tallied b r hr
          unfold tracked at hbefore
          have hindex := h.grouped b r hr hnone
          by_cases hown : b = bank ∧ r.toNat / cfg.rowGroupSize = i
          · obtain ⟨rfl, hi⟩ := hown
            rw [hindex, hi, hinit, if_neg Bool.false_ne_true] at hbefore
            rw [hindex, hi, hgct, if_pos rfl, if_pos rfl, hrct, if_pos ⟨rfl, hi⟩]
            exact hbefore.trans (h.groups b i).2
          · have hpair : ¬ (b, cfg.gctIndex r.toNat) = (bank, i) := by
              rw [hindex]
              exact fun heq => hown (Prod.mk.inj heq)
            rw [hgct, if_neg hpair, hrct, if_neg hown]
            exact hbefore
      · rw [hgct, if_pos rfl]

/-- An activation that the cache counts. -/
theorem track {row : Int} {out : Outcome Hydra K} (h : Tallies cfg s x)
    (hless : cfg.groupThreshold < cfg.trackingThreshold) (hrow : cfg.totalRctRowSize ≤ row)
    (hgrouped : cfg.gctIndex row.toNat = row.toNat / cfg.rowGroupSize)
    (hstarted : (s.gct bank (cfg.gctIndex row.toNat)).initialized = true)
    (hown : ∀ count, Cached cfg rank (cfg.rccIndex row.toNat) (cfg.rccTag row.toNat (bank % cfg.numBanksPerRank).toNat)
      ⟨row.toNat, bank, count, true, addr⟩)
    (htrack : s.trackRow cfg visiting addr rank bank row.toNat = .ok out) :
    Tallies cfg out.state (x.activate bank row (requests out.sends)) := by
  obtain ⟨entry, set, hstate, hentryRow, hentryBank, hkept, hkeys, hroom, hcount⟩ :=
    trackRow_cases h.places h.sixteen h.backed hown htrack
  have hplaces := (h.places.trackRow (hown _) htrack).1
  have hcounter := h.counters bank row.toNat
  have hsince := h.since_lt hless bank hrow
  have htallied := h.tallied bank row hrow
  have hwrites := writesRow cfg rank bank row.toNat entry set s
  rw [← hstate] at hwrites
  -- another row than this one
  have hother : ∀ {b r : Int}, cfg.totalRctRowSize ≤ r → (b, r) ≠ (bank, row) → (b, r.toNat) ≠ (bank, row.toNat) := by
    intro b r hr hne heq
    obtain ⟨rfl, hnat⟩ := Prod.mk.inj heq
    exact hne (by rw [show r = row by omega])
  constructor
  case places => exact hplaces
  case sixteen => exact hwrites.sixteen h.sixteen hkeys hroom
  case backed => exact hwrites.backed h.backed hplaces (hown 0) hentryRow hentryBank hkept (hgrouped ▸ hstarted)
  case counters =>
    have htracking := cfg.tracking_gt
    exact hwrites.counters h.counters (by omega)
  case groups =>
    rw [hwrites.gct]
    exact h.groups
  case past =>
    rw [hwrites.gct]
    exact h.past
  case grouped =>
    intro b r hr hne
    by_cases hbr : (b, r) = (bank, row)
    · obtain ⟨rfl, rfl⟩ := Prod.mk.inj hbr
      exact hgrouped
    · rw [Exposure.activate_since_of_row_ne hbr] at hne
      exact h.grouped b r hr hne
  case tallied =>
    intro b r hr
    by_cases hbr : (b, r) = (bank, row)
    · obtain ⟨rfl, rfl⟩ := Prod.mk.inj hbr
      unfold tracked at htallied
      rw [hstarted, if_pos rfl] at htallied
      rw [hwrites.tracked_self hstarted, Exposure.activate_since_row]
      rcases hcount with ⟨-, hn, hquiet⟩ | ⟨-, hn, hrequested⟩
      · rw [hquiet, if_neg Bool.false_ne_true, hn]
        omega
      · rw [hrequested, if_pos rfl, hn]
        rfl
    · rw [hwrites.tracked_ne (hother hr hbr), Exposure.activate_since_of_row_ne hbr]
      exact h.tallied b r hr
  case most =>
    intro b r hr
    by_cases hbr : (b, r) = (bank, row)
    · obtain ⟨rfl, rfl⟩ := Prod.mk.inj hbr
      have hmost := h.most b r hr
      rw [Exposure.activate_most_row]
      omega
    · rw [Exposure.activate_most_of_row_ne hbr]
      exact h.most b r hr

end Tallies

/-! ## Runs -/

/-- The place of an activation's row in the cache. -/
theorem WellGrouped.cached {c : Command} (h : WellGrouped cfg (.onIssue c addr visiting)) (hc : isActivation c = true)
    (hrow : cfg.totalRctRowSize ≤ addr.coord cfg.spec.rowLevel) (count : Int) :
    let row := (addr.coord cfg.spec.rowLevel).toNat
    let bank := cfg.spec.flatBankId addr
    Cached cfg (addr.coord cfg.rankLevel) (cfg.rccIndex row) (cfg.rccTag row (bank % cfg.numBanksPerRank).toNat)
      ⟨row, bank, count, true, addr⟩ := by
  obtain ⟨hlt, hnonneg, hrank⟩ := h.1 hc hrow
  refine ⟨?_, hnonneg, hrank, rfl, rfl⟩
  have hcast : ((2 ^ cfg.rowAddressBits : Nat) : Int) = 2 ^ cfg.rowAddressBits := by push_cast; rfl
  dsimp only
  omega

/-- A call keeps the tallies right. -/
theorem tallies_observe {call : PluginCall} {p p' : Hydra × Exposure} (hgroup : 0 ≤ cfg.groupThreshold)
    (hless : cfg.groupThreshold < cfg.trackingThreshold) (h : Tallies cfg p.1 p.2) (hwell : WellGrouped cfg call)
    (hstep : observe cfg call p = .ok p') : Tallies cfg p'.1 p'.2 := by
  obtain ⟨s, x⟩ := p
  cases call with
  | preSchedule =>
      obtain ⟨s', hs', rfl⟩ := except_map_eq_ok.mp hstep
      unfold preSchedule at hs'
      dsimp only at hs'
      split at hs'
      · cases hs'
      split at hs'
      · rename_i hreset
        rw [← Except.ok.inj hs', if_pos hreset]
        -- a reset begins from nothing
        exact Tallies.zero hgroup _
      · rename_i hreset
        rw [← Except.ok.inj hs', if_neg hreset]
        exact ⟨h.places, h.sixteen, h.backed, h.counters, h.groups, h.past, h.grouped, h.tallied, h.most⟩
  | onIssue c addr visiting =>
      obtain ⟨out, hout, rfl⟩ := except_map_eq_ok.mp hstep
      cases hc : isActivation c with
      | false =>
          rw [onIssue, hc, if_pos rfl] at hout
          rw [← Except.ok.inj hout, if_neg Bool.false_ne_true]
          exact h
      | true =>
          rw [if_pos rfl]
          rw [onIssue, hc, if_neg Bool.noConfusion] at hout
          dsimp only at hout ⊢
          split at hout
          · rename_i hregion
            rw [← Except.ok.inj hout]
            unfold onRctRow
            dsimp only
            split
            · exact h.region hregion rfl rfl rfl
            · exact h.region hregion rfl rfl rfl
          · rename_i hregion
            have hrow := Int.not_lt.mp hregion
            have hgrouped := hwell.2 hc hrow
            split at hout
            · rename_i hbelow
              rw [← Except.ok.inj hout]
              exact h.group hless hrow hgrouped hbelow
            · rename_i hpast
              obtain ⟨out', htrack, rfl⟩ := except_map_eq_ok.mp hout
              obtain ⟨hinit, hstarted⟩ := h.startGroup (K := Unit) addr hless hgroup (Int.not_lt.mp hpast)
              have hwrites := (initializeGroup_spec (K := Unit) cfg addr (cfg.spec.flatBankId addr)
                (cfg.gctIndex (addr.coord cfg.spec.rowLevel).toNat) s).2
              -- the group is past its threshold: its counters are set up first, then the row is counted alone
              have htracked := hinit.track hless hrow hgrouped hstarted (hwell.cached hc hrow) htrack
              dsimp only
              rw [requests_append, requests_of_ne hwrites, Bool.false_or]
              exact htracked

/-- Every activation that the calls make outside the region of the counters. -/
def Activates (cfg : HydraConfig) (calls : List PluginCall) (addr : AddrVec) : Prop :=
  ∃ c visiting, .onIssue c addr visiting ∈ calls ∧ isActivation c = true ∧
    cfg.totalRctRowSize ≤ addr.coord cfg.spec.rowLevel

/-- In every run whose activations are well grouped, with thresholds as `setup` expects them and whatever
is evicted: no two rows of a rank share a place in the cache; each of its entries holds the counter of its
row, and each set at most sixteen; and no row outside the region of the counters was activated more often,
since its last `VRR` request or the reset, than is tracked, nor ever more often than the threshold. -/
theorem never_undercounts {calls : List PluginCall} {s : Hydra} {x : Exposure} (hgroup : 0 ≤ cfg.groupThreshold)
    (hless : cfg.groupThreshold < cfg.trackingThreshold) (hwell : ∀ call ∈ calls, WellGrouped cfg call)
    (h : runAll (observe cfg) calls ({}, {}) = .ok (s, x)) :
    (∀ addr addr', Activates cfg calls addr → Activates cfg calls addr' →
      addr.coord cfg.rankLevel = addr'.coord cfg.rankLevel →
      let row := (addr.coord cfg.spec.rowLevel).toNat
      let row' := (addr'.coord cfg.spec.rowLevel).toNat
      cfg.rccIndex row = cfg.rccIndex row' →
      cfg.rccTag row (cfg.spec.flatBankId addr % cfg.numBanksPerRank).toNat =
        cfg.rccTag row' (cfg.spec.flatBankId addr' % cfg.numBanksPerRank).toNat →
      row = row' ∧ cfg.spec.flatBankId addr = cfg.spec.flatBankId addr') ∧
    (∀ rank i, (s.rcc rank i).length ≤ 16 ∧ ∀ tag e, (s.rcc rank i).lookup tag = some e →
      e.count = s.rct e.flatBankId e.rowId) ∧
    ∀ bank row : Int, cfg.totalRctRowSize ≤ row →
      (x.since bank row : Int) ≤ tracked cfg s bank row.toNat ∧ (x.most bank row : Int) ≤ cfg.trackingThreshold := by
  have htallies : Tallies cfg s x := runAll_invariant (fun p => Tallies cfg p.1 p.2) (WellGrouped cfg)
    (fun p call p' hp hcall hstep => tallies_observe hgroup hless hp hcall hstep) (Tallies.zero hgroup 0) hwell h
  refine ⟨?_, ?_, ?_⟩
  · rintro addr addr' ⟨c, visiting, hcall, hc, hrow⟩ ⟨c', visiting', hcall', hc', hrow'⟩ hrank row row' hindex htag
    have hplace := (hwell _ hcall).cached hc hrow 0
    have hplace' := (hwell _ hcall').cached hc' hrow' 0
    dsimp only at hplace hplace'
    rw [← hrank, ← hindex, ← htag] at hplace'
    exact hplace.unique hplace'
  · intro rank i
    exact ⟨(htallies.sixteen rank i).2, fun tag e he => (htallies.backed rank i tag e he).1⟩
  · intro bank row hrow
    exact ⟨htallies.tallied bank row hrow, htallies.most bank row hrow⟩

theorem one_lt_three : (1 : Int) < 3 := Int.ofNat_lt.mpr (Nat.lt_trans (Nat.lt_succ_self 1) (Nat.lt_succ_self 2))

theorem group_pos (g : Nat) : 0 < g + 1 := Nat.succ_pos g

/-- Sixteen rows in groups of `g + 1`; a group of one activation is past its threshold. -/
def groupsOf (g : Nat) : HydraConfig :=
  { RowTracker.smallHydra 16 with
    trackingThreshold := 3
    groupThreshold := 1
    rowGroupSize := g + 1
    tracking_gt := one_lt_three
    rowGroup_pos := group_pos g }

/-- An activation of row 3 of the first bank. -/
def hammer : PluginCall := .onIssue .ACT (RowTracker.smallAddr 0 3) {}

/-- In groups of four, two activations are tracked. -/
theorem never_undercounts_small : ∃ s x, runAll (observe (groupsOf 3)) [hammer, hammer] ({}, {}) = .ok (s, x) ∧
    x.since 0 3 = 2 ∧ (x.since 0 3 : Int) ≤ tracked (groupsOf 3) s 0 3 := by
  obtain ⟨p, hrun, hsince⟩ : ∃ p, runAll (observe (groupsOf 3)) [hammer, hammer] ({}, {}) = .ok p ∧
      p.2.since 0 3 = 2 := ⟨_, rfl, rfl⟩
  have hwell : ∀ call ∈ [hammer, hammer], WellGrouped (groupsOf 3) call := by decide
  exact ⟨p.1, p.2, hrun, hsince, ((never_undercounts (by decide) (by decide) hwell hrun).2.2 0 3 (by decide)).1⟩

/-- In groups of three, row 3 has the index of group 0, whose counters are those of rows 0 to 2. After two
activations one is tracked, and the fourth goes past the threshold of three. -/
theorem undercounts_groups_of_three :
    (∃ s x, runAll (observe (groupsOf 2)) [hammer, hammer] ({}, {}) = .ok (s, x) ∧
      ¬ (x.since 0 3 : Int) ≤ tracked (groupsOf 2) s 0 3) ∧
    ∃ s x, runAll (observe (groupsOf 2)) [hammer, hammer, hammer, hammer] ({}, {}) = .ok (s, x) ∧
      ¬ (x.most 0 3 : Int) ≤ (groupsOf 2).trackingThreshold :=
  ⟨⟨_, _, rfl, by decide⟩, ⟨_, _, rfl, by decide⟩⟩

end Ramulator.Controller.Hydra
