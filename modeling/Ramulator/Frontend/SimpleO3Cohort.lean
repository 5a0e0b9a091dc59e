/-
# Ramulator.Frontend.SimpleO3Cohort — the requests of a core do not depend on timing.

Two runs of a core on one trace are compared request by request, so the requests that a core hands to
its cache must be the same whatever the cache and the memory do in between. The list is fixed by the
trace and by the number of instructions of the region: a record belongs to it if, after its bubbles, the
region still has an instruction to issue. The load of a record and its store belong together: a region
that ends on the load takes the store along, a region that ends on a bubble takes neither.
-/
import Ramulator.Frontend.SimpleO3

namespace Ramulator.Frontend.O3

open Ramulator.Base (Request)
open Ramulator.Lib

/-- What a core asks for: the kind of access, the virtual address, the identity. -/
structure Access where
  typeId : Int
  addr : Int
  frontendId : Int
  deriving DecidableEq, Repr

/-- The part of a request that does not depend on time. -/
def accessOf (req : Req) : Access := ⟨req.typeId, req.addr, req.frontendId⟩

namespace CoreConfig

variable (cfg : CoreConfig)

/-! ## The list that the trace fixes -/

/-- The `i`-th record of the trace, repeated. -/
def record (i : Nat) : Inst := cfg.insts.get ⟨i % cfg.insts.length, Nat.mod_lt i cfg.insts_pos⟩

/-- The instructions of the records before the `i`-th. -/
def issuedBefore : Nat → Nat
  | 0 => 0
  | i + 1 => issuedBefore i + (cfg.record i).instructions

/-- The first identity that is free for the `i`-th record. -/
def idBefore : Nat → Int
  | 0 => 0
  | i + 1 => idBefore i + (cfg.record i).loadAddr.toList.length + (cfg.record i).storeAddr.toList.length

def loadsOf (i : Nat) : List Access :=
  (cfg.record i).loadAddr.toList.map fun addr => ⟨Request.read, addr, cfg.idBefore i⟩

def storesOf (i : Nat) : List Access :=
  (cfg.record i).storeAddr.toList.map fun addr =>
    ⟨Request.write, addr, cfg.idBefore i + (cfg.record i).loadAddr.toList.length⟩

/-- The accesses of a record, in order. -/
def accesses (i : Nat) : List Access := cfg.loadsOf i ++ cfg.storesOf i

/-- The bubbles of the record do not use up the region. -/
def inRegion (i : Nat) : Bool := cfg.issuedBefore i + (cfg.record i).bubbleCount < cfg.numExpectedInsts

/-- The accesses of the region. A region has no more records than instructions. -/
def cohort : List Access :=
  ((List.range cfg.numExpectedInsts).filter cfg.inRegion).flatMap cfg.accesses

/-- The accesses of the records before the `i`-th. -/
def before (i : Nat) : List Access := (List.range i).flatMap cfg.accesses

variable {cfg} {i j : Nat}

theorem issuedBefore_mono (h : i ≤ j) : cfg.issuedBefore i ≤ cfg.issuedBefore j := by
  induction h with
  | refl => exact le_refl _
  | step _ ih => exact ih.trans (Nat.le_add_right _ _)

theorem le_issuedBefore (cfg : CoreConfig) (i : Nat) : i ≤ cfg.issuedBefore i := by
  induction i with
  | zero => exact le_refl 0
  | succ i ih => exact Nat.add_le_add ih (cfg.record i).instructions_pos

theorem bubbles_le_issuedBefore (cfg : CoreConfig) (h : i < j) :
    cfg.issuedBefore i + (cfg.record i).bubbleCount ≤ cfg.issuedBefore j :=
  calc cfg.issuedBefore i + (cfg.record i).bubbleCount
      ≤ cfg.issuedBefore i + (cfg.record i).instructions :=
        Nat.add_le_add_left (Nat.le_add_right _ _) _
    _ = cfg.issuedBefore (i + 1) := rfl
    _ ≤ cfg.issuedBefore j := issuedBefore_mono h

theorem inRegion_of_le (h : i ≤ j) (hj : cfg.inRegion j = true) : cfg.inRegion i = true := by
  unfold inRegion at *
  rw [decide_eq_true_eq] at *
  rcases h.eq_or_lt with rfl | hlt
  · exact hj
  · have hstep := bubbles_le_issuedBefore cfg hlt
    omega

theorem before_succ (i : Nat) : cfg.before (i + 1) = cfg.before i ++ cfg.accesses i := by
  unfold before
  rw [List.range_succ, List.flatMap_append, List.flatMap_singleton]

/-- The records before one that is reached come first. -/
theorem cohort_split (hpast : ∀ j < i, cfg.inRegion j = true) :
    cfg.cohort = cfg.before i ++
      (((List.range (cfg.numExpectedInsts - i)).map (i + ·)).filter cfg.inRegion).flatMap cfg.accesses := by
  have hle : i ≤ cfg.numExpectedInsts := by
    cases i with
    | zero => exact Nat.zero_le _
    | succ k =>
        have hk := hpast k (Nat.lt_succ_self k)
        unfold inRegion at hk
        rw [decide_eq_true_eq] at hk
        have := le_issuedBefore cfg k
        omega
  have hrange : List.range cfg.numExpectedInsts =
      List.range i ++ (List.range (cfg.numExpectedInsts - i)).map (i + ·) := by
    rw [← List.range_add, Nat.add_sub_cancel' hle]
  have hall : (List.range i).filter cfg.inRegion = List.range i :=
    List.filter_eq_self.mpr fun j hj => hpast j (List.mem_range.mp hj)
  unfold cohort
  rw [hrange, List.filter_append, hall, List.flatMap_append]
  rfl

theorem before_prefix_cohort (hpast : ∀ j < i, cfg.inRegion j = true) : cfg.before i <+: cfg.cohort := by
  rw [cohort_split hpast]
  exact List.prefix_append _ _

/-- The first record that is not in the region ends it. -/
theorem cohort_eq_before (hpast : ∀ j < i, cfg.inRegion j = true) (hstop : cfg.inRegion i = false) :
    cfg.cohort = cfg.before i := by
  rw [cohort_split hpast]
  have hnone : ((List.range (cfg.numExpectedInsts - i)).map (i + ·)).filter cfg.inRegion = [] := by
    rw [List.filter_eq_nil_iff]
    intro j hj hin
    obtain ⟨k, -, rfl⟩ := List.mem_map.mp hj
    rw [inRegion_of_le (Nat.le_add_right i k) hin] at hstop
    cases hstop
  rw [hnone, List.flatMap_nil, List.append_nil]

/-- The record that holds the last instruction of the region, and what is taken of it. -/
theorem cohort_last (cfg : CoreConfig) : ∃ i,
    cfg.issuedBefore i < cfg.numExpectedInsts ∧ cfg.numExpectedInsts ≤ cfg.issuedBefore (i + 1) ∧
    cfg.cohort = cfg.before i ++
      if (cfg.record i).loadAddr.isSome ∧ cfg.numExpectedInsts = cfg.issuedBefore (i + 1) then
        cfg.accesses i else [] := by
  -- the first record after which enough instructions are issued
  have hex : ∃ n, cfg.numExpectedInsts ≤ cfg.issuedBefore n :=
    ⟨cfg.numExpectedInsts, le_issuedBefore cfg _⟩
  have hpos := cfg.numExpectedInsts_pos
  obtain ⟨i, hi⟩ : ∃ i, Nat.find hex = i + 1 := by
    refine Nat.exists_eq_succ_of_ne_zero fun hzero => ?_
    have hspec := Nat.find_spec hex
    rw [hzero] at hspec
    exact absurd hspec (not_le.mpr hpos)
  have hend : cfg.numExpectedInsts ≤ cfg.issuedBefore (i + 1) := by
    rw [← hi]
    exact Nat.find_spec hex
  have hlt : cfg.issuedBefore i < cfg.numExpectedInsts :=
    not_le.mp (Nat.find_min hex (by omega))
  have hpast : ∀ j < i, cfg.inRegion j = true := by
    intro j hj
    have hstep := bubbles_le_issuedBefore cfg hj
    unfold inRegion
    rw [decide_eq_true_eq]
    omega
  refine ⟨i, hlt, hend, ?_⟩
  -- a record with a load ends in the region only if its load is the last instruction
  have hin : cfg.inRegion i = true ↔
      (cfg.record i).loadAddr.isSome ∧ cfg.numExpectedInsts = cfg.issuedBefore (i + 1) := by
    have hsucc : cfg.issuedBefore (i + 1) = cfg.issuedBefore i +
        ((cfg.record i).bubbleCount + if (cfg.record i).loadAddr.isSome then 1 else 0) := rfl
    unfold inRegion
    rw [decide_eq_true_eq]
    by_cases hload : (cfg.record i).loadAddr.isSome = true
    · rw [if_pos hload] at hsucc
      simp only [hload, true_and]
      omega
    · rw [if_neg hload] at hsucc
      refine ⟨fun hroom => ?_, fun hlast => absurd hlast.1 hload⟩
      omega
  split_ifs with hlast
  · rw [← before_succ]
    refine cohort_eq_before (fun j hj => inRegion_of_le (Nat.le_of_lt_succ hj) (hin.mpr hlast)) ?_
    unfold inRegion
    rw [decide_eq_false_iff_not]
    omega
  · rw [List.append_nil]
    exact cohort_eq_before hpast (Bool.eq_false_iff.mpr fun h => hlast (hin.mp h))

end CoreConfig

/-! ## Runs of a core -/

namespace Core

variable {E : Type}

/-- A port that keeps a list of what it takes. -/
def logged (port : Port E) : Port (E × List Access) := fun req (e, log) =>
  (port req e).map fun (sent, e) => (sent, e, if sent.isSome then log ++ [accessOf req] else log)

/-- The steps of a core with the list of its accepted requests. The port answers as it likes, from any
state, and may be another one at each tick; a completion may come at any time. -/
inductive Step (cfg : CoreConfig) : Core × List Access → Core × List Access → Prop where
  | tick {E : Type} {s s' : Core} {log log' : List Access} (clk : Int) (port : Port E) (e e' : E)
      (h : s.tick cfg clk (logged port) (e, log) = .ok (s', e', log')) : Step cfg (s, log) (s', log')
  | receive {s s' : Core} {log : List Access} (req : Req) (h : s.receive cfg req = .ok s') :
      Step cfg (s, log) (s', log)
  | fastForward {s : Core} {log : List Access} (ticks : Int) :
      Step cfg (s, log) (s.fastForward cfg ticks, log)

/-- Some run of the core ends in `s` and has had `log` accepted. -/
def CohortRun (cfg : CoreConfig) (s : Core) (log : List Access) : Prop :=
  ∃ s₀, init cfg = .ok s₀ ∧ Reachable (s₀, []) (fun x (_ : Unit) y => Step cfg x y) (s, log)

theorem logged_refused {port : Port E} {req : Req} {e e' : E} {log log' : List Access}
    (h : logged port req (e, log) = .ok (none, e', log')) : log' = log := by
  obtain ⟨⟨sent, e₁⟩, -, heq⟩ := except_map_eq_ok.mp h
  cases heq
  rfl

theorem logged_taken {port : Port E} {req req' : Req} {e e' : E} {log log' : List Access}
    (h : logged port req (e, log) = .ok (some req', e', log')) : log' = log ++ [accessOf req] := by
  obtain ⟨⟨sent, e₁⟩, -, heq⟩ := except_map_eq_ok.mp h
  cases heq
  rfl

/-! ## Where a core is in its trace -/

/-- The `i`-th record is the current one, and the region is not over. -/
structure AtRecord (cfg : CoreConfig) (s : Core) (i : Nat) : Prop where
  idx : s.currTraceIdx = i % cfg.insts.length + 1
  past : ∀ j < i, cfg.inRegion j = true
  roi : s.roiIssueComplete = false
  loadId : (cfg.record i).loadAddr.isSome = true → s.loadFrontendId = cfg.idBefore i
  storeId : (cfg.record i).storeAddr.isSome = true →
    s.writebackFrontendId = cfg.idBefore i + (cfg.record i).loadAddr.toList.length
  nextId : s.nextFrontendId = cfg.idBefore (i + 1)

/-- The accepted requests, as far as the core has got: nothing of its record is sent, only its store is
missing, the store of the last record is missing, or nothing is. -/
inductive Stage (cfg : CoreConfig) (s : Core) (log : List Access) : Prop where
  | fresh (i : Nat) (at_ : AtRecord cfg s i) (hload : s.loadAddr = (cfg.record i).loadAddr)
      (hstore : s.writebackAddr = (cfg.record i).storeAddr)
      (hcount : s.instsIssued + s.numBubbles = cfg.issuedBefore i + (cfg.record i).bubbleCount)
      (hlog : log = cfg.before i)
  | store (i : Nat) (at_ : AtRecord cfg s i) (hin : cfg.inRegion i = true) (hload : s.loadAddr = none)
      (hstore : s.writebackAddr = (cfg.record i).storeAddr) (hbubbles : s.numBubbles = 0)
      (hcount : s.instsIssued = cfg.issuedBefore (i + 1))
      (hlog : log = cfg.before i ++ cfg.loadsOf i)
  | lastStore (addr : Int) (hroi : s.roiIssueComplete = true)
      (hlast : s.issueCurrentWritebackAfterRoi = true) (hstore : s.writebackAddr = some addr)
      (hlog : log ++ [⟨Request.write, addr, s.writebackFrontendId⟩] = cfg.cohort)
  | done (hroi : s.roiIssueComplete = true) (hlast : s.issueCurrentWritebackAfterRoi = false)
      (hlog : log = cfg.cohort)

variable {cfg : CoreConfig} {s s' : Core} {log log' : List Access} {i : Nat}

/-- The index of the next record, as the trace wraps. -/
theorem wrapped_index (h : s.currTraceIdx = i % cfg.insts.length + 1) :
    (if s.currTraceIdx = cfg.insts.length then 0 else s.currTraceIdx) = (i + 1) % cfg.insts.length := by
  have hlt := Nat.mod_lt i cfg.insts_pos
  rw [h, ← Nat.mod_add_mod]
  split_ifs with hend
  · rw [hend, Nat.mod_self]
  · exact (Nat.mod_eq_of_lt (by omega)).symm

/-- The identities that a record gets. -/
theorem take_ids (s : Core) (idx : Nat) (inst : Inst) :
    (inst.loadAddr.isSome = true → (s.take idx inst).loadFrontendId = s.nextFrontendId) ∧
    (inst.storeAddr.isSome = true →
      (s.take idx inst).writebackFrontendId = s.nextFrontendId + inst.loadAddr.toList.length) ∧
    (s.take idx inst).nextFrontendId =
      s.nextFrontendId + inst.loadAddr.toList.length + inst.storeAddr.toList.length := by
  unfold take
  cases inst.loadAddr <;> cases inst.storeAddr <;> simp

/-- A core whose record is used up takes the next one. -/
theorem Stage.fetch (hidx : s.currTraceIdx = i % cfg.insts.length + 1)
    (hpast : ∀ j < i + 1, cfg.inRegion j = true) (hnext : s.nextFrontendId = cfg.idBefore (i + 1))
    (hcount : s.instsIssued = cfg.issuedBefore (i + 1)) (hlog : log = cfg.before (i + 1))
    (h : s.fetchNextTraceInst cfg = .ok s') : Stage cfg s' log := by
  obtain ⟨hroi, idx, inst, hwrap, -, hinst, rfl⟩ := fetch_cases h
  rw [wrapped_index hidx] at hwrap
  subst hwrap
  have hrecord : cfg.record (i + 1) = inst := by
    have hlt := Nat.mod_lt (i + 1) cfg.insts_pos
    rw [List.getElem?_eq_getElem hlt] at hinst
    exact Option.some.inj hinst
  subst hrecord
  refine .fresh (i + 1) ⟨rfl, hpast, hroi, fun hload => ?_, fun hstore => ?_, ?_⟩ rfl rfl ?_ hlog
  · rw [(take_ids s _ _).1 hload, hnext]
  · rw [(take_ids s _ _).2.1 hstore, hnext]
  · rw [(take_ids s _ _).2.2, hnext]
    rfl
  · show s.instsIssued + _ = _
    rw [hcount]
    rfl

theorem AtRecord.bubbled (h : AtRecord cfg s i) (k : Nat) : AtRecord cfg (s.bubbled k) i :=
  ⟨h.idx, h.past, h.roi, h.loadId, h.storeId, h.nextId⟩

theorem AtRecord.insertLoad (h : AtRecord cfg s i) (req : Req) : AtRecord cfg (s.insertLoad req) i :=
  ⟨h.idx, h.past, h.roi, h.loadId, h.storeId, h.nextId⟩

theorem AtRecord.sent (h : AtRecord cfg s i) : AtRecord cfg { s with writebackAddr := none } i :=
  ⟨h.idx, h.past, h.roi, h.loadId, h.storeId, h.nextId⟩

/-- The load that is sent is that of the record. -/
theorem AtRecord.loadsOf {addr : Int} (h : AtRecord cfg s i)
    (hload : (cfg.record i).loadAddr = some addr) :
    cfg.loadsOf i = [accessOf (s.loadRequest cfg addr)] := by
  have hid := h.loadId (by rw [hload]; rfl)
  unfold CoreConfig.loadsOf
  rw [hload, ← hid]
  rfl

theorem AtRecord.storesOf {addr : Int} (h : AtRecord cfg s i)
    (hstore : (cfg.record i).storeAddr = some addr) :
    cfg.storesOf i = [accessOf (s.writebackRequest cfg addr)] := by
  have hid := h.storeId (by rw [hstore]; rfl)
  unfold CoreConfig.storesOf
  rw [hstore, ← hid]
  rfl

theorem loadsOf_of_none (h : (cfg.record i).loadAddr = none) : cfg.loadsOf i = [] := by
  unfold CoreConfig.loadsOf
  rw [h]
  rfl

theorem storesOf_of_none (h : (cfg.record i).storeAddr = none) : cfg.storesOf i = [] := by
  unfold CoreConfig.storesOf
  rw [h]
  rfl

/-- The instructions up to the end of a record. -/
theorem issuedBefore_succ_of_load (h : (cfg.record i).loadAddr.isSome = true) :
    cfg.issuedBefore (i + 1) = cfg.issuedBefore i + (cfg.record i).bubbleCount + 1 := by
  show cfg.issuedBefore i + ((cfg.record i).bubbleCount + if _ then 1 else 0) = _
  rw [if_pos h]
  omega

theorem issuedBefore_succ_of_none (h : (cfg.record i).loadAddr = none) :
    cfg.issuedBefore (i + 1) = cfg.issuedBefore i + (cfg.record i).bubbleCount := by
  show cfg.issuedBefore i + ((cfg.record i).bubbleCount + if (cfg.record i).loadAddr.isSome then 1 else 0) = _
  rw [h]
  rfl

theorem inRegion_iff : cfg.inRegion i = true ↔
    cfg.issuedBefore i + (cfg.record i).bubbleCount < cfg.numExpectedInsts := by
  unfold CoreConfig.inRegion
  rw [decide_eq_true_eq]

/-- A record whose store has just been accepted, or that has none, is complete. -/
theorem Stage.next (at_ : AtRecord cfg s i) (hin : cfg.inRegion i = true)
    (hcount : s.instsIssued = cfg.issuedBefore (i + 1))
    (hlog : log = cfg.before i ++ (cfg.loadsOf i ++ cfg.storesOf i))
    (h : s.fetchNextTraceInst cfg = .ok s') : Stage cfg s' log := by
  refine Stage.fetch at_.idx (fun j hj => ?_) at_.nextId hcount ?_ h
  · rcases Nat.lt_succ_iff_lt_or_eq.mp hj with hlt | rfl
    · exact at_.past j hlt
    · exact hin
  · rw [hlog, CoreConfig.before_succ]
    rfl

/-- The region ends on a bubble of the record: none of its accesses belongs to it. -/
theorem Stage.lastBubble {k : Nat} (at_ : AtRecord cfg s i)
    (hcount : s.instsIssued + s.numBubbles = cfg.issuedBefore i + (cfg.record i).bubbleCount)
    (hlog : log = cfg.before i) (hk : k ≤ s.numBubbles) (hend : s.instsIssued + k = cfg.numExpectedInsts) :
    Stage cfg ((s.bubbled k).finished false) log := by
  refine .done rfl rfl (hlog.trans (CoreConfig.cohort_eq_before at_.past ?_).symm)
  refine Bool.eq_false_iff.mpr fun hin => ?_
  rw [inRegion_iff] at hin
  omega

/-- The region ends on the load of the record: its store is still to come. -/
theorem Stage.lastLoad {addr : Int} {req : Req} (at_ : AtRecord cfg s i)
    (hload : (cfg.record i).loadAddr = some addr) (hstore : s.writebackAddr = (cfg.record i).storeAddr)
    (hcount : s.instsIssued + s.numBubbles = cfg.issuedBefore i + (cfg.record i).bubbleCount)
    (hend : s.instsIssued + s.numBubbles + 1 = cfg.numExpectedInsts) :
    Stage cfg (((s.bubbled s.numBubbles).insertLoad req).finished true)
      (cfg.before i ++ [accessOf (s.loadRequest cfg addr)]) := by
  have hin : cfg.inRegion i = true := inRegion_iff.mpr (by omega)
  have hsucc := issuedBefore_succ_of_load (Option.isSome_of_mem hload)
  have hstop : cfg.inRegion (i + 1) = false := by
    refine Bool.eq_false_iff.mpr fun hin => ?_
    rw [inRegion_iff] at hin
    omega
  have hcohort : cfg.cohort = cfg.before i ++ [accessOf (s.loadRequest cfg addr)] ++ cfg.storesOf i := by
    rw [CoreConfig.cohort_eq_before (fun j hj => CoreConfig.inRegion_of_le (Nat.le_of_lt_succ hj) hin)
      hstop, CoreConfig.before_succ, List.append_assoc]
    unfold CoreConfig.accesses
    rw [at_.loadsOf hload]
  cases hwb : (cfg.record i).storeAddr with
  | none =>
      rw [hwb] at hstore
      rw [storesOf_of_none hwb, List.append_nil] at hcohort
      refine .done rfl ?_ hcohort.symm
      show (true && s.writebackAddr.isSome) = false
      rw [hstore]
      rfl
  | some store =>
      rw [hwb] at hstore
      rw [at_.storesOf hwb] at hcohort
      refine .lastStore store rfl ?_ ?_ hcohort.symm
      · show (true && s.writebackAddr.isSome) = true
        rw [hstore]
        rfl
      · show (if (true && s.writebackAddr.isSome) = true then s.writebackAddr else none) = some store
        rw [hstore]
        rfl

section Issue

variable {port : Port E} {e e' : E}

/-- After the region only the store of the last record may be sent. -/
theorem Stage.issue_lastStore {addr : Int} (hroi : s.roiIssueComplete = true)
    (hlast : s.issueCurrentWritebackAfterRoi = true) (hstore : s.writebackAddr = some addr)
    (hlog : log ++ [⟨Request.write, addr, s.writebackFrontendId⟩] = cfg.cohort)
    (hissue : Issue cfg (logged port) s (e, log) s' (e', log')) : Stage cfg s' log' := by
  cases hissue with
  | quiescent _ hno => exact absurd (hlast.symm.trans hno) nofun
  | lastRefused _ _ hport =>
      have hsame := logged_refused hport
      subst hsame
      exact .lastStore addr hroi hlast hstore hlog
  | lastSent _ _ hport =>
      have hsent := logged_taken hport
      refine .done hroi rfl ?_
      rw [← hlog, hsent, hstore]
      rfl
  | bubbles hno | lastBubble hno | loadWaits hno | loadRefused hno | lastLoad hno | loadSent hno
  | loadOnly hno | noAccess hno | storeRefused hno | storeSent hno =>
      exact absurd (hroi.symm.trans hno) nofun

/-- In the end nothing is sent. -/
theorem Stage.issue_done (hroi : s.roiIssueComplete = true) (hlast : s.issueCurrentWritebackAfterRoi = false)
    (hlog : log = cfg.cohort) (hissue : Issue cfg (logged port) s (e, log) s' (e', log')) : Stage cfg s' log' := by
  cases hissue with
  | quiescent => exact .done hroi hlast hlog
  | lastRefused _ hno | lastSent _ hno => exact absurd (hlast.symm.trans hno) nofun
  | bubbles hno | lastBubble hno | loadWaits hno | loadRefused hno | lastLoad hno | loadSent hno
  | loadOnly hno | noAccess hno | storeRefused hno | storeSent hno =>
      exact absurd (hroi.symm.trans hno) nofun

/-- A record whose load is sent waits for its store. -/
theorem Stage.issue_store (at_ : AtRecord cfg s i) (hin : cfg.inRegion i = true) (hload : s.loadAddr = none)
    (hstore : s.writebackAddr = (cfg.record i).storeAddr) (hbubbles : s.numBubbles = 0)
    (hcount : s.instsIssued = cfg.issuedBefore (i + 1)) (hlog : log = cfg.before i ++ cfg.loadsOf i)
    (hissue : Issue cfg (logged port) s (e, log) s' (e', log')) : Stage cfg s' log' := by
  have hcount' : (s.bubbled s.numBubbles).instsIssued = cfg.issuedBefore (i + 1) := by
    show s.instsIssued + s.numBubbles = _
    omega
  cases hissue with
  | quiescent hno | lastRefused hno | lastSent hno => exact absurd (at_.roi.symm.trans hno) nofun
  | bubbles _ hk => omega
  | lastBubble _ hpos hk => omega
  | loadWaits _ _ hno | loadRefused _ _ hno | lastLoad _ hno | loadSent _ hno | loadOnly _ hno =>
      exact absurd (hload.symm.trans hno) nofun
  | noAccess _ _ hnone _ hfetch =>
      refine Stage.next (at_.bubbled _) hin hcount' ?_ hfetch
      rw [storesOf_of_none (hstore.symm.trans hnone), List.append_nil]
      exact hlog
  | storeRefused _ _ _ _ hport =>
      have hsame := logged_refused hport
      subst hsame
      refine .store i (at_.bubbled _) hin hload hstore ?_ hcount' hlog
      exact Nat.sub_self _
  | storeSent _ _ haddr _ hport hfetch =>
      have hsent := logged_taken hport
      refine Stage.next (at_.bubbled _).sent hin hcount' ?_ hfetch
      rw [at_.storesOf (hstore.symm.trans haddr), ← List.append_assoc, ← hlog]
      exact hsent

section

variable {addr : Int} {req : Req} (at_ : AtRecord cfg s i)
  (hcount : s.instsIssued + s.numBubbles = cfg.issuedBefore i + (cfg.record i).bubbleCount) (hlog : log = cfg.before i)
include at_ hcount hlog

/-- The bubbles of the record are issued, and its access is not. -/
theorem Stage.waits (hload : s.loadAddr = (cfg.record i).loadAddr) (hstore : s.writebackAddr = (cfg.record i).storeAddr) :
    Stage cfg (s.bubbled s.numBubbles) log := by
  refine .fresh i (at_.bubbled _) hload hstore ?_ hlog
  show s.instsIssued + s.numBubbles + (s.numBubbles - s.numBubbles) = _
  omega

/-- The load of the record is sent, and its store is left. -/
theorem Stage.sentLoad (hload : (cfg.record i).loadAddr = some addr)
    (hstore : s.writebackAddr = (cfg.record i).storeAddr)
    (hroom : s.instsIssued + s.numBubbles + 1 < cfg.numExpectedInsts) :
    Stage cfg ((s.bubbled s.numBubbles).insertLoad req) (log ++ [accessOf (s.loadRequest cfg addr)]) := by
  have hsucc := issuedBefore_succ_of_load (Option.isSome_of_mem hload)
  refine .store i ((at_.bubbled _).insertLoad _) (inRegion_iff.mpr (by omega)) rfl hstore (Nat.sub_self _) ?_ ?_
  · show s.instsIssued + s.numBubbles + 1 = _
    omega
  · rw [at_.loadsOf hload, hlog]

/-- The load of the record is sent, and it has no store. -/
theorem Stage.sentOnly (hload : (cfg.record i).loadAddr = some addr) (hstore : (cfg.record i).storeAddr = none)
    (hroom : s.instsIssued + s.numBubbles + 1 < cfg.numExpectedInsts)
    (hfetch : ((s.bubbled s.numBubbles).insertLoad req).fetchNextTraceInst cfg = .ok s') :
    Stage cfg s' (log ++ [accessOf (s.loadRequest cfg addr)]) := by
  have hsucc := issuedBefore_succ_of_load (Option.isSome_of_mem hload)
  refine Stage.next ((at_.bubbled _).insertLoad _) (inRegion_iff.mpr (by omega)) ?_ ?_ hfetch
  · show s.instsIssued + s.numBubbles + 1 = _
    omega
  · rw [at_.loadsOf hload, storesOf_of_none hstore, List.append_nil, hlog]

/-- The record has no access. -/
theorem Stage.noAccess (hload : (cfg.record i).loadAddr = none) (hstore : (cfg.record i).storeAddr = none)
    (hroom : s.instsIssued + s.numBubbles < cfg.numExpectedInsts)
    (hfetch : (s.bubbled s.numBubbles).fetchNextTraceInst cfg = .ok s') : Stage cfg s' log := by
  have hsucc := issuedBefore_succ_of_none hload
  refine Stage.next (at_.bubbled _) (inRegion_iff.mpr (hcount ▸ hroom)) (hcount.trans hsucc.symm) ?_ hfetch
  rw [loadsOf_of_none hload, storesOf_of_none hstore, List.append_nil, List.append_nil]
  exact hlog

/-- The store of the record is sent, and it has no load. -/
theorem Stage.sentStore (hload : (cfg.record i).loadAddr = none) (hstore : (cfg.record i).storeAddr = some addr)
    (hroom : s.instsIssued + s.numBubbles < cfg.numExpectedInsts)
    (hfetch : { s.bubbled s.numBubbles with writebackAddr := none }.fetchNextTraceInst cfg = .ok s') :
    Stage cfg s' (log ++ [accessOf (s.writebackRequest cfg addr)]) := by
  have hsucc := issuedBefore_succ_of_none hload
  refine Stage.next (at_.bubbled _).sent (inRegion_iff.mpr (hcount ▸ hroom)) (hcount.trans hsucc.symm) ?_ hfetch
  rw [loadsOf_of_none hload, at_.storesOf hstore, List.nil_append, hlog]

/-- The record has been taken. -/
theorem Stage.issue_fresh (hload : s.loadAddr = (cfg.record i).loadAddr)
    (hstore : s.writebackAddr = (cfg.record i).storeAddr)
    (hissue : Issue cfg (logged port) s (e, log) s' (e', log')) : Stage cfg s' log' := by
  cases hissue with
  | quiescent hno | lastRefused hno | lastSent hno => exact absurd (at_.roi.symm.trans hno) nofun
  | bubbles _ hk =>
      refine .fresh i (at_.bubbled _) hload hstore ?_ hlog
      show s.instsIssued + _ + (s.numBubbles - _) = _
      omega
  | lastBubble _ _ hk hend => exact Stage.lastBubble at_ hcount hlog hk hend
  | loadWaits => exact Stage.waits at_ hcount hlog hload hstore
  | loadRefused _ _ _ hport | storeRefused _ _ _ _ hport =>
      rw [logged_refused hport]
      exact Stage.waits at_ hcount hlog hload hstore
  | lastLoad _ haddr hend hport =>
      rw [logged_taken hport, hlog]
      exact Stage.lastLoad at_ (hload.symm.trans haddr) hstore hcount hend
  | loadSent _ haddr _ hroom hport =>
      rw [logged_taken hport]
      exact Stage.sentLoad at_ hcount hlog (hload.symm.trans haddr) hstore hroom
  | loadOnly _ haddr hnone hroom hport hfetch =>
      rw [logged_taken hport]
      exact Stage.sentOnly at_ hcount hlog (hload.symm.trans haddr) (hstore.symm.trans hnone) hroom hfetch
  | noAccess _ hno hnone hroom hfetch =>
      exact Stage.noAccess at_ hcount hlog (hload.symm.trans hno) (hstore.symm.trans hnone) hroom hfetch
  | storeSent _ hno haddr hroom hport hfetch =>
      rw [logged_taken hport]
      exact Stage.sentStore at_ hcount hlog (hload.symm.trans hno) (hstore.symm.trans haddr) hroom hfetch

end

/-- One tick: the accepted requests grow along the list that the trace fixes. -/
theorem Stage.issue (h : Stage cfg s log) (hissue : Issue cfg (logged port) s (e, log) s' (e', log')) :
    Stage cfg s' log' := by
  cases h with
  | fresh i at_ hload hstore hcount hlog => exact Stage.issue_fresh at_ hcount hlog hload hstore hissue
  | store i at_ hin hload hstore hbubbles hcount hlog =>
      exact Stage.issue_store at_ hin hload hstore hbubbles hcount hlog hissue
  | lastStore addr hroi hlast hstore hlog => exact Stage.issue_lastStore hroi hlast hstore hlog hissue
  | done hroi hlast hlog => exact Stage.issue_done hroi hlast hlog hissue

end Issue

/-! ## Steps that do not issue -/

/-- The part of a core that decides what it issues next. -/
structure SameTrace (s s' : Core) : Prop where
  idx : s'.currTraceIdx = s.currTraceIdx
  roi : s'.roiIssueComplete = s.roiIssueComplete
  last : s'.issueCurrentWritebackAfterRoi = s.issueCurrentWritebackAfterRoi
  issued : s'.instsIssued = s.instsIssued
  bubbles : s'.numBubbles = s.numBubbles
  load : s'.loadAddr = s.loadAddr
  store : s'.writebackAddr = s.writebackAddr
  loadId : s'.loadFrontendId = s.loadFrontendId
  storeId : s'.writebackFrontendId = s.writebackFrontendId
  nextId : s'.nextFrontendId = s.nextFrontendId

theorem SameTrace.atRecord (h : SameTrace s s') (hat : AtRecord cfg s i) : AtRecord cfg s' i where
  idx := h.idx.trans hat.idx
  past := hat.past
  roi := h.roi.trans hat.roi
  loadId := fun hsome => h.loadId.trans (hat.loadId hsome)
  storeId := fun hsome => h.storeId.trans (hat.storeId hsome)
  nextId := h.nextId.trans hat.nextId

theorem SameTrace.stage (h : SameTrace s s') (hs : Stage cfg s log) : Stage cfg s' log := by
  cases hs with
  | fresh i at_ hload hstore hcount hlog =>
      exact .fresh i (h.atRecord at_) (h.load.trans hload) (h.store.trans hstore)
        (h.issued ▸ h.bubbles ▸ hcount) hlog
  | store i at_ hin hload hstore hbubbles hcount hlog =>
      exact .store i (h.atRecord at_) hin (h.load.trans hload) (h.store.trans hstore)
        (h.bubbles.trans hbubbles) (h.issued.trans hcount) hlog
  | lastStore addr hroi hlast hstore hlog =>
      exact .lastStore addr (h.roi.trans hroi) (h.last.trans hlast) (h.store.trans hstore)
        (h.storeId ▸ hlog)
  | done hroi hlast hlog => exact .done (h.roi.trans hroi) (h.last.trans hlast) hlog

theorem sameTrace_countBlocked (cfg : CoreConfig) (ticks : Int) (s : Core) :
    SameTrace s (s.countBlocked cfg ticks) := by
  unfold countBlocked
  split_ifs <;> exact ⟨rfl, rfl, rfl, rfl, rfl, rfl, rfl, rfl, rfl, rfl⟩

theorem sameTrace_retire (cfg : CoreConfig) (clk : Int) (s : Core) : SameTrace s (s.retire cfg clk) := by
  have hcount := sameTrace_countBlocked cfg 1
    { s with
      window := (retireFrom cfg.ipc s.window).1
      instsRetired := s.instsRetired + (retireFrom cfg.ipc s.window).2 }
  unfold retire
  dsimp only
  split_ifs
  · exact ⟨hcount.idx, hcount.roi, hcount.last, hcount.issued, hcount.bubbles, hcount.load, hcount.store,
      hcount.loadId, hcount.storeId, hcount.nextId⟩
  · exact ⟨hcount.idx, hcount.roi, hcount.last, hcount.issued, hcount.bubbles, hcount.load, hcount.store,
      hcount.loadId, hcount.storeId, hcount.nextId⟩

theorem sameTrace_receive {req : Req} (h : s.receive cfg req = .ok s') : SameTrace s s' := by
  obtain ⟨-, -, hroi, hlast, hissued, hbubbles, hload, hstore, hloadId, hstoreId, hnext, hidx⟩ :=
    receive_frame h
  exact ⟨hidx, hroi, hlast, hissued, hbubbles, hload, hstore, hloadId, hstoreId, hnext⟩

/-! ## Every run -/

theorem Stage.init (h : init cfg = .ok s) : Stage cfg s [] := by
  obtain ⟨-, idx, inst, hidx, -, hinst, rfl⟩ := fetch_cases h
  have hzero : idx = 0 := by
    rw [hidx]
    split_ifs <;> rfl
  subst hzero
  have hrecord : cfg.record 0 = inst := by
    rw [List.getElem?_eq_getElem cfg.insts_pos] at hinst
    have hget := Option.some.inj hinst
    unfold CoreConfig.record
    simpa using hget
  subst hrecord
  obtain ⟨hload, hstore, hnext⟩ := take_ids {} 0 (cfg.record 0)
  exact .fresh 0 ⟨(congrArg (· + 1) (Nat.zero_mod _)).symm, nofun, rfl, hload, hstore, hnext⟩ rfl rfl rfl rfl

theorem CohortRun.stage (h : CohortRun cfg s log) : Ok cfg s ∧ Stage cfg s log := by
  obtain ⟨s₀, hinit, hreach⟩ := h
  refine hreach.invariant (fun x => Ok cfg x.1 ∧ Stage cfg x.1 x.2) ⟨Ok.init hinit, Stage.init hinit⟩ ?_
  rintro _ - _ ⟨hok, hstage⟩ hstep
  cases hstep with
  | tick clk port e e' htick =>
      refine ⟨hok.tick htick, ?_⟩
      have hretired := (sameTrace_retire cfg clk _).stage hstage
      exact hretired.issue (issue_spec (hok.retire clk).issuing htick)
  | receive req hreceive => exact ⟨hok.receive hreceive, (sameTrace_receive hreceive).stage hstage⟩
  | fastForward ticks => exact ⟨hok.fastForward ticks, (sameTrace_countBlocked cfg ticks _).stage hstage⟩

theorem Stage.prefix_cohort (h : Stage cfg s log) : log <+: cfg.cohort := by
  cases h with
  | fresh i at_ _ _ _ hlog =>
      rw [hlog]
      exact CoreConfig.before_prefix_cohort at_.past
  | store i at_ hin _ _ _ _ hlog =>
      have hpast := CoreConfig.before_prefix_cohort fun j hj =>
        CoreConfig.inRegion_of_le (Nat.le_of_lt_succ hj) hin
      refine List.IsPrefix.trans ?_ hpast
      rw [hlog, CoreConfig.before_succ]
      exact List.prefix_append_right_inj _ |>.mpr (List.prefix_append _ _)
  | lastStore addr _ _ _ hlog => exact ⟨_, hlog⟩
  | done _ _ hlog => exact hlog ▸ List.prefix_refl _

theorem Stage.eq_cohort (h : Stage cfg s log) (hdone : s.issueRoiQuiescent = true) :
    log = cfg.cohort := by
  unfold issueRoiQuiescent at hdone
  rw [Bool.and_eq_true, Bool.not_eq_true'] at hdone
  cases h with
  | fresh i at_ | store i at_ => exact absurd (at_.roi.symm.trans hdone.1) nofun
  | lastStore addr _ hlast => exact absurd (hlast.symm.trans hdone.2) nofun
  | done _ _ hlog => exact hlog

theorem Ok.instsIssued_le (h : Ok cfg s) : s.instsIssued ≤ cfg.numExpectedInsts := by
  cases hroi : s.roiIssueComplete with
  | false => exact (h.issuing hroi).le
  | true => exact (h.issued hroi).le

/-- Whatever translation, cache and memory do, the accepted requests of two runs are prefixes of one
list, and the same list once both have issued their region. The record that holds the last instruction
of the region brings its load and its store if that instruction is its load; if it is one of its
bubbles, neither belongs to the region. Nothing of later records does. -/
theorem cohort_timing_invariant (cfg : CoreConfig) {s₁ s₂ : Core} {log₁ log₂ : List Access}
    (h₁ : CohortRun cfg s₁ log₁) (h₂ : CohortRun cfg s₂ log₂) :
    log₁ <+: cfg.cohort ∧ log₂ <+: cfg.cohort ∧
    (s₁.issueRoiQuiescent = true → s₂.issueRoiQuiescent = true → log₁ = cfg.cohort ∧ log₁ = log₂) ∧
    s₁.instsIssued ≤ cfg.numExpectedInsts ∧ s₂.instsIssued ≤ cfg.numExpectedInsts ∧
    ∃ i, cfg.issuedBefore i < cfg.numExpectedInsts ∧ cfg.numExpectedInsts ≤ cfg.issuedBefore (i + 1) ∧
      cfg.cohort = cfg.before i ++
        if (cfg.record i).loadAddr.isSome ∧ cfg.numExpectedInsts = cfg.issuedBefore (i + 1) then
          cfg.accesses i else [] := by
  obtain ⟨hok₁, hstage₁⟩ := h₁.stage
  obtain ⟨hok₂, hstage₂⟩ := h₂.stage
  refine ⟨hstage₁.prefix_cohort, hstage₂.prefix_cohort, fun hdone₁ hdone₂ => ?_, hok₁.instsIssued_le,
    hok₂.instsIssued_le, cfg.cohort_last⟩
  exact ⟨hstage₁.eq_cohort hdone₁, (hstage₁.eq_cohort hdone₁).trans (hstage₂.eq_cohort hdone₂).symm⟩

/-! ## The cores of the frontend -/

/-- Keeping the list changes nothing else. -/
theorem logged_ok {port : Port E} {req : Req} {e e' : E} {sent : Option Req}
    (h : port req e = .ok (sent, e')) (log : List Access) :
    ∃ log', logged port req (e, log) = .ok (sent, e', log') := by
  unfold logged
  dsimp only
  rw [h]
  exact ⟨_, rfl⟩

theorem issueLoad_logged {port : Port E} {inserted : Nat} {e e' : E} {goesOn : Bool}
    (h : s.issueLoad cfg port inserted e = .ok (s', e', goesOn)) (log : List Access) :
    ∃ log', s.issueLoad cfg (logged port) inserted (e, log) = .ok (s', (e', log'), goesOn) := by
  unfold issueLoad at *
  cases hload : s.loadAddr with
  | none =>
      simp only [hload] at h ⊢
      cases h
      exact ⟨log, rfl⟩
  | some addr =>
      simp only [hload] at h ⊢
      split_ifs at h ⊢
      · cases h
        exact ⟨log, rfl⟩
      · cases h
        exact ⟨log, rfl⟩
      · obtain ⟨⟨sent, e₁⟩, hport, h⟩ := except_bind_eq_ok.mp h
        obtain ⟨log', hlog⟩ := logged_ok hport log
        refine ⟨log', except_bind_eq_ok.mpr ⟨_, hlog, ?_⟩⟩
        cases sent with
        | none =>
            cases h
            rfl
        | some req =>
            dsimp only at h ⊢
            split_ifs at h ⊢
            · obtain ⟨t, ht, heq⟩ := except_map_eq_ok.mp h
              cases heq
              exact except_map_eq_ok.mpr ⟨_, ht, rfl⟩
            · cases h
              rfl

theorem issueWriteback_logged {port : Port E} {e e' : E}
    (h : s.issueWriteback cfg port e = .ok (s', e')) (log : List Access) :
    ∃ log', s.issueWriteback cfg (logged port) (e, log) = .ok (s', e', log') := by
  unfold issueWriteback at *
  cases hstore : s.writebackAddr with
  | none =>
      simp only [hstore] at h ⊢
      obtain ⟨t, ht, heq⟩ := except_map_eq_ok.mp h
      cases heq
      exact ⟨log, except_map_eq_ok.mpr ⟨_, ht, rfl⟩⟩
  | some addr =>
      simp only [hstore] at h ⊢
      obtain ⟨⟨sent, e₁⟩, hport, h⟩ := except_bind_eq_ok.mp h
      obtain ⟨log', hlog⟩ := logged_ok hport log
      refine ⟨log', except_bind_eq_ok.mpr ⟨_, hlog, ?_⟩⟩
      cases sent with
      | none =>
          cases h
          rfl
      | some req =>
          obtain ⟨t, ht, heq⟩ := except_map_eq_ok.mp h
          cases heq
          exact except_map_eq_ok.mpr ⟨_, ht, rfl⟩

theorem tick_logged {port : Port E} {clk : Int} {e e' : E}
    (h : s.tick cfg clk port e = .ok (s', e')) (log : List Access) :
    ∃ log', s.tick cfg clk (logged port) (e, log) = .ok (s', e', log') := by
  unfold tick issue at *
  split_ifs at h ⊢
  · unfold issueLastWriteback at *
    split_ifs at h ⊢
    · obtain ⟨⟨sent, e₁⟩, hport, heq⟩ := except_map_eq_ok.mp h
      obtain ⟨log', hlog⟩ := logged_ok hport log
      refine ⟨log', except_map_eq_ok.mpr ⟨_, hlog, ?_⟩⟩
      cases sent <;> cases heq <;> rfl
    · cases h
      exact ⟨log, rfl⟩
  · obtain ⟨⟨t, stop⟩, hbubbles, h⟩ := except_bind_eq_ok.mp h
    cases stop with
    | none =>
        cases h
        exact ⟨log, except_bind_eq_ok.mpr ⟨_, hbubbles, rfl⟩⟩
    | some inserted =>
        obtain ⟨⟨u, e₁, goesOn⟩, hload, h⟩ := except_bind_eq_ok.mp h
        obtain ⟨log₁, hlog₁⟩ := issueLoad_logged hload log
        cases goesOn with
        | false =>
            cases h
            refine ⟨log₁, except_bind_eq_ok.mpr ⟨_, hbubbles, ?_⟩⟩
            exact except_bind_eq_ok.mpr ⟨_, hlog₁, rfl⟩
        | true =>
            obtain ⟨log₂, hlog₂⟩ := issueWriteback_logged h log₁
            refine ⟨log₂, except_bind_eq_ok.mpr ⟨_, hbubbles, ?_⟩⟩
            exact except_bind_eq_ok.mpr ⟨_, hlog₁, hlog₂⟩

theorem CohortRun.step (h : CohortRun cfg s log) (hstep : Step cfg (s, log) (s', log')) :
    CohortRun cfg s' log' := by
  obtain ⟨s₀, hinit, hreach⟩ := h
  exact ⟨s₀, hinit, hreach.step () hstep⟩

/-- Each core of a frontend runs as described, whatever the other cores, the cache and the memory
system do. -/
theorem cohortRun_of_reached {cfg : O3Config} {T : Translation} {s : SimpleO3 cfg T} (hs : s.Reached)
    (i : Fin cfg.numCores) : ∃ log, CohortRun (cfg.cores i) (s.cores i) log :=
  SimpleO3.cores_of_reached (P := fun i core => ∃ log, CohortRun (cfg.cores i) core log)
    { init := fun _ core hinit => ⟨[], core, hinit, .start⟩
      tick := fun _ _ _ _ _ _ ⟨log, hrun⟩ htick =>
        have ⟨log', hlog⟩ := tick_logged htick log
        ⟨log', hrun.step (.tick _ _ _ _ hlog)⟩
      receive := fun _ _ _ _ ⟨log, hrun⟩ hreceive => ⟨log, hrun.step (.receive _ hreceive)⟩
      fastForward := fun _ _ ticks ⟨log, hrun⟩ => ⟨log, hrun.step (.fastForward ticks)⟩ } hs i

/-- A port that takes everything, and one that takes nothing. -/
def takeAll : Port Unit := fun req e => .ok (some req, e)

def takeNothing : Port Unit := fun _ e => .ok (none, e)

/-- A region that ends on the load of its only record. -/
def lastOnLoad : CoreConfig where
  __ := smallCore
  depth := 2
  depth_pos := Nat.two_pos
  insts := [⟨1, some 64, some 128, .inl Nat.one_pos⟩]
  insts_pos := Nat.one_pos
  supplies := .inl rfl

theorem cohort_timing_invariant_small : ∃ s₁ s₂ log,
    CohortRun lastOnLoad s₁ log ∧ CohortRun lastOnLoad s₂ log ∧
    log = [⟨Request.read, 64, 0⟩, ⟨Request.write, 128, 1⟩] ∧ log = lastOnLoad.cohort := by
  have hfast : ∃ s, CohortRun lastOnLoad s [⟨Request.read, 64, 0⟩, ⟨Request.write, 128, 1⟩] ∧
      s.issueRoiQuiescent = true :=
    ⟨_, ⟨_, rfl, .step () (.step () .start (.tick 1 takeAll () () rfl)) (.tick 2 takeAll () () rfl)⟩, rfl⟩
  have hslow : ∃ s, CohortRun lastOnLoad s [⟨Request.read, 64, 0⟩, ⟨Request.write, 128, 1⟩] ∧
      s.issueRoiQuiescent = true :=
    ⟨_, ⟨_, rfl, .step () (.step () (.step () (.step () .start (.tick 1 takeNothing () () rfl))
      (.tick 2 takeAll () () rfl)) (.tick 3 takeNothing () () rfl)) (.tick 4 takeAll () () rfl)⟩, rfl⟩
  obtain ⟨s₁, h₁, hdone₁⟩ := hfast
  obtain ⟨s₂, h₂, hdone₂⟩ := hslow
  obtain ⟨-, -, hequal, -⟩ := cohort_timing_invariant lastOnLoad h₁ h₂
  exact ⟨s₁, s₂, _, h₁, h₂, rfl, (hequal hdone₁ hdone₂).1⟩

/-- A region that ends on the last bubble of a record with a store and no load. -/
def lastOnBubble : CoreConfig where
  __ := lastOnLoad
  insts := [⟨2, none, some 64, .inl Nat.two_pos⟩]
  insts_pos := Nat.one_pos
  supplies := .inl rfl

/-- All instructions of the record are issued and the region is complete, but its store is not sent. -/
theorem cohort_without_last_store : ∃ s,
    CohortRun lastOnBubble s [] ∧ s.issueRoiQuiescent = true ∧
    s.instsIssued = (lastOnBubble.record 0).instructions ∧ (lastOnBubble.record 0).storeAddr = some 64 :=
  ⟨_, ⟨_, rfl, .step () .start (.tick 1 takeAll () () rfl)⟩, rfl, rfl, rfl⟩

end Core

end Ramulator.Frontend.O3
