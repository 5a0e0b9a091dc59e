/-
# Ramulator.Controller.AttackThrottler — the scores of BlockHammer and the MSHRs they leave.

`AttackThrottler` (`controller/impl/blockhammer_controller.cpp`) counts the activations of hot rows, for
each core and bank, and makes a score of the count, the RowHammer likelihood index. `observe_act` puts the
core on the blacklist of the last-level cache and caps its MSHRs by what the score leaves of its share.

The cache takes only positive caps. The cap shrinks as the score grows, so a core that is turned away at one
score is turned away at every higher one, up to the score at which nothing is left: from there on there is
no cap at all.

The arithmetic is single precision. Counts and parameters are `int`s, so that no quotient comes near the
greatest exponent, and a divisor that is zero has failed in the integer division of `setup` before.
-/
import Ramulator.Frontend.BHO3LLC
import Ramulator.Lib.FloatFormat
import Mathlib.Algebra.Order.Floor.Ring

namespace Ramulator.Controller

open Ramulator.Base (Request)
open Ramulator.Frontend.BHO3
open Ramulator.Lib

/-! ## The throttler -/

/-- A number in single precision. -/
def toFloat (x : ℚ) : ℚ := binary32.nearest x

/-- The conversion of a `float` to `int` cuts the fraction. -/
def toInt (x : ℚ) : Int := if x < 0 then ⌈x⌉ else ⌊x⌋

/-- An `AttackThrottler` with its parameters. A counter that a map does not have is `none`. -/
structure AttackThrottler where
  nRh : Int
  nBl : Int
  tCbf : Int
  tRefw : Int
  nCtrs : Nat
  clk : Int := -1
  activeIdx : Nat := 0
  actCounters : Nat → Int → Option Int := fun _ _ => none

namespace AttackThrottler

def hash (threadId bankId : Int) : Int := threadId * 100000 + bankId

/-- When an epoch ends, the active map is cleared and the next one takes over. -/
def update (t : AttackThrottler) : AttackThrottler :=
  if t.tCbf ≤ t.clk + 1 then
    { t with
      clk := 0
      actCounters := Function.update t.actCounters t.activeIdx fun _ => none
      activeIdx := (t.activeIdx + 1) % t.nCtrs }
  else { t with clk := t.clk + 1 }

/-- All maps count. -/
def insert (threadId bankId : Int) (t : AttackThrottler) : AttackThrottler :=
  { t with actCounters := fun i =>
      let counters := t.actCounters i
      if i < t.nCtrs then
        Function.update counters (hash threadId bankId) (some ((counters (hash threadId bankId)).getD 0 + 1))
      else counters }

/-- The count at which the score is one. -/
def denom (t : AttackThrottler) : ℚ :=
  toFloat (toFloat (toFloat (toFloat t.nRh * toFloat t.tCbf) / toFloat t.tRefw) - toFloat t.nBl)

/-- `get_rhli`. -/
def getRhli (t : AttackThrottler) (threadId bankId : Int) : ℚ :=
  if threadId < 0 then 0
  else
    match t.actCounters t.activeIdx (hash threadId bankId) with
    | none => 0
    | some counter => if t.denom ≤ 0 then 0 else toFloat (toFloat counter / t.denom)

/-- The score of a core that has activated a hot row once more. -/
def nextRhli (t : AttackThrottler) (threadId bankId : Int) : ℚ :=
  (t.insert threadId bankId).getRhli threadId bankId

end AttackThrottler

/-! ## The cap -/

/-- `m_num_mshr_per_core * (1.0f - rhli)`. -/
def mshrsLeft (numMshrPerCore : Nat) (rhli : ℚ) : ℚ :=
  toFloat (toFloat numMshrPerCore * toFloat (1 - rhli))

/-- What `observe_act` tells the cache of a core with a score. -/
def capMshrs (cfg : LLCConfig) (sourceId : Int) (rhli : ℚ) (llc : LLC) : LLC :=
  (llc.addBlacklist cfg sourceId).setBlacklistMaxMshrs cfg sourceId (toInt (mshrsLeft cfg.mshrPerCore rhli))

/-- The end of `observe_act`, for a row that is hot. -/
def observeHotAct (cfg : LLCConfig) (sourceId bank : Int) (t : AttackThrottler) (llc : LLC) :
    AttackThrottler × LLC :=
  if 0 ≤ sourceId then
    (t.insert sourceId bank, capMshrs cfg sourceId (t.nextRhli sourceId bank) llc)
  else (t, llc)

theorem toFloat_mono : Monotone toFloat := binary32.nearest_mono

theorem toFloat_nonneg {x : ℚ} (h : 0 ≤ x) : 0 ≤ toFloat x := FloatFormat.nearest_nonneg h

/-- A higher score leaves fewer MSHRs. -/
theorem mshrsLeft_anti (n : Nat) {r r' : ℚ} (h : r ≤ r') : mshrsLeft n r' ≤ mshrsLeft n r := by
  have hleft : toFloat (1 - r') ≤ toFloat (1 - r) := toFloat_mono (sub_le_sub_left h 1)
  exact toFloat_mono (mul_le_mul_of_nonneg_left hleft (toFloat_nonneg (Nat.cast_nonneg n)))

theorem toInt_mono {x y : ℚ} (h : x ≤ y) : toInt x ≤ toInt y := by
  unfold toInt
  split_ifs with hx hy hy
  · exact Int.ceil_mono h
  · calc ⌈x⌉ ≤ 0 := Int.ceil_le.mpr (by exact_mod_cast hx.le)
      _ ≤ ⌊y⌋ := Int.floor_nonneg.mpr (not_lt.mp hy)
  · exact absurd (h.trans_lt hy) hx
  · exact Int.floor_mono h

theorem toInt_pos_iff {x : ℚ} : 0 < toInt x ↔ 1 ≤ x := by
  unfold toInt
  split_ifs with hx
  · refine ⟨fun h => absurd h (not_lt.mpr (Int.ceil_le.mpr (by exact_mod_cast hx.le))), fun h => ?_⟩
    linarith
  · exact Int.floor_pos

/-! ## Rejections -/

/-- The request misses in the sets and in the MSHRs. -/
def IsMiss (cfg : LLCConfig) (llc : LLC) (addr : Int) : Prop :=
  llc.checkSetHit cfg addr = none ∧ llc.checkMshrHit cfg addr = none

/-- The cache turns the request away, and counts it as blacklisted. -/
def RejectedByCap (cfg : LLCConfig) (req : Req) (llc : LLC) : Prop :=
  ∃ llc', llc.send cfg req = .ok (false, llc') ∧ llc'.llcMshrBlacklisted = llc.llcMshrBlacklisted + 1

section

variable {cfg : LLCConfig} {llc : LLC} {req : Req}

/-- The counters of accesses and misses are apart from what a miss looks at. -/
theorem count_same (req : Req) (llc : LLC) :
    ((llc.countAccess req).countMiss req).mshrs = llc.mshrs ∧
      (∀ source, ((llc.countAccess req).countMiss req).isCapped cfg source = llc.isCapped cfg source) ∧
      ((llc.countAccess req).countMiss req).llcMshrBlacklisted = llc.llcMshrBlacklisted := by
  unfold LLC.countAccess LLC.countMiss
  split_ifs <;> exact ⟨rfl, fun _ => rfl, rfl⟩

theorem checkSetHit_countAccess (req : Req) (addr : Int) (llc : LLC) :
    (llc.countAccess req).checkSetHit cfg addr = llc.checkSetHit cfg addr := by
  unfold LLC.countAccess
  split_ifs <;> rfl

/-- A miss is turned away by the cap where the core has reached it. -/
theorem rejectedByCap_iff (hmiss : IsMiss cfg llc req.addr) :
    RejectedByCap cfg req llc ↔ llc.isCapped cfg req.sourceId = true := by
  obtain ⟨hset, hmshr⟩ := hmiss
  obtain ⟨hmshrs, hcapped, hcount⟩ := @count_same cfg req llc
  have hmshr' : ((llc.countAccess req).countMiss req).checkMshrHit cfg req.addr = none := by
    unfold LLC.checkMshrHit at hmshr ⊢
    rw [hmshrs]
    exact hmshr
  unfold RejectedByCap LLC.send
  dsimp only
  rw [checkSetHit_countAccess, hset, hmshr', hcapped]
  dsimp only
  constructor
  · rintro ⟨llc', hsend, hmore⟩
    by_contra hnot
    rw [if_neg hnot] at hsend
    split_ifs at hsend
    · obtain ⟨-, rfl⟩ := Prod.mk.inj (Except.ok.inj hsend)
      rw [show _ = llc.llcMshrBlacklisted from hcount] at hmore
      omega
    · obtain ⟨-, rfl⟩ := Prod.mk.inj (Except.ok.inj hsend)
      rw [hcount] at hmore
      omega
    · obtain ⟨t, -, heq⟩ := except_map_eq_ok.mp hsend
      cases heq
  · intro h
    rw [if_pos h]
    exact ⟨_, rfl, congrArg (· + 1) hcount⟩

/-- A core is capped where the score leaves at least one MSHR, and no more than it has. -/
theorem isCapped_capMshrs {source : Int} (hcore : cfg.isCore source = true) (r : ℚ) :
    (capMshrs cfg source r llc).isCapped cfg source = true ↔
      1 ≤ mshrsLeft cfg.mshrPerCore r ∧ toInt (mshrsLeft cfg.mshrPerCore r) ≤ llc.allocatedMshrs source := by
  rw [← toInt_pos_iff]
  unfold capMshrs LLC.addBlacklist LLC.setBlacklistMaxMshrs LLC.isCapped
  rw [if_pos hcore, if_pos hcore]
  simp [hcore]

theorem isMiss_capMshrs {source addr : Int} (r : ℚ) :
    IsMiss cfg (capMshrs cfg source r llc) addr ↔ IsMiss cfg llc addr := by
  unfold capMshrs LLC.addBlacklist LLC.setBlacklistMaxMshrs
  split_ifs <;> rfl

/-- Who is turned away at a score. -/
theorem rejectedByCap_capMshrs (hcore : cfg.isCore req.sourceId = true) (hmiss : IsMiss cfg llc req.addr)
    (r : ℚ) :
    RejectedByCap cfg req (capMshrs cfg req.sourceId r llc) ↔
      1 ≤ mshrsLeft cfg.mshrPerCore r ∧
        toInt (mshrsLeft cfg.mshrPerCore r) ≤ llc.allocatedMshrs req.sourceId := by
  rw [rejectedByCap_iff ((isMiss_capMshrs r).mpr hmiss), isCapped_capMshrs hcore]

end

/-! ## Higher scores -/

/-- What is promised of the caps at two scores: who is turned away at the lower one is turned away at the
higher one, and so is everyone whose cap is zero or less. -/
structure Throttles (cfg : LLCConfig) (req : Req) (llc : LLC) (t t' : AttackThrottler) (bank bank' : Int) :
    Prop where
  monotone : RejectedByCap cfg req (observeHotAct cfg req.sourceId bank t llc).2 →
    RejectedByCap cfg req (observeHotAct cfg req.sourceId bank' t' llc).2
  lower : toInt (mshrsLeft cfg.mshrPerCore (t.nextRhli req.sourceId bank)) ≤ 0 →
    RejectedByCap cfg req (observeHotAct cfg req.sourceId bank t llc).2
  higher : toInt (mshrsLeft cfg.mshrPerCore (t'.nextRhli req.sourceId bank')) ≤ 0 →
    RejectedByCap cfg req (observeHotAct cfg req.sourceId bank' t' llc).2

/-- Who is turned away when the controller has observed an activation. -/
theorem rejectedByCap_observeHotAct {cfg : LLCConfig} {llc : LLC} {req : Req}
    (hcore : cfg.isCore req.sourceId = true) (hmiss : IsMiss cfg llc req.addr) (t : AttackThrottler)
    (bank : Int) :
    RejectedByCap cfg req (observeHotAct cfg req.sourceId bank t llc).2 ↔
      1 ≤ mshrsLeft cfg.mshrPerCore (t.nextRhli req.sourceId bank) ∧
        toInt (mshrsLeft cfg.mshrPerCore (t.nextRhli req.sourceId bank)) ≤ llc.allocatedMshrs req.sourceId := by
  have hnonneg : 0 ≤ req.sourceId := by
    unfold LLCConfig.isCore at hcore
    rw [Bool.and_eq_true] at hcore
    exact of_decide_eq_true hcore.1
  unfold observeHotAct
  rw [if_pos hnonneg]
  exact rejectedByCap_capMshrs hcore hmiss _

/-- It is kept for a miss of a core where the higher score leaves an MSHR, and only there. -/
theorem throttles_iff (cfg : LLCConfig) (llc : LLC) (req : Req) (hcore : cfg.isCore req.sourceId = true)
    (hmiss : IsMiss cfg llc req.addr) (t t' : AttackThrottler) (bank bank' : Int)
    (hle : t.nextRhli req.sourceId bank ≤ t'.nextRhli req.sourceId bank') :
    Throttles cfg req llc t t' bank bank' ↔ 1 ≤ mshrsLeft cfg.mshrPerCore (t'.nextRhli req.sourceId bank') := by
  have hlower := rejectedByCap_observeHotAct hcore hmiss t bank
  have hhigher := rejectedByCap_observeHotAct hcore hmiss t' bank'
  have hleft := mshrsLeft_anti cfg.mshrPerCore hle
  constructor
  · intro h
    by_contra hnot
    have hcap : toInt (mshrsLeft cfg.mshrPerCore (t'.nextRhli req.sourceId bank')) ≤ 0 :=
      not_lt.mp fun hpos => hnot (toInt_pos_iff.mp hpos)
    exact hnot (hhigher.mp (h.higher hcap)).1
  · intro hone
    have hone' := hone.trans hleft
    refine ⟨fun h => ?_, fun h => absurd (toInt_pos_iff.mpr hone') (not_lt.mpr h),
      fun h => absurd (toInt_pos_iff.mpr hone) (not_lt.mpr h)⟩
    exact hhigher.mpr ⟨hone, (toInt_mono hleft).trans (hlower.mp h).2⟩

/-! ## A small cache -/

/-- A score of one at eight activations. -/
def smallThrottler : AttackThrottler where
  nRh := 16
  nBl := 8
  tCbf := 1
  tRefw := 1
  nCtrs := 1

def hammered (n : Nat) : AttackThrottler := (·.insert 0 0)^[n] smallThrottler

/-- One core, with two MSHRs. -/
def twoMshrs : LLCConfig where
  sizeBytes := 128
  associativity := 2
  numMshrs := 2
  numCores := 1

/-- The cache after a miss of the core. -/
def oneMiss : LLC := ((({} : LLC).send twoMshrs (coreRequest 0 Request.read 0)).toOption.map (·.2)).getD {}

theorem isMiss_oneMiss : IsMiss twoMshrs oneMiss 64 := ⟨by decide +kernel, by decide +kernel⟩

theorem throttles_oneMiss :
    Throttles twoMshrs (coreRequest 64 Request.read 0) oneMiss (hammered 1) (hammered 3) 0 0 :=
  (throttles_iff twoMshrs oneMiss (coreRequest 64 Request.read 0) rfl isMiss_oneMiss (hammered 1) (hammered 3)
    0 0 (by decide +kernel)).mpr (by decide +kernel)

/-- The second miss is turned away at the fourth activation, and not at the eighth. -/
theorem exists_not_throttles : ¬ ∀ (cfg : LLCConfig) (llc : LLC) (req : Req), cfg.isCore req.sourceId = true →
    IsMiss cfg llc req.addr → ∀ (t t' : AttackThrottler) (bank bank' : Int),
      t.nextRhli req.sourceId bank ≤ t'.nextRhli req.sourceId bank' →
        Throttles cfg req llc t t' bank bank' := by
  intro hall
  have hthrottles := hall twoMshrs oneMiss (coreRequest 64 Request.read 0) rfl isMiss_oneMiss (hammered 3)
    (hammered 7) 0 0 (by decide +kernel)
  have hfourth := @rejectedByCap_observeHotAct twoMshrs oneMiss (coreRequest 64 Request.read 0) rfl
    isMiss_oneMiss (hammered 3) 0
  have heighth := @rejectedByCap_observeHotAct twoMshrs oneMiss (coreRequest 64 Request.read 0) rfl
    isMiss_oneMiss (hammered 7) 0
  have hrejected := hfourth.mpr ⟨by decide +kernel, by decide +kernel⟩
  exact absurd (heighth.mp (hthrottles.monotone hrejected)).1 (by decide +kernel)

end Ramulator.Controller
