/-
# Ramulator.Controller.HBMRefreshOrder — every bank in turn, block after block.

What `HBMPerBankRefresh` hands to the controller is a prefix of one sequence: round after round, in each
round the next flat bank of every scope. So the scopes take turns, no bank is left out or repeated, and the
pace is that of the rounds. After the last bank of a block a scope is passed over until the refresh of that
bank shows in its history. A bank's history shows the last of its refreshes, and the one before was over when
the block before ended, so it is the right one.
-/
import Ramulator.Controller.HBMPerBankRefresh
import Ramulator.Lib.Trace
import Mathlib.Data.List.Nodup
import Mathlib.Tactic.Ring

namespace Ramulator.Controller

open Ramulator.Base (Request)
open Ramulator.Dram Ramulator.Lib Ramulator.Lib.MixedRadix

/-! ## The banks of a scope -/

namespace HBMSpec

variable {info : HBMSpec}

theorem levels_of_hbm1 (h : info.standardName = .HBM1) :
    info.bankLevel = 2 ∧ info.levelScope = 0 ∧ info.levelSid = none ∧ info.levelBg = 1 ∧ info.levelBank = 2 ∧
      info.levelCount = 5 ∧ info.rowLevel = 3 := by
  have hbank := info.bankLevel_eq
  have hrow := info.rowLevel_eq
  unfold levelScope levelSid levelBg levelBank levelCount
  rw [h] at hbank hrow ⊢
  exact ⟨hbank, rfl, rfl, rfl, rfl, rfl, hrow⟩

theorem levels_of_ne_hbm1 (h : info.standardName ≠ .HBM1) :
    info.bankLevel = 4 ∧ info.levelScope = 1 ∧ info.levelSid = some 2 ∧ info.levelBg = 3 ∧
      info.levelBank = 4 ∧ info.levelCount = 7 ∧ info.rowLevel = 5 := by
  have hbank := info.bankLevel_eq
  have hrow := info.rowLevel_eq
  unfold levelScope levelSid levelBg levelBank levelCount
  cases hname : info.standardName with
  | HBM1 => exact absurd hname h
  | _ =>
      rw [hname] at hbank hrow
      exact ⟨hbank, rfl, rfl, rfl, rfl, rfl, hrow⟩

theorem bankLevel_lt (info : HBMSpec) : 0 < info.bankLevel ∧ info.bankLevel < info.rowLevel := by
  by_cases h : info.standardName = .HBM1
  · obtain ⟨hbank, -, -, -, -, -, hrow⟩ := levels_of_hbm1 h
    omega
  · obtain ⟨hbank, -, -, -, -, -, hrow⟩ := levels_of_ne_hbm1 h
    omega

theorem levelBank_eq (info : HBMSpec) : info.levelBank = info.bankLevel := info.bankLevel_eq.symm

theorem scopeCount_pos (info : HBMSpec) : 0 < info.scopeCount := by
  by_cases h : info.standardName = .HBM1
  · obtain ⟨-, hscope, -⟩ := levels_of_hbm1 h
    unfold scopeCount
    rw [hscope, info.levelSize_channel]
    exact Nat.one_pos
  · obtain ⟨hbank, hscope, -⟩ := levels_of_ne_hbm1 h
    exact info.levelSize_pos _ (by omega)

theorem banksPerScope_pos (info : HBMSpec) : 0 < info.banksPerScope := by
  unfold banksPerScope banksPerSid sidCount bankGroups banksPerGroup
  by_cases h : info.standardName = .HBM1
  · obtain ⟨hbank, -, hsid, hbg, hb, -⟩ := levels_of_hbm1 h
    rw [hsid, hbg, hb]
    exact Nat.mul_pos Nat.one_pos
      (Nat.mul_pos (info.levelSize_pos _ (by omega)) (info.levelSize_pos _ (by omega)))
  · obtain ⟨hbank, -, hsid, hbg, hb, -⟩ := levels_of_ne_hbm1 h
    rw [hsid, hbg, hb]
    exact Nat.mul_pos (info.levelSize_pos _ (by omega))
      (Nat.mul_pos (info.levelSize_pos _ (by omega)) (info.levelSize_pos _ (by omega)))

theorem bankSizes_of_hbm1 (h : info.standardName = .HBM1) :
    info.bankSizes = [info.levelSize 1, info.levelSize 2] := by
  unfold Standard.bankSizes
  rw [(levels_of_hbm1 h).1]
  rfl

theorem bankSizes_of_ne_hbm1 (h : info.standardName ≠ .HBM1) :
    info.bankSizes = [info.levelSize 1, info.levelSize 2, info.levelSize 3, info.levelSize 4] := by
  unfold Standard.bankSizes
  rw [(levels_of_ne_hbm1 h).1]
  rfl

theorem banksPerScope_of_hbm1 (h : info.standardName = .HBM1) :
    info.banksPerScope = info.levelSize 1 * info.levelSize 2 := by
  obtain ⟨-, -, hsid, hbg, hb, -⟩ := levels_of_hbm1 h
  unfold banksPerScope banksPerSid sidCount bankGroups banksPerGroup
  rw [hsid, hbg, hb]
  exact Nat.one_mul _

theorem banksPerScope_of_ne_hbm1 (h : info.standardName ≠ .HBM1) :
    info.banksPerScope = info.levelSize 2 * (info.levelSize 3 * info.levelSize 4) := by
  obtain ⟨-, -, hsid, hbg, hb, -⟩ := levels_of_ne_hbm1 h
  unfold banksPerScope banksPerSid sidCount bankGroups banksPerGroup
  rw [hsid, hbg, hb]
  rfl

/-- The walk takes a path apart into its scope and its flat bank, which are those of its place. -/
theorem bankRef_eq (info : HBMSpec) {path : Path} (hpath : Within info.bankSizes path) :
    HBMPerBankRefreshCore.bankRef info path =
      ⟨some path, position info.bankSizes path / info.banksPerScope,
        position info.bankSizes path % info.banksPerScope⟩ := by
  -- HBM1 has no pseudo-channels: one scope, and the whole position is the bank in it
  by_cases h : info.standardName = .HBM1
  · obtain ⟨-, hscope, hsid, hbg, hb, -⟩ := levels_of_hbm1 h
    have hlt : position info.bankSizes path < info.banksPerScope := by
      have hplace := position_lt hpath
      rw [banksPerScope_of_hbm1 h]
      rw [bankSizes_of_hbm1 h] at hplace ⊢
      simpa [volume] using hplace
    rw [Nat.div_eq_of_lt hlt, Nat.mod_eq_of_lt hlt]
    rw [bankSizes_of_hbm1 h] at hpath ⊢
    obtain _ | ⟨hg, _ | ⟨hi, _ | _⟩⟩ := hpath
    rename_i g i
    have hposition : position [info.levelSize 1, info.levelSize 2] [g, i] = g * info.levelSize 2 + i := by
      show i + info.levelSize 2 * (g + info.levelSize 1 * 0) = _
      ring
    have hflat : info.flatBankInScope (info.buildAddrVec 0 (some [g, i])) =
        (g * info.levelSize 2 + i : Nat) := by
      unfold flatBankInScope
      rw [hsid, hbg, hb]
      show 0 * _ + ((g : Int) * info.banksPerGroup + i) = _
      unfold banksPerGroup
      rw [hb]
      push_cast
      ring
    unfold HBMPerBankRefreshCore.bankRef
    dsimp only
    rw [hflat, hscope, hposition]
    rfl
  · obtain ⟨-, hscope, hsid, hbg, hb, -⟩ := levels_of_ne_hbm1 h
    rw [banksPerScope_of_ne_hbm1 h]
    rw [bankSizes_of_ne_hbm1 h] at hpath ⊢
    obtain _ | ⟨-, hrest⟩ := hpath
    rename_i p rest
    have hwithin : Within [info.levelSize 2, info.levelSize 3, info.levelSize 4] rest := hrest
    have hlt := position_lt hwithin
    rw [position_cons hwithin.length_eq]
    have hvolume : volume [info.levelSize 2, info.levelSize 3, info.levelSize 4] =
        info.levelSize 2 * (info.levelSize 3 * info.levelSize 4) := by
      simp [volume]
    rw [hvolume] at hlt ⊢
    rw [Nat.add_mul_div_left _ _ (Nat.zero_lt_of_lt hlt), Nat.div_eq_of_lt hlt, Nat.zero_add,
      Nat.add_mul_mod_self_left, Nat.mod_eq_of_lt hlt]
    obtain _ | ⟨hs, _ | ⟨hg, _ | ⟨hi, _ | _⟩⟩⟩ := hrest
    rename_i s g i
    have hposition : position [info.levelSize 2, info.levelSize 3, info.levelSize 4] [s, g, i] =
        s * (info.levelSize 3 * info.levelSize 4) + (g * info.levelSize 4 + i) := by
      show i + info.levelSize 4 * (g + info.levelSize 3 * (s + info.levelSize 2 * 0)) = _
      ring
    have hflat : info.flatBankInScope (info.buildAddrVec 0 (some [p, s, g, i])) =
        (s * (info.levelSize 3 * info.levelSize 4) + (g * info.levelSize 4 + i) : Nat) := by
      unfold flatBankInScope
      rw [hsid, hbg, hb]
      show (s : Int) * info.banksPerSid + ((g : Int) * info.banksPerGroup + i) = _
      unfold banksPerSid bankGroups banksPerGroup
      rw [hbg, hb]
      push_cast
      ring
    unfold HBMPerBankRefreshCore.bankRef
    dsimp only
    rw [hflat, hscope, hposition]
    rfl

theorem bankCount_eq_mul (info : HBMSpec) : info.bankCount = info.scopeCount * info.banksPerScope := by
  rw [Standard.bankCount_eq]
  unfold scopeCount
  by_cases h : info.standardName = .HBM1
  · rw [bankSizes_of_hbm1 h, banksPerScope_of_hbm1 h, (levels_of_hbm1 h).2.1, info.levelSize_channel]
    simp [volume]
  · rw [bankSizes_of_ne_hbm1 h, banksPerScope_of_ne_hbm1 h, (levels_of_ne_hbm1 h).2.1]
    simp [volume]

/-- The bank at a place. -/
def bankAt (info : HBMSpec) (scope flat : Nat) : BankRef where
  node := some (info.bankNodes.getD (scope * info.banksPerScope + flat) [])
  scope := scope
  flatBank := flat

theorem place_lt {scope flat : Nat} (hscope : scope < info.scopeCount) (hflat : flat < info.banksPerScope) :
    scope * info.banksPerScope + flat < info.bankCount := by
  rw [bankCount_eq_mul]
  calc scope * info.banksPerScope + flat < scope * info.banksPerScope + info.banksPerScope :=
        Nat.add_lt_add_left hflat _
    _ = (scope + 1) * info.banksPerScope := (Nat.succ_mul _ _).symm
    _ ≤ info.scopeCount * info.banksPerScope := Nat.mul_le_mul_right _ hscope

end HBMSpec

/-! ## `init` -/

namespace HBMPerBankRefreshCore

variable {info : HBMSpec}

/-- The sets when the walk has met some banks. -/
def placed (info : HBMSpec) (count scope flat : Nat) : BankRef :=
  if flat < info.banksPerScope ∧ scope * info.banksPerScope + flat < count then info.bankAt scope flat else {}

/-- The next bank goes where none is yet. -/
theorem placeBank_placed {i : Nat} (hi : i < info.bankCount) :
    placeBank info (placed info i) (info.bankNodes.getD i []) = .ok (placed info (i + 1)) := by
  obtain ⟨hwithin, hplace⟩ := Standard.bankNodes_spec hi
  have hper := info.banksPerScope_pos
  have hdiv : i / info.banksPerScope * info.banksPerScope + i % info.banksPerScope = i := Nat.div_add_mod' i _
  have hmod : i % info.banksPerScope < info.banksPerScope := Nat.mod_lt i hper
  unfold placeBank
  rw [info.bankRef_eq hwithin, hplace]
  dsimp only
  -- banks are placed in order, so the place of this one is free
  have hempty : placed info i (i / info.banksPerScope) (i % info.banksPerScope) = {} := by
    unfold placed
    rw [hdiv]
    exact if_neg fun h => Nat.lt_irrefl i h.2
  rw [hempty, if_neg (by decide)]
  refine congrArg Except.ok (funext fun scope => funext fun flat => ?_)
  by_cases hscope : scope = i / info.banksPerScope
  · subst hscope
    rw [Function.update_self]
    by_cases hflat : flat = i % info.banksPerScope
    · subst hflat
      rw [Function.update_self]
      unfold placed HBMSpec.bankAt
      rw [hdiv, if_pos ⟨hmod, Nat.lt_succ_self i⟩]
    · rw [Function.update_of_ne hflat]
      unfold placed
      refine if_congr ?_ rfl rfl
      omega
  · rw [Function.update_of_ne hscope]
    unfold placed
    have hne : flat < info.banksPerScope → scope * info.banksPerScope + flat ≠ i := by
      intro hflat heq
      refine hscope ?_
      rw [← heq, Nat.mul_comm, Nat.mul_add_div hper, Nat.div_eq_of_lt hflat, Nat.add_zero]
    refine if_congr ?_ rfl rfl
    constructor
    · rintro ⟨hflat, hlt⟩
      exact ⟨hflat, by omega⟩
    · rintro ⟨hflat, hlt⟩
      have hplace' := hne hflat
      exact ⟨hflat, by omega⟩

theorem foldlM_placeBank {i : Nat} (hi : i ≤ info.bankCount) :
    (info.bankNodes.take i).foldlM (placeBank info) (fun _ _ => {}) = .ok (placed info i) := by
  induction i with
  | zero =>
      refine congrArg Except.ok (funext fun scope => funext fun flat => ?_)
      exact (if_neg fun h => Nat.not_lt_zero _ h.2).symm
  | succ i ih =>
      have hlt : i < info.bankNodes.length := hi
      rw [List.take_succ_eq_append_getElem hlt, List.foldlM_append, ih (Nat.le_of_succ_le hi)]
      show List.foldlM (placeBank info) (placed info i) [info.bankNodes[i]] = _
      rw [List.foldlM_cons, ← List.getD_eq_getElem _ [] hlt, placeBank_placed hi]
      rfl

/-- Every organization is set up: each place has its bank. -/
theorem init_eq (info : HBMSpec) :
    ∃ core, init info (DRAMDevice.init info.toStandard 0) = .ok core ∧ core.nextFlatBank = 0 ∧
      core.nextRefreshClk = info.nRefiPb ∧ core.pendingRefpbs = [] ∧
      ∀ scope < info.scopeCount, (core.sets scope).pendingBoundaryBank = none ∧
        ∀ flat < info.banksPerScope, (core.sets scope).banksByFlat flat = info.bankAt scope flat := by
  have hissued : DRAMDevice.Issued info.toStandard 0 (DRAMDevice.init info.toStandard 0) := .start
  have hnodes := hissued.banks_eq info.bankLevel_lt.2
  have hplaced := foldlM_placeBank (le_refl info.bankCount)
  have htake : info.bankNodes.take info.bankCount = info.bankNodes := List.take_length
  rw [htake] at hplaced
  have hat : ∀ scope < info.scopeCount, ∀ flat < info.banksPerScope,
      placed info info.bankCount scope flat = info.bankAt scope flat :=
    fun scope hscope flat hflat => if_pos ⟨hflat, HBMSpec.place_lt hscope hflat⟩
  unfold init buildRefpbSets
  dsimp only
  rw [info.levelBank_eq, hnodes, hplaced]
  have hcomplete : ¬ ∃ scope < info.scopeCount, ∃ flat < info.banksPerScope,
      (placed info info.bankCount scope flat).node = none := by
    rintro ⟨scope, hscope, flat, hflat, hnone⟩
    rw [hat scope hscope flat hflat] at hnone
    cases hnone
  refine ⟨_, congrArg (Except.map _) (if_neg hcomplete), rfl, rfl, rfl, fun scope hscope => ⟨rfl, ?_⟩⟩
  exact hat scope hscope

/-! ## Histories -/

/-- The last refresh that the history of a bank shows. -/
def lastRefpb (device : DRAMDevice) (path : Path) : Option Int := (refpbHistory device path).head?

/-- A command goes into its own history. -/
theorem head_pushHistory (c : Command) (clk : Int) (timing : NodeTiming Command) :
    ((timing.pushHistory c clk).cmdHistory .REFpb).head? =
      if c = .REFpb then (timing.cmdHistory .REFpb).head?.map fun _ => clk
      else (timing.cmdHistory .REFpb).head? := by
  unfold NodeTiming.pushHistory
  by_cases hc : c = .REFpb
  · rw [if_pos hc, hc]
    cases hhistory : timing.cmdHistory .REFpb with
    | nil =>
        rw [if_pos rfl, hhistory]
        rfl
    | cons t rest =>
        rw [if_neg (List.cons_ne_nil t rest)]
        dsimp only
        rw [Function.update_self]
        rfl
  · rw [if_neg hc]
    split_ifs
    · rfl
    · dsimp only
      rw [Function.update_of_ne (Ne.symm hc)]

/-- Only a visit to its target changes the history. -/
theorem head_cmdHistory_apply (spec : DRAMSpec Command) (level : Nat) (c : Command) (clk : Int)
    (visit : Option DRAMNode.Visit) (timing : NodeTiming Command) :
    ((DRAMNode.Visit.apply spec level c clk visit timing).cmdHistory .REFpb).head? =
      if visit = some .target ∧ c = .REFpb then (timing.cmdHistory .REFpb).head?.map fun _ => clk
      else (timing.cmdHistory .REFpb).head? := by
  rcases visit with _ | visit
  · rfl
  · cases visit with
    | target =>
        rw [if_congr (and_iff_right rfl) rfl rfl]
        exact head_pushHistory c clk timing
    | sibling => rfl

theorem lastRefpb_issueCommand {spec : Standard} {channelId : Int} {d : DRAMDevice}
    (h : DRAMDevice.Issued spec channelId d) (c : Command) (addr : AddrVec) (clk : Int) (i : Nat) :
    lastRefpb (d.issueCommand spec c addr clk) (spec.bankNodes.getD i []) =
      if d.bankVisit spec c addr i = some .target ∧ c = .REFpb then
        (lastRefpb d (spec.bankNodes.getD i [])).map fun _ => clk
      else lastRefpb d (spec.bankNodes.getD i []) := by
  have htiming := DRAMNode.timingAt_of_visit h.built c addr clk (spec.bankNodes.getD i [])
  unfold lastRefpb refpbHistory
  show (Option.getD (Option.map _ ((d.root.updateTiming spec.toDRAMSpec c addr clk).timingAt _)) []).head? = _
  rw [htiming]
  cases d.root.timingAt (spec.bankNodes.getD i []) with
  | none =>
      rw [Option.map_none, Option.map_none]
      split_ifs <;> rfl
  | some timing => exact head_cmdHistory_apply ..

theorem coord_buildAddrVec (info : HBMSpec) (channelId : Int) (path : Path) {l : Nat} (hl : l < path.length) :
    (info.buildAddrVec channelId (some path)).coord (l + 1) = (path.getD l 0 : Nat) := by
  have hl' : l < (path.map fun i : Nat => (i : Int)).length := by
    rw [List.length_map]
    exact hl
  show (channelId :: ((path.map fun i : Nat => (i : Int)) ++ _)).getD (l + 1) (-1) = _
  rw [List.getD_cons_succ, List.getD_append _ _ _ _ hl', List.getD_eq_getElem _ _ hl', List.getElem_map,
    List.getD_eq_getElem _ _ hl]

/-- A refresh is for the bank that its address names. -/
theorem eq_of_bankVisit {info : HBMSpec} {channelId : Int} {d : DRAMDevice}
    (h : DRAMDevice.Issued info.toStandard channelId d) {i j : Nat} (hi : i < info.bankCount)
    (hj : j < info.bankCount)
    (hvisit : d.bankVisit info.toStandard .REFpb
      (info.buildAddrVec channelId (some (info.bankNodes.getD j []))) i = some .target) : i = j := by
  have hselected : info.Selected channelId (info.buildAddrVec channelId (some (info.bankNodes.getD j []))) i :=
    (DRAMNode.visit_eq_target_iff h.built _ _ (h.isSome_follow info.bankLevel_lt.2 hi)).mp hvisit
  obtain ⟨-, hcoord⟩ := (Standard.selected_iff hi).mp hselected
  have hleni := Standard.length_bankNode hi
  have hlenj := Standard.length_bankNode hj
  have hpath : info.bankNodes.getD i [] = info.bankNodes.getD j [] := by
    refine List.ext_getElem (hleni.trans hlenj.symm) fun l hl hl' => ?_
    have hat := hcoord l (hleni ▸ hl)
    rw [coord_buildAddrVec info channelId _ hl'] at hat
    rw [← List.getD_eq_getElem _ 0 hl, ← List.getD_eq_getElem _ 0 hl']
    omega
  rw [← (Standard.bankNodes_spec hi).2, ← (Standard.bankNodes_spec hj).2, hpath]

/-- A fresh history shows none. -/
theorem lastRefpb_init (spec : Standard) (channelId : Int) (path : Path) {t : Int}
    (h : lastRefpb (DRAMDevice.init spec channelId) path = some t) : t = -1 := by
  unfold lastRefpb refpbHistory DRAMDevice.init DRAMNode.root at h
  dsimp only at h
  rw [timingAt_build] at h
  split_ifs at h
  · have hmem := List.mem_of_head? h
    exact List.eq_of_mem_replicate hmem
  · cases h

end HBMPerBankRefreshCore

/-! ## The invariant -/

namespace HBMRefreshRun

open HBMPerBankRefreshCore

variable {info : HBMSpec} {channelId : Int} {rounds : Nat} {r r' : HBMRefreshRun}

/-- The `i`-th bank of the sequence: in each round all scopes, and round after round the next flat bank. -/
def turn (info : HBMSpec) (i : Nat) : BankRef :=
  info.bankAt (i % info.scopeCount) (i / info.scopeCount % info.banksPerScope)

/-- The last bank of a block. -/
def IsBoundary (info : HBMSpec) (ref : BankRef) : Prop := (ref.flatBank + 1) % info.boundaryBlockSize = 0

/-- All boundaries of a scope are over, and their pauses end at `allowed` or before. -/
def Over (info : HBMSpec) (enqueued : List Enqueued) (issued : List (Nat × Int)) (scope : Nat) (allowed : Int) :
    Prop :=
  ∀ (i : Nat) (x : Enqueued), enqueued[i]? = some x → x.ref.scope = scope → IsBoundary info x.ref →
    ∃ t : Int, (i, t) ∈ issued ∧ t + info.nRfcPb ≤ allowed

/-- The scope waits for its last request, a boundary. -/
def Waits (info : HBMSpec) (enqueued : List Enqueued) (scope : Nat) (path : Path) (clk : Int) : Prop :=
  ∃ (i : Nat) (x : Enqueued), enqueued[i]? = some x ∧ x.ref.scope = scope ∧ IsBoundary info x.ref ∧
    x.ref.node = some path ∧ x.clk = clk ∧
      ∀ (j : Nat) (y : Enqueued), enqueued[j]? = some y → y.ref.scope = scope → j ≤ i

structure SetOk (info : HBMSpec) (enqueued : List Enqueued) (issued : List (Nat × Int)) (scope : Nat)
    (set : RefpbSetState) : Prop where
  banks : ∀ flat < info.banksPerScope, set.banksByFlat flat = info.bankAt scope flat
  past : set.pendingBoundaryBank = none → Over info enqueued issued scope set.nextBlockAllowedClk
  waits : ∀ path, set.pendingBoundaryBank = some path →
    Waits info enqueued scope path set.pendingBoundaryEnqueueClk

structure Inv (info : HBMSpec) (channelId : Int) (rounds : Nat) (r : HBMRefreshRun) : Prop where
  clk_nonneg : 0 ≤ r.clk
  device : DRAMDevice.Issued info.toStandard channelId r.device
  order : r.enqueued.map (·.ref) ++ r.core.pendingRefpbs = (List.range (rounds * info.scopeCount)).map (turn info)
  cursor : r.core.nextFlatBank = rounds % info.banksPerScope
  deadline : r.core.nextRefreshClk = (rounds + 1 : Nat) * info.nRefiPb
  pace : rounds = 0 ∨ rounds * info.nRefiPb ≤ r.clk
  requests : ∀ x ∈ r.enqueued, x.req = refpbRequest info channelId x.ref ∧ 0 < x.clk ∧ x.clk ≤ r.clk
  once : (r.waiting ++ r.issued.map (·.1)).Perm (List.range r.enqueued.length)
  times : ∀ i t, (i, t) ∈ r.issued → ∃ x : Enqueued, r.enqueued[i]? = some x ∧ x.clk ≤ t ∧ t ≤ r.clk
  history : ∀ scope < info.scopeCount, ∀ flat < info.banksPerScope, ∀ path t,
    (info.bankAt scope flat).node = some path → lastRefpb r.device path = some t →
      t = -1 ∨ ∃ i, ∃ x : Enqueued, (i, t) ∈ r.issued ∧ r.enqueued[i]? = some x ∧ x.ref = info.bankAt scope flat
  sets : ∀ scope < info.scopeCount, SetOk info r.enqueued r.issued scope (r.core.sets scope)
  pending_nodup : (r.core.pendingRefpbs.map (·.scope)).Nodup
  pending_clear : ∀ ref ∈ r.core.pendingRefpbs, (r.core.sets ref.scope).pendingBoundaryBank = none ∧
    (r.core.sets ref.scope).nextBlockAllowedClk ≤ r.clk
  paused : ∀ (i j : Nat) (x y : Enqueued), i < j → r.enqueued[i]? = some x → r.enqueued[j]? = some y →
    x.ref.scope = y.ref.scope → IsBoundary info x.ref →
      ∃ t : Int, (i, t) ∈ r.issued ∧ t < y.clk ∧ t + info.nRfcPb ≤ y.clk

/-- What has been enqueued is a prefix of the sequence. -/
theorem Inv.enqueued_eq (h : Inv info channelId rounds r) :
    r.enqueued.map (·.ref) = (List.range r.enqueued.length).map (turn info) ∧
      r.enqueued.length ≤ rounds * info.scopeCount := by
  have hlength := congrArg List.length h.order
  rw [List.length_append, List.length_map, List.length_map, List.length_range] at hlength
  refine ⟨?_, by omega⟩
  have htake := congrArg (List.take r.enqueued.length) h.order
  rw [List.take_left' (by rw [List.length_map]), ← List.map_take, List.take_range,
    Nat.min_eq_left (by omega)] at htake
  exact htake

theorem Inv.ref_eq (h : Inv info channelId rounds r) {i : Nat} {x : Enqueued} (hx : r.enqueued[i]? = some x) :
    x.ref = turn info i := by
  obtain ⟨hi, rfl⟩ := List.getElem?_eq_some_iff.mp hx
  have hget := congrArg (·[i]?) h.enqueued_eq.1
  simpa [hi] using hget

theorem turn_scope_lt (info : HBMSpec) (i : Nat) : (turn info i).scope < info.scopeCount :=
  Nat.mod_lt i info.scopeCount_pos

/-- A request is served once. -/
theorem Inv.issued_unique (h : Inv info channelId rounds r) {i : Nat} {t t' : Int} (ht : (i, t) ∈ r.issued)
    (ht' : (i, t') ∈ r.issued) : t = t' := by
  have hnodup : (r.issued.map (·.1)).Nodup :=
    (List.nodup_append'.mp (h.once.nodup_iff.mpr List.nodup_range)).2.1
  exact congrArg Prod.snd (List.inj_on_of_nodup_map hnodup ht ht' rfl)

/-! ## What a clock does -/

theorem Inv.advance (h : Inv info channelId rounds r) : Inv info channelId rounds { r with clk := r.clk + 1 } where
  clk_nonneg := Int.le_add_one h.clk_nonneg
  device := h.device
  order := h.order
  cursor := h.cursor
  deadline := h.deadline
  pace := h.pace.imp_right Int.le_add_one
  requests := fun x hx => ⟨(h.requests x hx).1, (h.requests x hx).2.1, Int.le_add_one (h.requests x hx).2.2⟩
  once := h.once
  times := fun i t ht => by
    obtain ⟨x, hx, hle, hclk⟩ := h.times i t ht
    exact ⟨x, hx, hle, Int.le_add_one hclk⟩
  history := h.history
  sets := h.sets
  pending_nodup := h.pending_nodup
  pending_clear := fun ref href => ⟨(h.pending_clear ref href).1, Int.le_add_one (h.pending_clear ref href).2⟩
  paused := h.paused

/-- The boundary of a set shows in its history. -/
theorem Inv.over_of_history (h : Inv info channelId rounds r) {scope : Nat} {path : Path} {enqueueClk issueClk : Int}
    (hwaits : Waits info r.enqueued scope path enqueueClk) (hlast : lastRefpb r.device path = some issueClk)
    (hclk : enqueueClk ≤ issueClk) :
    Over info r.enqueued r.issued scope (issueClk + info.nRfcPb) := by
  obtain ⟨j, x, hx, hscope, hboundary, hnode, rfl, hlatest⟩ := hwaits
  have hturn := h.ref_eq hx
  have hpos := (h.requests x (List.mem_of_getElem? hx)).2.1
  -- what the history shows is a refresh of this bank, and only the latest request for it is late enough
  have hissued : (j, issueClk) ∈ r.issued := by
    rw [hturn] at hnode
    obtain hnone | ⟨i, y, ht, hy, href⟩ := h.history _ (turn_scope_lt info j) _
      (Nat.mod_lt _ info.banksPerScope_pos) path issueClk hnode hlast
    · omega
    · have hsame : y.ref = x.ref := href.trans hturn.symm
      have hle := hlatest i y hy (by rw [hsame, hscope])
      rcases Nat.lt_or_eq_of_le hle with hlt | rfl
      · obtain ⟨t, ht', hbefore, -⟩ := h.paused i j y x hlt hy hx (by rw [hsame]) (by rw [hsame]; exact hboundary)
        rw [h.issued_unique ht ht'] at hclk
        omega
      · exact ht
  intro i y hy hyscope hyboundary
  have hle := hlatest i y hy hyscope
  rcases Nat.lt_or_eq_of_le hle with hlt | rfl
  · obtain ⟨t, ht, hbefore, -⟩ := h.paused i j y x hlt hy hx (hyscope.trans hscope.symm) hyboundary
    exact ⟨t, ht, by omega⟩
  · exact ⟨issueClk, hissued, le_rfl⟩

/-- One set reads its history. -/
theorem Inv.observe_one (h : Inv info channelId rounds r) {scope : Nat} (hscope : scope < info.scopeCount)
    {set : RefpbSetState} (hset : observeBoundary info r.device (r.core.sets scope) = .ok set) :
    Inv info channelId rounds
      { r with core := { r.core with sets := Function.update r.core.sets scope set } } := by
  have hsame : Inv info channelId rounds
      { r with core := { r.core with sets := Function.update r.core.sets scope (r.core.sets scope) } } := by
    rw [Function.update_eq_self]
    exact h
  unfold observeBoundary at hset
  split at hset
  · obtain rfl := Except.ok.inj hset
    exact hsame
  · rename_i path hpath
    split at hset
    · cases hset
    · rename_i issueClk rest hhistory
      split_ifs at hset with hlate
      · obtain rfl := Except.ok.inj hset
        exact hsame
      · obtain rfl := Except.ok.inj hset
        have hok := h.sets scope hscope
        have hlast : lastRefpb r.device path = some issueClk := by
          unfold lastRefpb
          rw [hhistory]
          rfl
        -- the boundary was issued long enough ago, and a bank's last refresh is of its last request
        have hover := h.over_of_history (hok.waits path hpath) hlast (not_lt.mp hlate)
        refine { h with sets := fun s hs => ?_, pending_clear := fun ref href => ?_ }
        · by_cases hsame : s = scope
          · subst hsame
            dsimp only
            rw [Function.update_self]
            exact ⟨hok.banks, fun _ => hover, fun _ hsome => by cases hsome⟩
          · dsimp only
            rw [Function.update_of_ne hsame]
            exact h.sets s hs
        · have hne : ref.scope ≠ scope := by
            intro heq
            have hclear := (h.pending_clear ref href).1
            rw [heq, hpath] at hclear
            cases hclear
          dsimp only
          rw [Function.update_of_ne hne]
          exact h.pending_clear ref href

theorem Inv.observe (h : Inv info channelId rounds r) {core : HBMPerBankRefreshCore}
    (hcore : r.core.observeBoundaryRefpbs info r.device = .ok core) :
    Inv info channelId rounds { r with core := core } := by
  obtain ⟨sets, hsets, rfl⟩ := except_map_eq_ok.mp hcore
  refine foldlM_preserves (P := fun sets => Inv info channelId rounds
    { r with core := { r.core with sets := sets } }) ?_ h hsets
  intro sets scope sets' hscope hsets hstep
  obtain ⟨set, hset, rfl⟩ := except_map_eq_ok.mp hstep
  exact hsets.observe_one (List.mem_range.mp hscope) hset

/-- A new round. -/
theorem Inv.seed (h : Inv info channelId rounds r) (hempty : r.core.pendingRefpbs = [])
    (hdue : r.core.nextRefreshClk ≤ r.clk) (hclear : r.core.isPaused info r.clk = false) :
    Inv info channelId (rounds + 1)
      { r with core := { r.core.seedPendingRefpbs info with nextRefreshClk := r.core.nextRefreshClk + info.nRefiPb } } := by
  have hflat : rounds % info.banksPerScope < info.banksPerScope := Nat.mod_lt _ info.banksPerScope_pos
  -- the round takes the same flat bank of every scope: the next requests in turn
  have hround : (List.range info.scopeCount).map
      (fun scope => (r.core.sets scope).banksByFlat r.core.nextFlatBank) =
      (List.range info.scopeCount).map fun scope => turn info (rounds * info.scopeCount + scope) := by
    refine List.map_congr_left fun scope hscope => ?_
    have hlt := List.mem_range.mp hscope
    rw [h.cursor, (h.sets scope hlt).banks _ hflat]
    unfold turn
    rw [Nat.mul_comm, Nat.mul_add_mod_self_left, Nat.mod_eq_of_lt hlt, Nat.mul_add_div info.scopeCount_pos,
      Nat.div_eq_of_lt hlt, Nat.add_zero]
  have hpending : (r.core.seedPendingRefpbs info).pendingRefpbs =
      (List.range info.scopeCount).map fun scope => turn info (rounds * info.scopeCount + scope) := by
    unfold seedPendingRefpbs
    dsimp only
    rw [hempty, List.nil_append, hround]
  have hscopes : ∀ scope < info.scopeCount, (turn info (rounds * info.scopeCount + scope)).scope = scope := by
    intro scope hlt
    show (rounds * info.scopeCount + scope) % info.scopeCount = scope
    rw [Nat.mul_comm, Nat.mul_add_mod_self_left, Nat.mod_eq_of_lt hlt]
  refine { h with order := ?_, cursor := ?_, deadline := ?_, pace := ?_, pending_nodup := ?_, pending_clear := ?_ }
  · have horder := h.order
    rw [hempty, List.append_nil] at horder
    dsimp only
    rw [hpending, horder, Nat.succ_mul, List.range_add, List.map_append, List.map_map]
    rfl
  · show (r.core.nextFlatBank + 1) % info.banksPerScope = (rounds + 1) % info.banksPerScope
    rw [h.cursor, Nat.mod_add_mod]
  · dsimp only
    rw [h.deadline]
    push_cast
    ring
  · refine .inr ?_
    rw [h.deadline] at hdue
    exact hdue
  · dsimp only
    rw [hpending, List.map_map]
    have hids : (List.range info.scopeCount).map
        ((fun ref : BankRef => ref.scope) ∘ fun scope => turn info (rounds * info.scopeCount + scope)) =
        List.range info.scopeCount := by
      refine (List.map_congr_left fun scope hscope => ?_).trans (List.map_id _)
      exact hscopes scope (List.mem_range.mp hscope)
    rw [hids]
    exact List.nodup_range
  · intro ref href
    dsimp only at href
    rw [hpending] at href
    obtain ⟨scope, hscope, rfl⟩ := List.mem_map.mp href
    have hlt := List.mem_range.mp hscope
    rw [hscopes scope hlt]
    -- no scope is paused when a round begins
    have hat := List.any_eq_false.mp hclear scope hscope
    rw [Bool.or_eq_true, not_or] at hat
    refine ⟨?_, ?_⟩
    · exact Option.not_isSome_iff_eq_none.mp hat.1
    · exact not_lt.mp fun hlate => hat.2 (decide_eq_true hlate)

/-- A scope apart from that of a new request. -/
theorem SetOk.push {enqueued : List Enqueued} {issued : List (Nat × Int)} {scope : Nat} {set : RefpbSetState}
    (h : SetOk info enqueued issued scope set) {x : Enqueued}
    (hx : x.ref.scope = scope → set.pendingBoundaryBank = none ∧ ¬ IsBoundary info x.ref) :
    SetOk info (enqueued ++ [x]) issued scope set where
  banks := h.banks
  past := by
    intro hnone i y hy hscope hboundary
    rcases getElem?_push hy with hy | ⟨-, rfl⟩
    · exact h.past hnone i y hy hscope hboundary
    · exact absurd hboundary (hx hscope).2
  waits := by
    intro path hpath
    obtain ⟨i, y, hy, hscope, hboundary, hnode, hclk, hlatest⟩ := h.waits path hpath
    refine ⟨i, y, getElem?_push_of_some x hy, hscope, hboundary, hnode, hclk, fun j z hz hzscope => ?_⟩
    rcases getElem?_push hz with hz | ⟨-, rfl⟩
    · exact hlatest j z hz hzscope
    · rw [(hx hzscope).1] at hpath
      cases hpath

/-- A request is taken. All that has been served was served at an earlier clock. -/
theorem Inv.push (h : Inv info channelId rounds r) (hfresh : ∀ i t, (i, t) ∈ r.issued → t < r.clk)
    (hclk : 0 < r.clk) {pending : BankRef} {rest : List BankRef} (hpending : r.core.pendingRefpbs = pending :: rest)
    {set : RefpbSetState}
    (hset : SetOk info (r.enqueued ++ [⟨pending, refpbRequest info channelId pending, r.clk⟩]) r.issued
      pending.scope set) :
    Inv info channelId rounds
      (({ r with core := { r.core with
          pendingRefpbs := rest, sets := Function.update r.core.sets pending.scope set } }).enqueue
        (some ⟨pending, refpbRequest info channelId pending, r.clk⟩)) := by
  have hmem : pending ∈ r.core.pendingRefpbs := by
    rw [hpending]
    exact List.mem_cons_self
  obtain ⟨hnone, hallowed⟩ := h.pending_clear pending hmem
  have hscope : pending.scope < info.scopeCount := by
    have hturn : pending ∈ (List.range (rounds * info.scopeCount)).map (turn info) := by
      rw [← h.order]
      exact List.mem_append_right _ hmem
    obtain ⟨i, -, rfl⟩ := List.mem_map.mp hturn
    exact turn_scope_lt info i
  have hnodup := h.pending_nodup
  rw [hpending, List.map_cons, List.nodup_cons] at hnodup
  have horder := h.order
  rw [hpending] at horder
  refine
    { clk_nonneg := h.clk_nonneg, device := h.device, cursor := h.cursor, deadline := h.deadline, pace := h.pace
      order := ?_, requests := ?_, once := ?_, times := ?_, history := ?_, sets := ?_
      pending_nodup := hnodup.2, pending_clear := ?_, paused := ?_ }
  · show (r.enqueued ++ [_]).map (fun x : Enqueued => x.ref) ++ rest = _
    rw [List.map_append, List.append_assoc]
    exact horder
  · intro x hx
    rcases List.mem_append.mp hx with hx | hx
    · exact h.requests x hx
    · rw [List.mem_singleton.mp hx]
      exact ⟨rfl, hclk, le_rfl⟩
  · show (r.waiting ++ [r.enqueued.length] ++ r.issued.map (·.1)).Perm (List.range (r.enqueued ++ [_]).length)
    rw [List.length_append, List.length_singleton, List.range_succ, List.append_assoc]
    refine (List.perm_append_comm.append_left r.waiting).trans ?_
    rw [← List.append_assoc]
    exact h.once.append_right _
  · intro i t ht
    obtain ⟨x, hx, hle⟩ := h.times i t ht
    exact ⟨x, getElem?_push_of_some _ hx, hle⟩
  · intro scope hs flat hf path t hnode hlast
    rcases h.history scope hs flat hf path t hnode hlast with hfirst | ⟨i, x, ht, hx, href⟩
    · exact .inl hfirst
    · exact .inr ⟨i, x, ht, getElem?_push_of_some _ hx, href⟩
  · intro scope hs
    show SetOk info _ _ scope (Function.update r.core.sets pending.scope set scope)
    by_cases hsame : scope = pending.scope
    · rw [hsame, Function.update_self]
      exact hset
    · rw [Function.update_of_ne hsame]
      exact (h.sets scope hs).push fun heq => absurd heq.symm hsame
  · intro ref href
    have hne : ref.scope ≠ pending.scope := fun heq => hnodup.1 (heq ▸ List.mem_map_of_mem href)
    show (Function.update r.core.sets pending.scope set ref.scope).pendingBoundaryBank = none ∧
      (Function.update r.core.sets pending.scope set ref.scope).nextBlockAllowedClk ≤ r.clk
    rw [Function.update_of_ne hne]
    refine h.pending_clear ref ?_
    rw [hpending]
    exact List.mem_cons_of_mem _ href
  · intro i j x y hij hx hy hsame hboundary
    rcases getElem?_push hy with hy | ⟨rfl, rfl⟩
    · have hx' : r.enqueued[i]? = some x :=
        (getElem?_push hx).resolve_right fun hlast => by
          have hj := lt_of_getElem?_eq_some hy
          omega
      exact h.paused i j x y hij hx' hy hsame hboundary
    · -- the scope of the new request waits for nothing
      have hx' : r.enqueued[i]? = some x := (getElem?_push hx).resolve_right fun hlast => by omega
      obtain ⟨t, ht, hle⟩ := (h.sets pending.scope hscope).past hnone i x hx' hsame hboundary
      exact ⟨t, ht, hfresh i t ht, hle.trans hallowed⟩

theorem Inv.service (h : Inv info channelId rounds r) (hfresh : ∀ i t, (i, t) ∈ r.issued → t < r.clk)
    (hclk : 0 < r.clk) {pending : BankRef} {rest : List BankRef} (hpending : r.core.pendingRefpbs = pending :: rest)
    (prioritySend : Request Command Unit → Bool) :
    Inv info channelId rounds
      (({ r with core := (r.core.servicePendingRefpb info channelId r.clk prioritySend pending rest).1 }).enqueue
        (r.core.servicePendingRefpb info channelId r.clk prioritySend pending rest).2) := by
  have hmem : pending ∈ r.core.pendingRefpbs := by
    rw [hpending]
    exact List.mem_cons_self
  obtain ⟨hnone, -⟩ := h.pending_clear pending hmem
  obtain ⟨i, -, hturn⟩ : ∃ i ∈ List.range (rounds * info.scopeCount), turn info i = pending := by
    refine List.mem_map.mp ?_
    rw [← h.order]
    exact List.mem_append_right _ hmem
  have hok := h.sets pending.scope (hturn ▸ turn_scope_lt info i)
  unfold servicePendingRefpb
  dsimp only
  split_ifs with hsend hboundary
  · -- the last bank of a block: its scope waits for it
    refine h.push hfresh hclk hpending ⟨hok.banks, fun hno => ?_, fun path hpath => ?_⟩
    · rw [← hturn] at hno
      cases hno
    · refine ⟨r.enqueued.length, _, List.getElem?_concat_length, rfl, hboundary, hpath, rfl, fun j y hy _ => ?_⟩
      have hj := lt_of_getElem?_eq_some hy
      rw [List.length_append, List.length_singleton] at hj
      omega
  · exact h.push hfresh hclk hpending (hok.push fun _ => ⟨hnone, hboundary⟩)
  · exact h

/-- The manager has served what it could. -/
theorem Inv.serve (h : Inv info channelId rounds r) (hfresh : ∀ i t, (i, t) ∈ r.issued → t < r.clk)
    (hclk : 0 < r.clk) (prioritySend : Request Command Unit → Bool) :
    ∃ rounds', Inv info channelId rounds'
      (({ r with core := (r.core.serve info channelId r.clk prioritySend).1 }).enqueue
        (r.core.serve info channelId r.clk prioritySend).2) := by
  unfold HBMPerBankRefreshCore.serve
  split
  · rename_i pending rest hpending
    exact ⟨rounds, h.service hfresh hclk hpending prioritySend⟩
  · rename_i hempty
    split_ifs with hearly hpaused
    · exact ⟨rounds, h⟩
    · exact ⟨rounds, h⟩
    · have hseeded := h.seed hempty (not_lt.mp hearly) (Bool.not_eq_true _ ▸ hpaused)
      refine ⟨rounds + 1, ?_⟩
      dsimp only
      split
      · rename_i pending rest hpending
        have hserved := hseeded.service hfresh hclk hpending prioritySend
        unfold servicePendingRefpb at hserved ⊢
        dsimp only at hserved ⊢
        split_ifs at hserved ⊢ <;> exact hserved
      · exact hseeded

/-- A refresh of a bank shows in the history of that bank. -/
theorem Inv.history_refpb (h : Inv info channelId rounds r) {i : Nat} {x : Enqueued}
    (hx : r.enqueued[i]? = some x) {scope flat : Nat} (hscope : scope < info.scopeCount)
    (hflat : flat < info.banksPerScope) {path : Path} {t : Int}
    (hnode : (info.bankAt scope flat).node = some path)
    (hlast : lastRefpb (r.device.issueCommand info.toStandard .REFpb x.req.addrVec r.clk) path = some t) :
    (x.ref = info.bankAt scope flat ∧ t = r.clk) ∨ lastRefpb r.device path = some t := by
  have hturn := h.ref_eq hx
  have hreq := (h.requests x (List.mem_of_getElem? hx)).1
  obtain rfl := Option.some.inj hnode
  rw [lastRefpb_issueCommand h.device] at hlast
  split_ifs at hlast with hvisit
  · have hplace := HBMSpec.place_lt hscope hflat
    have hi := HBMSpec.place_lt (turn_scope_lt info i) (Nat.mod_lt (i / info.scopeCount) info.banksPerScope_pos)
    rw [hreq, hturn] at hvisit
    have heq := eq_of_bankVisit h.device hplace hi hvisit.1
    obtain ⟨t', -, ht'⟩ := Option.map_eq_some_iff.mp hlast
    refine .inl ⟨?_, ht'.symm⟩
    rw [hturn]
    have hper := info.banksPerScope_pos
    have hscope' : scope = (turn info i).scope := by
      have hdiv := congrArg (· / info.banksPerScope) heq
      rw [Nat.mul_comm, Nat.mul_add_div hper, Nat.div_eq_of_lt hflat, Nat.mul_comm, Nat.mul_add_div hper,
        Nat.div_eq_of_lt (Nat.mod_lt _ hper)] at hdiv
      omega
    have hflat' : flat = i / info.scopeCount % info.banksPerScope := by
      rw [hscope'] at heq
      omega
    rw [hscope', hflat']
    rfl
  · exact .inr hlast

/-- More requests are served. -/
theorem SetOk.mono {enqueued : List Enqueued} {issued issued' : List (Nat × Int)} {scope : Nat}
    {set : RefpbSetState} (h : SetOk info enqueued issued scope set) (hsub : ∀ x ∈ issued, x ∈ issued') :
    SetOk info enqueued issued' scope set where
  banks := h.banks
  past := by
    intro hnone i x hx hscope hboundary
    obtain ⟨t, ht, hle⟩ := h.past hnone i x hx hscope hboundary
    exact ⟨t, hsub _ ht, hle⟩
  waits := h.waits

/-- A request that is issued goes from those that wait to those that were issued. -/
theorem perm_served {waiting ids : List Nat} {issued : List (Nat × Int)} {i : Nat}
    (h : (waiting ++ issued.map fun y => y.1).Perm ids) (hwaiting : i ∈ waiting) (clk : Int) :
    (waiting.erase i ++ (issued ++ [(i, clk)]).map fun y => y.1).Perm ids := by
  rw [List.map_append, List.map_singleton, ← List.append_assoc]
  refine (List.perm_append_singleton i _).trans ?_
  rw [← List.cons_append]
  exact ((List.perm_cons_erase hwaiting).symm.append_right _).trans h

/-- A command issues. -/
theorem Inv.issue (h : Inv info channelId rounds r) (what : HBMIssue) :
    Inv info channelId rounds (r.issue info what) := by
  cases what with
  | refpb i =>
      unfold HBMRefreshRun.issue
      dsimp only
      split
      · exact h
      · rename_i x hx
        split_ifs with hwaiting
        · have hsub : ∀ y ∈ r.issued, y ∈ r.issued ++ [(i, r.clk)] := fun y hy => List.mem_append_left _ hy
          have hnew : (i, r.clk) ∈ r.issued ++ [(i, r.clk)] :=
            List.mem_append_right _ (List.mem_singleton_self _)
          refine { h with
            device := .step (.REFpb, x.req.addrVec, r.clk) h.device rfl, once := ?_, times := ?_, history := ?_
            sets := fun scope hs => (h.sets scope hs).mono hsub, paused := ?_ }
          · exact perm_served h.once hwaiting r.clk
          · intro j t ht
            rcases List.mem_append.mp ht with ht | ht
            · exact h.times j t ht
            · obtain ⟨rfl, rfl⟩ := Prod.mk.inj (List.mem_singleton.mp ht)
              exact ⟨x, hx, (h.requests x (List.mem_of_getElem? hx)).2.2, le_rfl⟩
          · intro scope hscope flat hflat path t hnode hlast
            -- the bank that shows the refresh is the one of the request, or shows an older one
            rcases h.history_refpb hx hscope hflat hnode hlast with ⟨href, rfl⟩ | hold
            · exact .inr ⟨i, x, hnew, hx, href⟩
            · rcases h.history scope hscope flat hflat path t hnode hold with hfirst | ⟨j, y, ht, hy, href⟩
              · exact .inl hfirst
              · exact .inr ⟨j, y, hsub _ ht, hy, href⟩
          · intro j k y z hjk hy hz hsame hboundary
            obtain ⟨t, ht, hle⟩ := h.paused j k y z hjk hy hz hsame hboundary
            exact ⟨t, hsub _ ht, hle⟩
        · exact h
  | other c addrVec =>
      unfold HBMRefreshRun.issue
      dsimp only
      split_ifs with hc
      · exact h
      · refine { h with device := .step (c, addrVec, r.clk) h.device rfl, history := ?_ }
        intro scope hscope flat hflat path t hnode hlast
        refine h.history scope hscope flat hflat path t hnode ?_
        obtain rfl := Option.some.inj hnode
        dsimp only at hlast
        rw [lastRefpb_issueCommand h.device, if_neg fun hand => hc hand.2] at hlast
        exact hlast

theorem Inv.issueAll (h : Inv info channelId rounds r) (issues : List HBMIssue) :
    Inv info channelId rounds (issues.foldl (HBMRefreshRun.issue info) r) := by
  induction issues generalizing r with
  | nil => exact h
  | cons what issues ih => exact ih (h.issue what)

/-- The manager asks the device for its channel. -/
theorem Inv.step (h : Inv info channelId rounds r) {input : HBMClock} (hstep : r.step info input = .ok r') :
    ∃ rounds', Inv info channelId rounds' r' := by
  obtain ⟨⟨core, x⟩, htick, rfl⟩ := except_map_eq_ok.mp hstep
  obtain ⟨observed, hobserve, heq⟩ := except_map_eq_ok.mp htick
  have hobserved : Inv info channelId rounds { r with clk := r.clk + 1, core := observed } :=
    h.advance.observe hobserve
  have hfresh : ∀ i t, (i, t) ∈ r.issued → t < r.clk + 1 := by
    intro i t ht
    obtain ⟨-, -, -, hle⟩ := h.times i t ht
    exact Int.lt_add_one_of_le hle
  obtain ⟨rounds', hserved⟩ := hobserved.serve hfresh (Int.lt_add_one_of_le h.clk_nonneg) input.prioritySend
  rw [h.device.channelId_eq] at heq
  dsimp only at hserved
  rw [heq] at hserved
  exact ⟨rounds', hserved.issueAll input.issues⟩

theorem Reached.inv (h : Reached info channelId r) : ∃ rounds, Inv info channelId rounds r := by
  obtain ⟨core, hinit, hreach⟩ := h
  obtain ⟨core', hinit', hcursor, hdeadline, hpending, hsets⟩ := init_eq info
  obtain rfl := Except.ok.inj (hinit.symm.trans hinit')
  refine hreach.invariant (fun r => ∃ rounds, Inv info channelId rounds r) ⟨0, ?_⟩ ?_
  · refine
      { clk_nonneg := le_rfl, device := .start, deadline := ?_, pace := .inl rfl
        order := ?_, cursor := ?_, requests := ?_, once := ?_, times := ?_, history := ?_
        sets := ?_, pending_nodup := ?_, pending_clear := ?_, paused := ?_ }
    · dsimp only
      rw [hpending, Nat.zero_mul]
      rfl
    · exact hcursor.trans (Nat.zero_mod _).symm
    · dsimp only
      rw [hdeadline]
      push_cast
      ring
    · exact fun x hx => absurd hx List.not_mem_nil
    · exact List.Perm.refl _
    · exact fun i t ht => absurd ht List.not_mem_nil
    · exact fun scope _ flat _ path t _ hlast => .inl (lastRefpb_init _ _ _ hlast)
    · intro scope hscope
      obtain ⟨hnone, hbanks⟩ := hsets scope hscope
      refine ⟨hbanks, fun _ i x hx => ?_, fun path hpath => ?_⟩
      · cases hx
      · rw [hnone] at hpath
        cases hpath
    · rw [hpending]
      exact List.nodup_nil
    · dsimp only
      rw [hpending]
      exact fun ref href => absurd href List.not_mem_nil
    · intro i j x y _ hx
      cases hx
  · rintro r input r' ⟨rounds, h⟩ hstep
    exact h.step hstep

/-! ## Taking turns -/

/-- The turns of one of `n` are one in `n`, and number themselves. -/
theorem filter_range_mod {n scope : Nat} (hscope : scope < n) (m : Nat) :
    ((List.range m).filter fun i => i % n = scope).map (· / n) = List.range ((m + (n - 1 - scope)) / n) := by
  have hn : 0 < n := Nat.zero_lt_of_lt hscope
  have hdiv : ∀ q k, k < n → (n * q + k) / n = q := by
    intro q k hk
    rw [Nat.mul_add_div hn, Nat.div_eq_of_lt hk, Nat.add_zero]
  induction m with
  | zero =>
      rw [Nat.zero_add, Nat.div_eq_of_lt (by omega)]
      rfl
  | succ m ih =>
      have hmod := Nat.div_add_mod m n
      have hlt := Nat.mod_lt m hn
      rw [List.range_succ, List.filter_append, List.map_append, ih]
      by_cases hturn : m % n = scope
      · have hbefore : (m + (n - 1 - scope)) / n = m / n := by
          have hsplit : m + (n - 1 - scope) = n * (m / n) + (n - 1) := by omega
          rw [hsplit, hdiv _ _ (by omega)]
        have hafter : (m + 1 + (n - 1 - scope)) / n = m / n + 1 := by
          have hsplit : m + 1 + (n - 1 - scope) = n * (m / n + 1) + 0 := by
            rw [Nat.mul_succ]
            omega
          rw [hsplit, hdiv _ _ hn]
        rw [hbefore, hafter, List.range_succ]
        simp [hturn]
      · have hsame : (m + 1 + (n - 1 - scope)) / n = (m + (n - 1 - scope)) / n := by
          rcases Nat.lt_or_gt_of_ne hturn with hless | hmore
          · have hsplit : m + (n - 1 - scope) = n * (m / n) + (m % n + (n - 1 - scope)) := by omega
            have hsplit' : m + 1 + (n - 1 - scope) = n * (m / n) + (m % n + 1 + (n - 1 - scope)) := by omega
            rw [hsplit, hsplit', hdiv _ _ (by omega), hdiv _ _ (by omega)]
          · have hsplit : m + (n - 1 - scope) = n * (m / n + 1) + (m % n - scope - 1) := by
              rw [Nat.mul_succ]
              omega
            have hsplit' : m + 1 + (n - 1 - scope) = n * (m / n + 1) + (m % n - scope) := by
              rw [Nat.mul_succ]
              omega
            rw [hsplit, hsplit', hdiv _ _ (by omega), hdiv _ _ (by omega)]
        rw [hsame]
        simp [hturn]

/-- The requests of a scope, in the order in which they were taken. -/
def ofScope (r : HBMRefreshRun) (scope : Nat) : List Enqueued := r.enqueued.filter fun x => x.ref.scope = scope

/-- What a run has handed to the controller: requests for banks of the channel; in each scope the flat banks in
turn; in no scope two more than in another; after a boundary nothing until its refresh was served and its pause
was over; and at the pace of the deadlines. -/
structure RefreshesInOrder (info : HBMSpec) (channelId : Int) (r : HBMRefreshRun) : Prop where
  requests : ∀ x ∈ r.enqueued, ∃ path ∈ info.bankNodes, x.ref = bankRef info path ∧
    x.req = Request.ofCommand (info.buildAddrVec channelId (some path)) .REFpb
  cyclic : ∀ scope < info.scopeCount, (r.ofScope scope).map (·.ref.flatBank) =
    (List.range (r.ofScope scope).length).map (· % info.banksPerScope)
  balanced : ∀ scope < info.scopeCount, ∀ scope' < info.scopeCount,
    (r.ofScope scope).length ≤ (r.ofScope scope').length + 1
  blocks : ∀ (i j : Nat) (x y : Enqueued), i < j → r.enqueued[i]? = some x → r.enqueued[j]? = some y →
    x.ref.scope = y.ref.scope → (x.ref.flatBank + 1) % info.boundaryBlockSize = 0 →
      ∃ t, (i, t) ∈ r.issued ∧ x.clk ≤ t ∧ t + info.nRfcPb ≤ y.clk
  pace : ∀ scope < info.scopeCount, ((r.ofScope scope).length : Int) * info.nRefiPb ≤ r.clk ∧
    (0 < info.nRefiPb → ((r.ofScope scope).length : Int) ≤ r.clk / info.nRefiPb)

theorem Inv.ofScope_eq (h : Inv info channelId rounds r) {scope : Nat} (hscope : scope < info.scopeCount) :
    (r.ofScope scope).length = (r.enqueued.length + (info.scopeCount - 1 - scope)) / info.scopeCount ∧
      (r.ofScope scope).map (·.ref.flatBank) =
        (List.range (r.ofScope scope).length).map (· % info.banksPerScope) := by
  have hrefs : (r.ofScope scope).map (·.ref) =
      ((List.range r.enqueued.length).filter fun i => i % info.scopeCount = scope).map (turn info) := by
    unfold ofScope
    have hfilter : (r.enqueued.filter fun x => x.ref.scope = scope).map (·.ref) =
        (r.enqueued.map (·.ref)).filter fun ref => ref.scope = scope := by
      rw [List.filter_map]
      rfl
    rw [hfilter, h.enqueued_eq.1, List.filter_map]
    rfl
  have hturns := filter_range_mod hscope r.enqueued.length
  have hlength : (r.ofScope scope).length =
      (r.enqueued.length + (info.scopeCount - 1 - scope)) / info.scopeCount := by
    have hcount := congrArg List.length hturns
    rw [List.length_map, List.length_range] at hcount
    have hsame := congrArg List.length hrefs
    rw [List.length_map, List.length_map] at hsame
    rw [hsame, hcount]
  refine ⟨hlength, ?_⟩
  calc (r.ofScope scope).map (·.ref.flatBank)
      = ((r.ofScope scope).map (·.ref)).map (·.flatBank) := by
        rw [List.map_map]
        rfl
    _ = (((List.range r.enqueued.length).filter fun i => i % info.scopeCount = scope).map
          (· / info.scopeCount)).map (· % info.banksPerScope) := by
        rw [hrefs, List.map_map, List.map_map]
        rfl
    _ = _ := by rw [hturns, hlength]

/-- Whatever the controller rejects, and whenever it serves what it has taken, banks are refreshed in order. -/
theorem refreshesInOrder (info : HBMSpec) (channelId : Int) {r : HBMRefreshRun} (h : Reached info channelId r) :
    RefreshesInOrder info channelId r := by
  obtain ⟨rounds, h⟩ := h.inv
  have hn := info.scopeCount_pos
  refine ⟨fun x hx => ?_, fun scope hscope => (h.ofScope_eq hscope).2, fun scope hscope scope' hscope' => ?_,
    fun i j x y hij hx hy hsame hboundary => ?_, fun scope hscope => ?_⟩
  · obtain ⟨i, hi⟩ := List.getElem?_of_mem hx
    have hturn := h.ref_eq hi
    have hplace := HBMSpec.place_lt (turn_scope_lt info i)
      (Nat.mod_lt (i / info.scopeCount) info.banksPerScope_pos)
    obtain ⟨hwithin, hposition⟩ := Standard.bankNodes_spec hplace
    refine ⟨_, List.getElem_mem hplace, ?_, ?_⟩
    · have hper := info.banksPerScope_pos
      have hmod := Nat.mod_lt (i / info.scopeCount) hper
      rw [← List.getD_eq_getElem _ [] hplace, info.bankRef_eq hwithin, hposition, hturn, Nat.mul_comm,
        Nat.mul_add_div hper, Nat.mul_add_mod_self_left, Nat.div_eq_of_lt hmod, Nat.mod_eq_of_lt hmod,
        Nat.add_zero, Nat.mul_comm]
      rfl
    · rw [(h.requests x hx).1, hturn, ← List.getD_eq_getElem _ [] hplace]
      rfl
  · rw [(h.ofScope_eq hscope).1, (h.ofScope_eq hscope').1, ← Nat.add_div_right _ hn]
    exact Nat.div_le_div_right (by omega)
  · obtain ⟨t, ht, -, hle⟩ := h.paused i j x y hij hx hy hsame hboundary
    obtain ⟨z, hz, hserved, -⟩ := h.times i t ht
    obtain rfl := Option.some.inj (hx.symm.trans hz)
    exact ⟨t, ht, hserved, hle⟩
  · -- a scope has no more requests than there were rounds
    have hcount : (r.ofScope scope).length ≤ rounds := by
      rw [(h.ofScope_eq hscope).1]
      refine Nat.lt_succ_iff.mp ((Nat.div_lt_iff_lt_mul hn).mpr ?_)
      have hle := h.enqueued_eq.2
      rw [Nat.succ_mul]
      omega
    have hpace : ((r.ofScope scope).length : Int) * info.nRefiPb ≤ r.clk := by
      rcases h.pace with rfl | hpace
      · rw [Nat.le_zero.mp hcount, Nat.cast_zero, Int.zero_mul]
        exact h.clk_nonneg
      · rcases Int.le_total 0 info.nRefiPb with hpos | hneg
        · exact (Int.mul_le_mul_of_nonneg_right (Int.ofNat_le.mpr hcount) hpos).trans hpace
        · exact (Int.mul_nonpos_of_nonneg_of_nonpos (Int.natCast_nonneg _) hneg).trans h.clk_nonneg
    exact ⟨hpace, fun hpos => (Int.le_ediv_iff_mul_le hpos).mpr hpace⟩

/-- Two pseudo-channels of two stack ids with two banks each. A refresh takes a bank three clocks and is
due every four. -/
def pseudoHBM : HBMSpec where
  commands := Command.all
  commands_complete := Command.mem_all
  rowLevel := 5
  levelSizes := [1, 2, 2, 1, 2, 16, 16]
  timingCons := fun level c => if level = 4 ∧ c = .REFpb then [{ cmd := .ACT, val := 3 }] else []
  commandCycles := fun _ => 1
  bankLevel := 4
  supports := fun c => c ∈ [Command.ACT, .PREpb, .PREab, .RD, .WR, .RDA, .WRA, .REFab, .REFpb]
  readLatency := 4
  readCommand := .RD
  writeCommand := .WR
  standardName := .HBM3
  nRefiPb := 4
  nRfcPb := 3
  bankLevel_eq := rfl
  rowLevel_eq := rfl
  levelSize_channel := rfl
  levelSize_pos := by
    have hall : ∀ level < 5, 0 < [1, 2, 2, 1, 2, 16, 16].getD level 0 := by decide
    exact fun level h => hall level (by omega)

/-- A clock in which the controller takes what it is sent, or refuses it, and serves what waits, or does
not. -/
def clockOf (takes serves : Bool) : HBMClock where
  prioritySend := fun _ => takes
  issues := if serves then (List.range 8).map .refpb else []

/-- The second request is refused at first, and the last banks of the first blocks are served late. -/
def busyClocks : List HBMClock :=
  List.replicate 4 (clockOf true true) ++ clockOf false true :: List.replicate 2 (clockOf true true) ++
    List.replicate 6 (clockOf true false) ++ List.replicate 10 (clockOf true true)

/-- The two pseudo-channels take turns, over the block boundary and around. -/
theorem refreshesInOrder_pseudoHBM : ∃ r : HBMRefreshRun, Reached pseudoHBM 0 r ∧
    r.enqueued.map (fun x => (x.ref.scope, x.ref.flatBank, x.clk)) =
      [(0, 0, 4), (1, 0, 6), (0, 1, 8), (1, 1, 9), (0, 2, 17), (1, 2, 18), (0, 3, 19), (1, 3, 20), (0, 0, 23)] ∧
    (2, 14) ∈ r.issued ∧ RefreshesInOrder pseudoHBM 0 r := by
  obtain ⟨core, hinit, -⟩ := init_eq pseudoHBM
  have hobs : (do
      let core ← init pseudoHBM (DRAMDevice.init pseudoHBM.toStandard 0)
      let r ← runAll (HBMRefreshRun.step pseudoHBM) busyClocks
        { device := DRAMDevice.init pseudoHBM.toStandard 0, core := core }
      pure (r.enqueued.map (fun x : Enqueued => (x.ref.scope, x.ref.flatBank, x.clk)), r.issued.take 4)) =
      .ok ([(0, 0, 4), (1, 0, 6), (0, 1, 8), (1, 1, 9), (0, 2, 17), (1, 2, 18), (0, 3, 19), (1, 3, 20), (0, 0, 23)],
        [(0, 4), (1, 6), (2, 14), (3, 14)]) := by
    decide +kernel
  rw [hinit] at hobs
  obtain ⟨core', hsame, hobs⟩ := except_bind_eq_ok.mp hobs
  obtain rfl := Except.ok.inj hsame
  obtain ⟨r, hrun, hobs⟩ := except_bind_eq_ok.mp hobs
  have hr : Reached pseudoHBM 0 r := ⟨core, hinit, reachable_of_runAll .start hrun⟩
  have hsides := Except.ok.inj hobs
  have hissued : r.issued.take 4 = [(0, 4), (1, 6), (2, 14), (3, 14)] := congrArg Prod.snd hsides
  have hlate : (2, 14) ∈ r.issued.take 4 := by
    rw [hissued]
    decide
  exact ⟨r, hr, congrArg Prod.fst hsides, List.mem_of_mem_take hlate, refreshesInOrder pseudoHBM 0 hr⟩

end HBMRefreshRun

end Ramulator.Controller
