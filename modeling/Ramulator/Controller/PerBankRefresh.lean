/-
# Ramulator.Controller.PerBankRefresh — one bank of the channel at a time.

`PerBankRefresh` (`controller/refresh/impl/per_bank.cpp`) requests a `REFpb` for one bank every `nREFIpb`
clocks, in the order of the flat bank numbers. For GDDR6 and GDDR7 it waits after the last bank of a round
until the timing history of that bank shows the refresh, and `nRFCpb` longer. It throws when a request is
not accepted.

Around the manager are its clock and its device, as for `HBMPerBankRefresh`: every tick may be followed by
commands, those that refresh a bank only for requests that the controller has taken.
-/
import Ramulator.Controller.GenericDDR
import Ramulator.Controller.HBMRefreshOrder

namespace Ramulator.Controller

open Ramulator.Base (Request)
open Ramulator.Dram Ramulator.Lib

/-! ## The manager -/

/-- What `init` reads of the standard. A channel has banks, and refresh intervals are positive. -/
structure PerBankConfig where
  standardName : String
  levelNames : List String
  spec : Standard
  nREFIpb : Int
  nRFCpb : Int
  bank_pos : 0 < spec.bankLevel
  row_gt : spec.bankLevel < spec.rowLevel
  banks_pos : 0 < spec.bankCount
  nREFIpb_pos : 0 < nREFIpb

/-- `m_requires_set_pause`. -/
def PerBankConfig.requiresSetPause (cfg : PerBankConfig) : Bool :=
  cfg.standardName == "GDDR6" || cfg.standardName == "GDDR7"

/-- A node is the path to it. -/
structure PerBankRefresh where
  nextRefreshCycle : Int
  pendingBoundaryBank : Option Path := none
  pendingBoundaryEnqueueClk : Int := -1
  nextSetAllowedClk : Int := 0
  nextBankIdx : Nat := 0

namespace PerBankRefresh

/-- `build_addr_vec` of a bank, given by its number. -/
def buildAddrVec (cfg : PerBankConfig) (channelId : Int) (bank : Nat) : AddrVec :=
  let node := cfg.spec.bankNodes.getD bank []
  channelId :: node.map (fun i : Nat => (i : Int)) ++ List.replicate (cfg.levelNames.length - 1 - node.length) (-1)

/-- `init`. -/
def init (cfg : PerBankConfig) : Except String PerBankRefresh :=
  if cfg.standardName = "HBM1" ∨ "PseudoChannel" ∈ cfg.levelNames then
    .error "PerBank refresh does not support HBM or PseudoChannel standards; use HBMPerBankRefresh instead"
  else .ok { nextRefreshCycle := cfg.nREFIpb }

/-- A request that the controller has taken, with the number of its bank. -/
structure Enqueued where
  bank : Nat
  req : Request Command Unit
  clk : Int

def refpbRequest (cfg : PerBankConfig) (channelId : Int) (bank : Nat) : Request Command Unit :=
  Request.ofCommand (buildAddrVec cfg channelId bank) .REFpb

/-- The first half of `tick`: has the last bank of the round been refreshed? -/
def observe (cfg : PerBankConfig) (device : DRAMDevice) (s : PerBankRefresh) : Except String PerBankRefresh :=
  match s.pendingBoundaryBank with
  | none => .ok s
  | some path =>
      match HBMPerBankRefreshCore.refpbHistory device path with
      | [] => .error "PerBank refresh requires Bank-level REFpb timing history"
      | issueClk :: _ =>
          if issueClk ≥ s.pendingBoundaryEnqueueClk then
            .ok { s with
              pendingBoundaryBank := none
              pendingBoundaryEnqueueClk := -1
              nextSetAllowedClk := issueClk + cfg.nRFCpb }
          else .ok s

/-- A request has been taken: after the last bank of a round the manager may have to wait. -/
def taken (cfg : PerBankConfig) (clk : Int) (s : PerBankRefresh) : PerBankRefresh :=
  let s :=
    if cfg.requiresSetPause ∧ s.nextBankIdx + 1 = cfg.spec.bankCount then
      { s with
        pendingBoundaryBank := some (cfg.spec.bankNodes.getD s.nextBankIdx [])
        pendingBoundaryEnqueueClk := clk }
    else s
  { s with
    nextBankIdx := (s.nextBankIdx + 1) % cfg.spec.bankCount
    nextRefreshCycle := s.nextRefreshCycle + cfg.nREFIpb }

/-- The second half of `tick`. -/
def serve (cfg : PerBankConfig) (channelId clk : Int) (prioritySend : Request Command Unit → Bool)
    (s : PerBankRefresh) : Except String (PerBankRefresh × Option Enqueued) :=
  if clk < s.nextRefreshCycle ∨ s.pendingBoundaryBank.isSome ∨ clk < s.nextSetAllowedClk then .ok (s, none)
  else if prioritySend (refpbRequest cfg channelId s.nextBankIdx) = false then
    .error "Failed to send per-bank refresh!"
  else .ok (s.taken cfg clk, some ⟨s.nextBankIdx, refpbRequest cfg channelId s.nextBankIdx, clk⟩)

/-- `tick`. -/
def tick (cfg : PerBankConfig) (device : DRAMDevice) (clk : Int) (prioritySend : Request Command Unit → Bool)
    (s : PerBankRefresh) : Except String (PerBankRefresh × Option Enqueued) :=
  s.observe cfg device >>= serve cfg device.channelId clk prioritySend

end PerBankRefresh

/-! ## The controller around it -/

/-- A command of one clock: the refresh that the `i`-th enqueued request asks for, or some other one. -/
inductive PerBankIssue where
  | refpb (i : Nat)
  | other (c : Command) (addrVec : AddrVec)

structure PerBankClock where
  prioritySend : Request Command Unit → Bool
  issues : List PerBankIssue

/-- The manager with its controller. `enqueued` are the requests taken, of which those in `waiting` are still
to be served; `issued` are the clocks at which the others were. -/
structure PerBankRun where
  clk : Int := 0
  device : DRAMDevice
  manager : PerBankRefresh
  enqueued : List PerBankRefresh.Enqueued := []
  waiting : List Nat := []
  issued : List (Nat × Int) := []

namespace PerBankRun

open PerBankRefresh

/-- A command issues. One that refreshes a bank does so for a request that waits. -/
def issue (cfg : PerBankConfig) (r : PerBankRun) : PerBankIssue → PerBankRun
  | .refpb i =>
      match r.enqueued[i]? with
      | none => r
      | some x =>
          if i ∈ r.waiting then
            { r with
              device := r.device.issueCommand cfg.spec .REFpb x.req.addrVec r.clk
              waiting := r.waiting.erase i
              issued := r.issued ++ [(i, r.clk)] }
          else r
  | .other c addrVec =>
      if c = .REFpb then r else { r with device := r.device.issueCommand cfg.spec c addrVec r.clk }

/-- The controller has taken a request. -/
def enqueue (x : Option Enqueued) (r : PerBankRun) : PerBankRun :=
  match x with
  | none => r
  | some x => { r with enqueued := r.enqueued ++ [x], waiting := r.waiting ++ [r.enqueued.length] }

/-- One clock: the manager ticks, and commands issue. -/
def step (cfg : PerBankConfig) (input : PerBankClock) (r : PerBankRun) : Except String PerBankRun :=
  (r.manager.tick cfg r.device (r.clk + 1) input.prioritySend).map fun (manager, x) =>
    input.issues.foldl (issue cfg) ({ r with clk := r.clk + 1, manager := manager }.enqueue x)

/-- The states of a run. -/
def Reached (cfg : PerBankConfig) (channelId : Int) (r : PerBankRun) : Prop :=
  ∃ manager, PerBankRefresh.init cfg = .ok manager ∧
    Reachable { device := DRAMDevice.init cfg.spec channelId, manager := manager }
      (fun r input r' => step cfg input r = .ok r') r

/-! ## The invariant -/

variable {cfg : PerBankConfig} {channelId : Int} {r r' : PerBankRun}

/-- The `j`-th request ends a round, after which the manager waits. -/
def IsBoundary (cfg : PerBankConfig) (j : Nat) : Prop := cfg.requiresSetPause = true ∧ (j + 1) % cfg.spec.bankCount = 0

structure Inv (cfg : PerBankConfig) (channelId : Int) (r : PerBankRun) : Prop where
  clk_nonneg : 0 ≤ r.clk
  device : DRAMDevice.Issued cfg.spec channelId r.device
  banks : ∀ (j : Nat) (x : Enqueued), r.enqueued[j]? = some x → x.bank = j % cfg.spec.bankCount
  cursor : r.manager.nextBankIdx = r.enqueued.length % cfg.spec.bankCount
  deadline : r.manager.nextRefreshCycle = (r.enqueued.length + 1 : Nat) * cfg.nREFIpb
  requests : ∀ x ∈ r.enqueued, x.req = refpbRequest cfg channelId x.bank ∧ 0 < x.clk ∧ x.clk ≤ r.clk
  pace : ∀ (j : Nat) (x : Enqueued), r.enqueued[j]? = some x → (j + 1 : Nat) * cfg.nREFIpb ≤ x.clk
  sorted : r.enqueued.Pairwise fun x y => x.clk < y.clk
  once : (r.waiting ++ r.issued.map (·.1)).Perm (List.range r.enqueued.length)
  times : ∀ i t, (i, t) ∈ r.issued → ∃ x : Enqueued, r.enqueued[i]? = some x ∧ x.clk ≤ t ∧ t ≤ r.clk
  history : ∀ b < cfg.spec.bankCount, ∀ t,
    HBMPerBankRefreshCore.lastRefpb r.device (cfg.spec.bankNodes.getD b []) = some t →
      t = -1 ∨ ∃ i, ∃ x : Enqueued, (i, t) ∈ r.issued ∧ r.enqueued[i]? = some x ∧ x.bank = b
  past : r.manager.pendingBoundaryBank = none → ∀ j < r.enqueued.length, IsBoundary cfg j →
    ∃ t : Int, (j, t) ∈ r.issued ∧ t + cfg.nRFCpb ≤ r.manager.nextSetAllowedClk
  waits : ∀ path, r.manager.pendingBoundaryBank = some path → ∃ (j : Nat) (x : Enqueued),
    r.enqueued[j]? = some x ∧ j + 1 = r.enqueued.length ∧ IsBoundary cfg j ∧
      path = cfg.spec.bankNodes.getD x.bank [] ∧ x.clk = r.manager.pendingBoundaryEnqueueClk
  paused : ∀ (i j : Nat) (y : Enqueued), i < j → r.enqueued[j]? = some y → IsBoundary cfg i →
    ∃ t : Int, (i, t) ∈ r.issued ∧ t < y.clk ∧ t + cfg.nRFCpb ≤ y.clk
  prompt : cfg.requiresSetPause = false → r.manager.pendingBoundaryBank = none ∧ r.manager.nextSetAllowedClk = 0 ∧
    r.clk < r.manager.nextRefreshCycle ∧
    ∀ (j : Nat) (x : Enqueued), r.enqueued[j]? = some x → x.clk = (j + 1 : Nat) * cfg.nREFIpb

/-- A request is served once. -/
theorem Inv.issued_unique (h : Inv cfg channelId r) {i : Nat} {t t' : Int} (ht : (i, t) ∈ r.issued)
    (ht' : (i, t') ∈ r.issued) : t = t' := by
  have hnodup : (r.issued.map (·.1)).Nodup :=
    (List.nodup_append'.mp (h.once.nodup_iff.mpr List.nodup_range)).2.1
  exact congrArg Prod.snd (List.inj_on_of_nodup_map hnodup ht ht' rfl)

/-! ## The addresses of the requests -/

/-- The coordinates of a bank are those of its node. -/
theorem coord_buildAddrVec {b : Nat} (hb : b < cfg.spec.bankCount) {l : Nat} (hl : l < cfg.spec.bankLevel) :
    ∃ hl' : l < (cfg.spec.bankNodes.getD b []).length,
      (buildAddrVec cfg channelId b).coord (l + 1) = ((cfg.spec.bankNodes.getD b [])[l] : Nat) := by
  have hl' : l < (cfg.spec.bankNodes.getD b []).length := (Standard.length_bankNode hb).symm ▸ hl
  have hl'' : l < ((cfg.spec.bankNodes.getD b []).map fun i : Nat => (i : Int)).length := by
    rw [List.length_map]
    exact hl'
  refine ⟨hl', ?_⟩
  unfold buildAddrVec AddrVec.coord
  dsimp only
  rw [List.cons_append, List.getD_cons_succ, List.getD_append _ _ _ _ hl'', List.getD_eq_getElem _ _ hl'',
    List.getElem_map]

theorem selects_buildAddrVec {b i : Nat} (hb : b < cfg.spec.bankCount) (hi : i < cfg.spec.bankCount)
    (h : cfg.spec.Selected channelId (buildAddrVec cfg channelId b) i) : i = b := by
  obtain ⟨-, hcoord⟩ := (Standard.selected_iff hi).mp h
  have hleni := Standard.length_bankNode hi
  have hlenb := Standard.length_bankNode hb
  have hpath : cfg.spec.bankNodes.getD i [] = cfg.spec.bankNodes.getD b [] := by
    refine List.ext_getElem (hleni.trans hlenb.symm) fun l hl hl' => ?_
    have hat := hcoord l (hleni ▸ hl)
    obtain ⟨_, haddr⟩ := coord_buildAddrVec hb (hleni ▸ hl)
    rw [haddr, List.getD_eq_getElem _ _ hl] at hat
    omega
  rw [← (Standard.bankNodes_spec hi).2, ← (Standard.bankNodes_spec hb).2, hpath]

/-- A refresh shows in the history of its own bank only. -/
theorem bank_eq_of_visit {d : DRAMDevice} (hd : DRAMDevice.Issued cfg.spec channelId d) {b i : Nat}
    (hb : b < cfg.spec.bankCount) (hi : i < cfg.spec.bankCount)
    (hvisit : d.bankVisit cfg.spec .REFpb (buildAddrVec cfg channelId b) i = some .target) : i = b :=
  selects_buildAddrVec hb hi
    ((DRAMNode.visit_eq_target_iff hd.built _ _ (hd.isSome_follow cfg.row_gt hi)).mp hvisit)

/-- They are in range. -/
theorem concrete_buildAddrVec {b : Nat} (hb : b < cfg.spec.bankCount) :
    cfg.spec.Concrete (buildAddrVec cfg channelId b) := by
  obtain ⟨hwithin, -⟩ := Standard.bankNodes_spec hb
  intro l hl
  obtain ⟨hl', heq⟩ := coord_buildAddrVec hb hl
  have hbound := (List.forall₂_iff_get.mp hwithin).2 l (by rw [Standard.length_bankSizes]; exact hl) hl'
  simp only [List.get_eq_getElem, Standard.bankSizes, List.getElem_map, List.getElem_range] at hbound
  rw [heq]
  omega

/-- A request names its bank. -/
theorem flatBankId_buildAddrVec {b : Nat} (hb : b < cfg.spec.bankCount) :
    cfg.spec.flatBankId (buildAddrVec cfg channelId b) = b := by
  obtain ⟨-, hplace⟩ := Standard.bankNodes_spec hb
  have hlen := Standard.length_bankNode hb
  have hpath : cfg.spec.bankPath (buildAddrVec cfg channelId b) = cfg.spec.bankNodes.getD b [] := by
    refine List.ext_getElem ?_ fun l hl hl' => ?_
    · rw [Standard.bankPath, List.length_map, List.length_range, hlen]
    · obtain ⟨_, heq⟩ := coord_buildAddrVec hb (hlen ▸ hl')
      simp only [Standard.bankPath, List.getElem_map, List.getElem_range]
      rw [heq, Int.toNat_natCast]
  rw [(concrete_buildAddrVec hb).flatBankId_eq, hpath, hplace]

/-! ## A command -/

theorem Inv.bank_lt (h : Inv cfg channelId r) {j : Nat} {x : Enqueued} (hx : r.enqueued[j]? = some x) :
    x.bank < cfg.spec.bankCount := by
  rw [h.banks j x hx]
  exact Nat.mod_lt _ cfg.banks_pos

theorem Inv.issue (h : Inv cfg channelId r) (what : PerBankIssue) : Inv cfg channelId (r.issue cfg what) := by
  cases what with
  | refpb i =>
      unfold PerBankRun.issue
      dsimp only
      split
      · exact h
      · rename_i x hx
        split_ifs with hwaiting
        · have hsub : ∀ y ∈ r.issued, y ∈ r.issued ++ [(i, r.clk)] := fun y hy => List.mem_append_left _ hy
          have hnew : (i, r.clk) ∈ r.issued ++ [(i, r.clk)] := List.mem_append_right _ (List.mem_singleton_self _)
          have hreq := h.requests x (List.mem_of_getElem? hx)
          refine { h with
            device := .step (.REFpb, x.req.addrVec, r.clk) h.device rfl, once := ?_, times := ?_, history := ?_
            past := ?_, paused := ?_ }
          · exact HBMRefreshRun.perm_served h.once hwaiting r.clk
          · intro j t ht
            rcases List.mem_append.mp ht with ht | ht
            · exact h.times j t ht
            · obtain ⟨rfl, rfl⟩ := Prod.mk.inj (List.mem_singleton.mp ht)
              exact ⟨x, hx, hreq.2.2, le_rfl⟩
          · intro b hb t hlast
            dsimp only at hlast
            rw [HBMPerBankRefreshCore.lastRefpb_issueCommand h.device] at hlast
            split_ifs at hlast with hvisit
            · -- a bank that shows this refresh is the bank of the request
              rw [hreq.1] at hvisit
              have hbank := bank_eq_of_visit h.device (h.bank_lt hx) hb hvisit.1
              obtain ⟨_, -, rfl⟩ := Option.map_eq_some_iff.mp hlast
              exact .inr ⟨i, x, hnew, hx, hbank.symm⟩
            · rcases h.history b hb t hlast with hfirst | ⟨j, y, ht, hy, hbank⟩
              · exact .inl hfirst
              · exact .inr ⟨j, y, hsub _ ht, hy, hbank⟩
          · intro hnone j hj hboundary
            obtain ⟨t, ht, hle⟩ := h.past hnone j hj hboundary
            exact ⟨t, hsub _ ht, hle⟩
          · intro j k y hjk hy hboundary
            obtain ⟨t, ht, hle⟩ := h.paused j k y hjk hy hboundary
            exact ⟨t, hsub _ ht, hle⟩
        · exact h
  | other c addrVec =>
      unfold PerBankRun.issue
      dsimp only
      split_ifs with hc
      · exact h
      · refine { h with device := .step (c, addrVec, r.clk) h.device rfl, history := ?_ }
        intro b hb t hlast
        refine h.history b hb t ?_
        dsimp only at hlast
        rw [HBMPerBankRefreshCore.lastRefpb_issueCommand h.device, if_neg fun hand => hc hand.2] at hlast
        exact hlast

theorem Inv.issueAll (h : Inv cfg channelId r) (issues : List PerBankIssue) :
    Inv cfg channelId (issues.foldl (PerBankRun.issue cfg) r) := by
  induction issues generalizing r with
  | nil => exact h
  | cons what issues ih => exact ih (h.issue what)

/-! ## A tick -/

/-- The history shows the refresh that the manager waits for, and none before it. -/
theorem Inv.observe (h : Inv cfg channelId r) {manager : PerBankRefresh}
    (hobserve : r.manager.observe cfg r.device = .ok manager) : Inv cfg channelId { r with manager := manager } := by
  unfold PerBankRefresh.observe at hobserve
  split at hobserve
  · cases hobserve
    exact h
  · rename_i path hpath
    obtain ⟨j, x, hx, hlast, hboundary, rfl, hclk⟩ := h.waits path hpath
    have hpause := hboundary.1
    split at hobserve
    · cases hobserve
    · rename_i issueClk rest hhistory
      split_ifs at hobserve with hshown
      · cases hobserve
        have hshows : HBMPerBankRefreshCore.lastRefpb r.device (cfg.spec.bankNodes.getD x.bank []) = some issueClk := by
          unfold HBMPerBankRefreshCore.lastRefpb
          rw [hhistory]
          rfl
        have hpos := (h.requests x (List.mem_of_getElem? hx)).2.1
        obtain ⟨i, y, hissued, hy, hbank⟩ := (h.history x.bank (h.bank_lt hx) issueClk hshows).resolve_left (by omega)
        -- a request of an older round for the bank was issued before this one was made
        have hij : i = j := by
          by_contra hne
          have hi : i < r.enqueued.length := (List.getElem?_eq_some_iff.mp hy).1
          have hmod : (i + 1) % cfg.spec.bankCount = 0 := by
            have hsame : i % cfg.spec.bankCount = j % cfg.spec.bankCount := by
              rw [← h.banks i y hy, ← h.banks j x hx, hbank]
            rw [Nat.add_mod, hsame, ← Nat.add_mod]
            exact hboundary.2
          obtain ⟨t, ht, hbefore, -⟩ := h.paused i j x (by omega) hx ⟨hpause, hmod⟩
          have hsame := h.issued_unique ht hissued
          omega
        subst hij
        refine { h with past := ?_, waits := ?_, prompt := ?_ }
        · intro _ i' hi' hboundary'
          have hlt : i' < r.enqueued.length := hi'
          by_cases heq : i' = i
          · exact ⟨issueClk, heq ▸ hissued, le_rfl⟩
          · obtain ⟨t, ht, hbefore, -⟩ := h.paused i' i x (by omega) hx hboundary'
            exact ⟨t, ht, by dsimp only; omega⟩
        · intro path hpath
          cases hpath
        · intro hno
          rw [hno] at hpause
          cases hpause
      · cases hobserve
        exact h

theorem succ_mod_eq_zero_iff {n : Nat} (hn : 0 < n) (k : Nat) : (k + 1) % n = 0 ↔ k % n + 1 = n := by
  have hdiv := Nat.mod_add_div k n
  have hlt := Nat.mod_lt k hn
  have hmod : (k + 1) % n = (k % n + 1) % n := by
    rw [show k + 1 = k % n + 1 + n * (k / n) by omega, Nat.add_mul_mod_self_left]
  rw [hmod]
  constructor
  · intro hzero
    by_contra hne
    rw [Nat.mod_eq_of_lt (by omega)] at hzero
    omega
  · intro hlast
    rw [hlast, Nat.mod_self]

theorem getElem?_concat {α : Type} {l : List α} {a x : α} {j : Nat} (h : (l ++ [a])[j]? = some x) :
    l[j]? = some x ∨ j = l.length ∧ x = a := by
  rcases lt_trichotomy j l.length with hlt | heq | hgt
  · rw [List.getElem?_append_left hlt] at h
    exact .inl h
  · rw [heq, List.getElem?_concat_length] at h
    exact .inr ⟨heq, (Option.some.inj h).symm⟩
  · rw [List.getElem?_eq_none (by rw [List.length_append, List.length_singleton]; omega)] at h
    cases h

section

variable (cfg : PerBankConfig) (clk : Int) (s : PerBankRefresh)

@[simp] theorem nextBankIdx_taken : (s.taken cfg clk).nextBankIdx = (s.nextBankIdx + 1) % cfg.spec.bankCount := by
  unfold taken
  dsimp only
  split <;> rfl

@[simp] theorem nextRefreshCycle_taken : (s.taken cfg clk).nextRefreshCycle = s.nextRefreshCycle + cfg.nREFIpb := by
  unfold taken
  dsimp only
  split <;> rfl

@[simp] theorem nextSetAllowedClk_taken : (s.taken cfg clk).nextSetAllowedClk = s.nextSetAllowedClk := by
  unfold taken
  dsimp only
  split <;> rfl

theorem pendingBoundaryBank_taken : (s.taken cfg clk).pendingBoundaryBank =
    if cfg.requiresSetPause ∧ s.nextBankIdx + 1 = cfg.spec.bankCount then
      some (cfg.spec.bankNodes.getD s.nextBankIdx [])
    else s.pendingBoundaryBank := by
  unfold taken
  dsimp only
  split <;> rfl

theorem pendingBoundaryEnqueueClk_taken : (s.taken cfg clk).pendingBoundaryEnqueueClk =
    if cfg.requiresSetPause ∧ s.nextBankIdx + 1 = cfg.spec.bankCount then clk else s.pendingBoundaryEnqueueClk := by
  unfold taken
  dsimp only
  split <;> rfl

end

/-! ## A request -/

/-- The request that is due. -/
def next (cfg : PerBankConfig) (channelId : Int) (r : PerBankRun) : Enqueued :=
  ⟨r.manager.nextBankIdx, refpbRequest cfg channelId r.manager.nextBankIdx, r.clk + 1⟩

/-- The controller takes it. -/
def take (cfg : PerBankConfig) (channelId : Int) (r : PerBankRun) : PerBankRun :=
  { r with clk := r.clk + 1, manager := r.manager.taken cfg (r.clk + 1) }.enqueue (some (next cfg channelId r))

section

variable (cfg : PerBankConfig) (channelId : Int) (r : PerBankRun)

@[simp] theorem enqueued_take : (r.take cfg channelId).enqueued = r.enqueued ++ [next cfg channelId r] := rfl

@[simp] theorem clk_take : (r.take cfg channelId).clk = r.clk + 1 := rfl

@[simp] theorem manager_take : (r.take cfg channelId).manager = r.manager.taken cfg (r.clk + 1) := rfl

@[simp] theorem issued_take : (r.take cfg channelId).issued = r.issued := rfl

@[simp] theorem waiting_take : (r.take cfg channelId).waiting = r.waiting ++ [r.enqueued.length] := rfl

end

theorem getElem?_enqueued_take {j : Nat} {x : Enqueued} (h : r.enqueued[j]? = some x) :
    (r.take cfg channelId).enqueued[j]? = some x := by
  rw [enqueued_take, List.getElem?_append_left (List.getElem?_eq_some_iff.mp h).1, h]

/-- The request of the manager ends a round when it is for the last bank. -/
theorem Inv.isBoundary_iff (h : Inv cfg channelId r) : IsBoundary cfg r.enqueued.length ↔
    cfg.requiresSetPause = true ∧ r.manager.nextBankIdx + 1 = cfg.spec.bankCount := by
  rw [IsBoundary, succ_mod_eq_zero_iff cfg.banks_pos, h.cursor]

/-- Nothing is due, or the manager waits. -/
theorem Inv.pass (h : Inv cfg channelId r) (hwait : r.clk + 1 < r.manager.nextRefreshCycle ∨
      r.manager.pendingBoundaryBank.isSome ∨ r.clk + 1 < r.manager.nextSetAllowedClk) :
    Inv cfg channelId { r with clk := r.clk + 1 } := by
  have hclk := h.clk_nonneg
  refine { h with clk_nonneg := by dsimp only; omega, requests := ?_, times := ?_, prompt := ?_ }
  · intro x hx
    obtain ⟨hreq, hpos, hle⟩ := h.requests x hx
    exact ⟨hreq, hpos, by dsimp only; omega⟩
  · intro i t ht
    obtain ⟨x, hx, hge, hle⟩ := h.times i t ht
    exact ⟨x, hx, hge, by dsimp only; omega⟩
  · intro hno
    obtain ⟨hnone, hallowed, hlt, hexact⟩ := h.prompt hno
    refine ⟨hnone, hallowed, ?_, hexact⟩
    rcases hwait with hdue | hpending | hpause
    · exact hdue
    · rw [hnone] at hpending
      cases hpending
    · dsimp only
      omega

theorem Inv.once_take (h : Inv cfg channelId r) :
    ((r.take cfg channelId).waiting ++ (r.take cfg channelId).issued.map (·.1)).Perm
      (List.range (r.take cfg channelId).enqueued.length) := by
  rw [waiting_take, issued_take, enqueued_take, List.length_append, List.length_singleton, List.range_succ,
    List.append_assoc]
  refine (List.Perm.append_left r.waiting List.perm_append_comm).trans ?_
  rw [← List.append_assoc]
  exact h.once.append_right _

/-- After the last request of a round the manager waits for that one. -/
theorem Inv.waits_take (h : Inv cfg channelId r) (hnone : r.manager.pendingBoundaryBank = none) {path : Path}
    (hpath : (r.manager.taken cfg (r.clk + 1)).pendingBoundaryBank = some path) :
    IsBoundary cfg r.enqueued.length ∧ path = cfg.spec.bankNodes.getD r.manager.nextBankIdx [] ∧
      (r.manager.taken cfg (r.clk + 1)).pendingBoundaryEnqueueClk = r.clk + 1 := by
  rw [pendingBoundaryBank_taken] at hpath
  split_ifs at hpath with hlast
  · exact ⟨h.isBoundary_iff.mpr hlast, (Option.some.inj hpath).symm,
      by rw [pendingBoundaryEnqueueClk_taken, if_pos hlast]⟩
  · rw [hnone] at hpath
    cases hpath

/-- The rounds that ended before are over. -/
theorem Inv.past_take (h : Inv cfg channelId r) (hnone : r.manager.pendingBoundaryBank = none)
    (hclear : (r.manager.taken cfg (r.clk + 1)).pendingBoundaryBank = none) {j : Nat}
    (hj : j < r.enqueued.length + 1) (hboundary : IsBoundary cfg j) :
    ∃ t : Int, (j, t) ∈ r.issued ∧ t + cfg.nRFCpb ≤ r.manager.nextSetAllowedClk := by
  rcases Nat.lt_succ_iff_lt_or_eq.mp hj with hlt | rfl
  · exact h.past hnone j hlt hboundary
  · rw [pendingBoundaryBank_taken, if_pos (h.isBoundary_iff.mp hboundary)] at hclear
    cases hclear

/-- Without a pause the request is made when it is due. -/
theorem Inv.prompt_take (h : Inv cfg channelId r) (hdue : r.manager.nextRefreshCycle ≤ r.clk + 1)
    (hno : cfg.requiresSetPause = false) :
    r.clk + 1 = r.manager.nextRefreshCycle ∧ (r.manager.taken cfg (r.clk + 1)).pendingBoundaryBank = none ∧
      r.manager.nextSetAllowedClk = 0 := by
  obtain ⟨hnone, hzero, hlt, -⟩ := h.prompt hno
  have hlast : ¬ (cfg.requiresSetPause = true ∧ r.manager.nextBankIdx + 1 = cfg.spec.bankCount) := by
    rw [hno]
    exact fun hlast => Bool.false_ne_true hlast.1
  refine ⟨by omega, ?_, hzero⟩
  rw [pendingBoundaryBank_taken, if_neg hlast]
  exact hnone

/-- The next bank's request is taken. -/
theorem Inv.take (h : Inv cfg channelId r) (hdue : r.manager.nextRefreshCycle ≤ r.clk + 1)
    (hnone : r.manager.pendingBoundaryBank = none) (hallowed : r.manager.nextSetAllowedClk ≤ r.clk + 1) :
    Inv cfg channelId (r.take cfg channelId) := by
  have hclk := h.clk_nonneg
  -- each fact is one about the older requests and one about the last, which is the next in turn
  have hnew : ∀ {j : Nat} {y : Enqueued}, (r.take cfg channelId).enqueued[j]? = some y →
      r.enqueued[j]? = some y ∨ j = r.enqueued.length ∧ y = next cfg channelId r := getElem?_concat
  have hcount : (r.take cfg channelId).enqueued.length = r.enqueued.length + 1 := by simp
  constructor
  case clk_nonneg => exact (by omega : 0 ≤ r.clk + 1)
  case device => exact h.device
  case banks =>
    intro j y hy
    rcases hnew hy with hy | ⟨rfl, rfl⟩
    · exact h.banks j y hy
    · exact h.cursor
  case cursor => rw [manager_take, nextBankIdx_taken, hcount, h.cursor, Nat.mod_add_mod]
  case deadline =>
    rw [manager_take, nextRefreshCycle_taken, hcount, h.deadline]
    push_cast
    ring
  case requests =>
    intro y hy
    rcases List.mem_append.mp hy with hy | hy
    · obtain ⟨hreq, hpos, hle⟩ := h.requests y hy
      exact ⟨hreq, hpos, by rw [clk_take]; omega⟩
    · obtain rfl := List.mem_singleton.mp hy
      exact ⟨rfl, (by omega : 0 < r.clk + 1), le_rfl⟩
  case pace =>
    intro j y hy
    rcases hnew hy with hy | ⟨rfl, rfl⟩
    · exact h.pace j y hy
    · rw [← h.deadline]
      exact hdue
  case sorted =>
    refine List.pairwise_append.mpr ⟨h.sorted, List.pairwise_singleton _ _, fun y hy z hz => ?_⟩
    obtain rfl := List.mem_singleton.mp hz
    exact Int.lt_add_one_iff.mpr (h.requests y hy).2.2
  case once => exact h.once_take
  case times =>
    intro i t ht
    obtain ⟨y, hy, hge, hle⟩ := h.times i t ht
    exact ⟨y, getElem?_enqueued_take hy, hge, by rw [clk_take]; omega⟩
  case history =>
    intro b hb t hlast
    rcases h.history b hb t hlast with hfirst | ⟨i, y, ht, hy, hbank⟩
    · exact .inl hfirst
    · exact .inr ⟨i, y, ht, getElem?_enqueued_take hy, hbank⟩
  case past =>
    intro hclear j hj hboundary
    rw [manager_take, nextSetAllowedClk_taken]
    exact h.past_take hnone hclear (hcount ▸ hj) hboundary
  case waits =>
    intro path hpath
    obtain ⟨hboundary, hplace, hsince⟩ := h.waits_take hnone hpath
    exact ⟨r.enqueued.length, _, List.getElem?_concat_length, hcount.symm, hboundary, hplace, hsince.symm⟩
  case paused =>
    intro i j y hij hy hboundary
    rcases hnew hy with hy | ⟨rfl, rfl⟩
    · exact h.paused i j y hij hy hboundary
    · obtain ⟨t, ht, hle⟩ := h.past hnone i hij hboundary
      obtain ⟨-, -, -, hbefore⟩ := h.times i t ht
      exact ⟨t, ht, Int.lt_add_one_iff.mpr hbefore, hle.trans hallowed⟩
  case prompt =>
    intro hno
    obtain ⟨hnow, hclear, hzero⟩ := h.prompt_take hdue hno
    have hperiod := cfg.nREFIpb_pos
    rw [manager_take, nextSetAllowedClk_taken, nextRefreshCycle_taken, clk_take]
    refine ⟨hclear, hzero, by omega, fun j y hy => ?_⟩
    rcases hnew hy with hy | ⟨rfl, rfl⟩
    · exact (h.prompt hno).2.2.2 j y hy
    · rw [← h.deadline]
      exact hnow

/-- A request, or none. -/
theorem Inv.serve (h : Inv cfg channelId r) {prioritySend : Request Command Unit → Bool} {manager : PerBankRefresh}
    {x : Option Enqueued} (hserve : r.manager.serve cfg channelId (r.clk + 1) prioritySend = .ok (manager, x)) :
    Inv cfg channelId ({ r with clk := r.clk + 1, manager := manager }.enqueue x) := by
  unfold PerBankRefresh.serve at hserve
  split at hserve
  · rename_i hwait
    cases hserve
    exact h.pass hwait
  · rename_i hgo
    push Not at hgo
    obtain ⟨hdue, hpending, hallowed⟩ := hgo
    split at hserve
    · cases hserve
    · cases hserve
      exact h.take hdue (Option.not_isSome_iff_eq_none.mp hpending) hallowed

/-! ## Runs -/

/-- The manager asks the device for its channel. -/
theorem Inv.step (h : Inv cfg channelId r) {input : PerBankClock} (hstep : step cfg input r = .ok r') :
    Inv cfg channelId r' := by
  obtain ⟨⟨manager, x⟩, htick, rfl⟩ := except_map_eq_ok.mp hstep
  obtain ⟨observed, hobserve, hserve⟩ := except_bind_eq_ok.mp htick
  rw [h.device.channelId_eq] at hserve
  exact ((h.observe hobserve).serve hserve).issueAll input.issues

theorem Reached.inv (h : Reached cfg channelId r) : Inv cfg channelId r := by
  obtain ⟨manager, hinit, hreach⟩ := h
  refine hreach.invariant (Inv cfg channelId) ?_ fun r input r' h hstep => h.step hstep
  unfold PerBankRefresh.init at hinit
  split at hinit
  · cases hinit
  · cases hinit
    have hperiod := cfg.nREFIpb_pos
    exact
      { clk_nonneg := le_rfl
        device := .start
        banks := fun j x hx => by cases hx
        cursor := (Nat.zero_mod _).symm
        deadline := (one_mul _).symm
        requests := fun x hx => absurd hx List.not_mem_nil
        pace := fun j x hx => by cases hx
        sorted := List.Pairwise.nil
        once := List.Perm.refl _
        times := fun i t ht => absurd ht List.not_mem_nil
        history := fun b _ t hlast => .inl (HBMPerBankRefreshCore.lastRefpb_init _ _ _ hlast)
        past := fun _ j hj => absurd hj (Nat.not_lt_zero j)
        waits := fun path hpath => by cases hpath
        paused := fun i j y _ hy => by cases hy
        prompt := fun _ => ⟨rfl, rfl, hperiod, fun j x hx => by cases hx⟩ }

/-- In every run the requests take the banks of the channel in turn: each addresses its bank, with coordinates
in range, is served at most once and never before it was made, and keeps the pace of the deadlines. Where the standard has no pause between
rounds there is one at every multiple of `nREFIpb`. Where it has one, no request follows the last of a round
before that was served and `nRFCpb` clocks have passed. -/
theorem per_bank_in_turn (cfg : PerBankConfig) (channelId : Int) {r : PerBankRun} (h : Reached cfg channelId r) :
    (∀ (j : Nat) (x : Enqueued), r.enqueued[j]? = some x →
      (x.req.addrVec.coord 0 = channelId ∧ cfg.spec.Concrete x.req.addrVec ∧
        cfg.spec.flatBankId x.req.addrVec = j % cfg.spec.bankCount) ∧
      (j + 1 : Nat) * cfg.nREFIpb ≤ x.clk ∧ x.clk ≤ r.clk) ∧
    (r.enqueued.Pairwise fun x y => x.clk < y.clk) ∧
    (r.waiting ++ r.issued.map (·.1)).Perm (List.range r.enqueued.length) ∧
    (∀ i t, (i, t) ∈ r.issued → ∃ x : Enqueued, r.enqueued[i]? = some x ∧ x.clk ≤ t) ∧
    (cfg.requiresSetPause = false → (r.enqueued.length : Int) = r.clk / cfg.nREFIpb ∧
      ∀ (j : Nat) (x : Enqueued), r.enqueued[j]? = some x → x.clk = (j + 1 : Nat) * cfg.nREFIpb) ∧
    (cfg.requiresSetPause = true → ∀ (i j : Nat) (y : Enqueued), i < j → r.enqueued[j]? = some y →
      (i + 1) % cfg.spec.bankCount = 0 → ∃ t : Int, (i, t) ∈ r.issued ∧ t < y.clk ∧ t + cfg.nRFCpb ≤ y.clk) := by
  have hinv := h.inv
  refine ⟨fun j x hx => ?_, hinv.sorted, hinv.once, fun i t ht => ?_, fun hno => ?_, fun hpause i j y hij hy hlast => ?_⟩
  · obtain ⟨hreq, -, hle⟩ := hinv.requests x (List.mem_of_getElem? hx)
    refine ⟨?_, hinv.pace j x hx, hle⟩
    rw [hreq, refpbRequest]
    refine ⟨rfl, concrete_buildAddrVec (hinv.bank_lt hx), ?_⟩
    exact (flatBankId_buildAddrVec (hinv.bank_lt hx)).trans (by rw [hinv.banks j x hx, Int.natCast_emod])
  · obtain ⟨x, hx, hge, -⟩ := hinv.times i t ht
    exact ⟨x, hx, hge⟩
  · obtain ⟨-, -, hlt, hexact⟩ := hinv.prompt hno
    refine ⟨?_, hexact⟩
    rw [hinv.deadline] at hlt
    -- the last request made was due when it was made
    have hmade : (r.enqueued.length : Int) * cfg.nREFIpb ≤ r.clk := by
      rcases List.eq_nil_or_concat' r.enqueued with hnil | ⟨before, x, hconcat⟩
      · rw [hnil]
        exact (zero_mul _).trans_le hinv.clk_nonneg
      · have hx : r.enqueued[before.length]? = some x := by
          rw [hconcat]
          exact List.getElem?_concat_length
        have hle := (hinv.requests x (List.mem_of_getElem? hx)).2.2
        have hpace := hinv.pace _ x hx
        rw [hconcat, List.length_append, List.length_singleton]
        exact hpace.trans hle
    refine le_antisymm ((Int.le_ediv_iff_mul_le cfg.nREFIpb_pos).mpr hmade) ?_
    have hbelow := Int.ediv_lt_of_lt_mul cfg.nREFIpb_pos hlt
    push_cast at hbelow
    omega
  · exact hinv.paused i j y hij hy ⟨hpause, hlast⟩

/-- Two banks of a GDDR6 channel. -/
def pairGDDR6 : PerBankConfig where
  standardName := "GDDR6"
  levelNames := ["Channel", "BankGroup", "Bank", "Row", "Column"]
  spec :=
    { commands := Command.all
      commands_complete := Command.mem_all
      rowLevel := 3
      levelSizes := [1, 1, 2, 4, 4]
      timingCons := fun level c => if level = 2 ∧ c = .REFpb then [{ cmd := .ACT, val := 2 }] else []
      commandCycles := fun _ => 1
      bankLevel := 2
      supports := fun c => c ∈ [Command.ACT, .PREpb, .PREab, .RD, .WR, .RDA, .WRA, .REFab, .REFpb]
      readLatency := 4
      readCommand := .RD
      writeCommand := .WR }
  nREFIpb := 2
  nRFCpb := 3
  bank_pos := by decide
  row_gt := by decide
  banks_pos := by decide
  nREFIpb_pos := by decide

/-- The second bank is refreshed when its request is made, in the fourth clock, and the first one again not
before the seventh. -/
theorem per_bank_in_turn_pair : ∃ r : PerBankRun, Reached pairGDDR6 0 r ∧ r.enqueued.map (·.clk) = [2, 4, 7] ∧
    ∃ t : Int, (1, t) ∈ r.issued ∧ t < 7 ∧ t + 3 ≤ 7 := by
  have hobs : (do
      let manager ← init pairGDDR6
      let r ← runAll (step pairGDDR6) (List.replicate 7 ⟨fun _ => true, [.refpb 0, .refpb 1, .refpb 2]⟩)
        { device := DRAMDevice.init pairGDDR6.spec 0, manager := manager }
      pure (r.enqueued.map fun x : Enqueued => x.clk)) = .ok [2, 4, 7] := by
    decide +kernel
  obtain ⟨manager, hinit, hobs⟩ := except_bind_eq_ok.mp hobs
  obtain ⟨r, hrun, hobs⟩ := except_bind_eq_ok.mp hobs
  have hclks : r.enqueued.map (·.clk) = [2, 4, 7] := Except.ok.inj hobs
  have hr : Reached pairGDDR6 0 r := ⟨manager, hinit, reachable_of_runAll .start hrun⟩
  obtain ⟨-, -, -, -, -, hpause⟩ := per_bank_in_turn pairGDDR6 0 hr
  obtain ⟨x, hx, hclk⟩ : ∃ x, r.enqueued[2]? = some x ∧ x.clk = 7 := by
    have hget : (r.enqueued.map (·.clk))[2]? = some 7 := by rw [hclks]; rfl
    rw [List.getElem?_map] at hget
    exact Option.map_eq_some_iff.mp hget
  obtain ⟨t, ht, hbefore, hle⟩ := hpause (by decide) 1 2 x (by decide) hx (by decide)
  exact ⟨r, hr, hclks, t, ht, hclk ▸ hbefore, hclk ▸ hle⟩

end PerBankRun

end Ramulator.Controller
