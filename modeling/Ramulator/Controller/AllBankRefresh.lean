/-
# Ramulator.Controller.AllBankRefresh — every bank once in each refresh interval.

`AllBankRefresh` (`controller/refresh/impl/all_bank.cpp`) requests a `REFab` for every node of the level at
which a standard refreshes: all of them every `nREFI` clocks, or each at an offset of its own. The manager
ticks once per clock, right after the clock has moved on. It throws when a request is not accepted.
-/
import Ramulator.Controller.GenericDDR
import Ramulator.Dram.Dispatch
import Ramulator.Lib.Periodic

namespace Ramulator.Controller

open Ramulator.Base (Request)
open Ramulator.Dram Ramulator.Lib Ramulator.Lib.MixedRadix

/-! ## The manager -/

/-- `all_bank_refresh_scopes`. -/
def allBankRefreshScopes : List (String × String) :=
  [("DDR3", "Rank"), ("DDR4", "Rank"), ("DDR5", "Rank"), ("LPDDR5", "Rank"), ("LPDDR6", "Rank"),
    ("GDDR6", "Channel"), ("GDDR7", "Channel"), ("HBM1", "Channel"), ("HBM2", "PseudoChannel"),
    ("HBM3", "PseudoChannel"), ("HBM4", "PseudoChannel")]

/-- `all_bank_refresh_scope_for`. -/
def allBankRefreshScopeFor (standardName : String) : Except String String :=
  match allBankRefreshScopes.lookup standardName with
  | some scope => .ok scope
  | none => .error ("AllBank refresh: no default scope for DRAM standard '" ++ standardName ++ "'")

/-- `get_level_id`. -/
def getLevelId (levelNames : List String) (name : String) : Except String Nat :=
  match levelNames.idxOf? name with
  | some level => .ok level
  | none => .error ("DRAMSpec: unknown level '" ++ name ++ "'")

/-- The parameters, and what `init` reads of the standard. Refresh intervals are positive, and no standard
refreshes below its banks. -/
structure AllBankConfig where
  standardName : String
  levelNames : List String
  spec : Standard
  channelId : Int
  nREFI : Int
  scatterInterval : Int := 0
  nREFI_pos : 0 < nREFI
  bank_pos : 0 < spec.bankLevel
  scope_le : ∀ scope level, allBankRefreshScopeFor standardName = .ok scope →
    getLevelId levelNames scope = .ok level → level ≤ spec.bankLevel

structure AllBankRefresh where
  refNodes : List Path
  nextRefreshCycle : Int := -1
  scatterEnabled : Bool := false
  nextScatteredRefreshCycles : List Int := []

namespace AllBankRefresh

/-- `build_addr_vec` of a node, given by the path to it. -/
def buildAddrVec (cfg : AllBankConfig) (node : Path) : AddrVec :=
  cfg.channelId :: node.map (fun i : Nat => (i : Int)) ++ List.replicate (cfg.levelNames.length - 1 - node.length) (-1)

/-- The nodes of a level, depth first. -/
def nodesAt (cfg : AllBankConfig) (level : Nat) : List Path :=
  Standard.coordinates ((List.range level).map fun l => cfg.spec.levelSize (l + 1))

/-- The end of `init`, for the nodes to refresh. -/
def initNodes (cfg : AllBankConfig) (scope : String) (refNodes : List Path) : Except String AllBankRefresh :=
  if refNodes = [] then .error ("AllBank refresh: no nodes found at level '" ++ scope ++ "'")
  else if cfg.scatterInterval ≤ 0 then .ok { refNodes := refNodes, nextRefreshCycle := cfg.nREFI }
  else if cfg.scatterInterval * refNodes.length > cfg.nREFI then
    .error "AllBank refresh: scatter_interval * number_of_refresh_nodes must be <= nREFI"
  else
    .ok { refNodes := refNodes
          scatterEnabled := true
          nextScatteredRefreshCycles := (List.range refNodes.length).map fun i : Nat => (i + 1) * cfg.scatterInterval }

def init (cfg : AllBankConfig) : Except String AllBankRefresh := do
  let scope ← allBankRefreshScopeFor cfg.standardName
  let refLevel ← getLevelId cfg.levelNames scope
  initNodes cfg scope (nodesAt cfg refLevel)

/-- The request for a node. -/
def refreshRequest (cfg : AllBankConfig) (node : Path) : Request Command Unit :=
  Request.ofCommand (buildAddrVec cfg node) .REFab

/-- `send_refresh`. -/
def sendRefresh (cfg : AllBankConfig) (prioritySend : Request Command Unit → Bool) (node : Path) :
    Except String (Request Command Unit) :=
  if prioritySend (refreshRequest cfg node) then .ok (refreshRequest cfg node)
  else .error "Failed to send all-bank refresh!"

/-- `send_refresh` for nodes in turn. -/
def sendAll (cfg : AllBankConfig) (prioritySend : Request Command Unit → Bool) :
    List Path → Except String (List (Request Command Unit))
  | [] => .ok []
  | node :: nodes =>
      sendRefresh cfg prioritySend node >>= fun req =>
        (sendAll cfg prioritySend nodes).map fun reqs => req :: reqs

/-- `tick_all_at_once`. -/
def tickAllAtOnce (cfg : AllBankConfig) (clk : Int) (prioritySend : Request Command Unit → Bool)
    (s : AllBankRefresh) : Except String (AllBankRefresh × List (Request Command Unit)) :=
  if clk ≠ s.nextRefreshCycle then .ok (s, [])
  else
    (sendAll cfg prioritySend s.refNodes).map fun reqs =>
      ({ s with nextRefreshCycle := s.nextRefreshCycle + cfg.nREFI }, reqs)

/-- The loop of `tick_scattered`, over the nodes and their next refreshes. -/
def scatteredFrom (cfg : AllBankConfig) (clk : Int) (prioritySend : Request Command Unit → Bool) :
    List Path → List Int → Except String (List Int × List (Request Command Unit))
  | node :: nodes, next :: nexts =>
      if clk ≠ next then
        (scatteredFrom cfg clk prioritySend nodes nexts).map fun (nexts, reqs) => (next :: nexts, reqs)
      else
        sendRefresh cfg prioritySend node >>= fun req =>
          (scatteredFrom cfg clk prioritySend nodes nexts).map fun (nexts, reqs) =>
            ((next + cfg.nREFI) :: nexts, req :: reqs)
  | _, nexts => .ok (nexts, [])

/-- `tick_scattered`. -/
def tickScattered (cfg : AllBankConfig) (clk : Int) (prioritySend : Request Command Unit → Bool)
    (s : AllBankRefresh) : Except String (AllBankRefresh × List (Request Command Unit)) :=
  (scatteredFrom cfg clk prioritySend s.refNodes s.nextScatteredRefreshCycles).map fun (nexts, reqs) =>
    ({ s with nextScatteredRefreshCycles := nexts }, reqs)

/-- `tick`. -/
def tick (cfg : AllBankConfig) (clk : Int) (prioritySend : Request Command Unit → Bool) (s : AllBankRefresh) :
    Except String (AllBankRefresh × List (Request Command Unit)) :=
  if s.scatterEnabled then tickScattered cfg clk prioritySend s else tickAllAtOnce cfg clk prioritySend s

end AllBankRefresh

/-! ## Runs -/

/-- The manager and the clock of its controller; `log` are the requests sent, with their clocks. -/
structure AllBankRun where
  clk : Int := 0
  manager : AllBankRefresh
  log : List (Int × Request Command Unit) := []

namespace AllBankRun

open AllBankRefresh

/-- One clock; the controller takes requests or not. -/
def step (cfg : AllBankConfig) (prioritySend : Request Command Unit → Bool) (r : AllBankRun) :
    Except String AllBankRun :=
  (tick cfg (r.clk + 1) prioritySend r.manager).map fun (manager, reqs) =>
    { clk := r.clk + 1, manager := manager, log := r.log ++ reqs.map fun req => (r.clk + 1, req) }

/-- The states that a run passes. -/
def Reached (cfg : AllBankConfig) (r : AllBankRun) : Prop :=
  ∃ manager, AllBankRefresh.init cfg = .ok manager ∧
    Reachable { manager := manager } (fun r prioritySend r' => step cfg prioritySend r = .ok r') r

/-! ## What a tick sends -/

variable {cfg : AllBankConfig} {r r' : AllBankRun} {prioritySend : Request Command Unit → Bool} {clk : Int}

theorem sendRefresh_eq_ok {node : Path} {req : Request Command Unit} (h : sendRefresh cfg prioritySend node = .ok req) :
    req = refreshRequest cfg node := by
  unfold sendRefresh at h
  split at h
  · exact (Except.ok.inj h).symm
  · cases h

theorem sendAll_eq_ok {nodes : List Path} {reqs : List (Request Command Unit)}
    (h : sendAll cfg prioritySend nodes = .ok reqs) : reqs = nodes.map (refreshRequest cfg) := by
  induction nodes generalizing reqs with
  | nil => exact (Except.ok.inj h).symm
  | cons node nodes ih =>
      obtain ⟨req, hreq, h⟩ := except_bind_eq_ok.mp h
      obtain ⟨rest, hrest, rfl⟩ := except_map_eq_ok.mp h
      rw [List.map_cons, sendRefresh_eq_ok hreq, ih hrest]

/-- When a node is refreshed first. -/
def offset (cfg : AllBankConfig) (i : Nat) : Int :=
  if cfg.scatterInterval ≤ 0 then cfg.nREFI else (i + 1) * cfg.scatterInterval

/-- The nodes of a list that are due, the first of which has number `i`. -/
def dueFrom (cfg : AllBankConfig) (clk : Int) : Nat → List Path → List Path
  | _, [] => []
  | i, node :: nodes =>
      if Periodic.Due cfg.nREFI (offset cfg i) clk then node :: dueFrom cfg clk (i + 1) nodes
      else dueFrom cfg clk (i + 1) nodes

theorem mem_dueFrom {i : Nat} {nodes : List Path} {node : Path} :
    node ∈ dueFrom cfg clk i nodes ↔
      ∃ j, nodes[j]? = some node ∧ Periodic.Due cfg.nREFI (offset cfg (i + j)) clk := by
  induction nodes generalizing i with
  | nil => simp [dueFrom]
  | cons first nodes ih =>
      have hcases : (∃ j, (first :: nodes)[j]? = some node ∧ Periodic.Due cfg.nREFI (offset cfg (i + j)) clk) ↔
          (first = node ∧ Periodic.Due cfg.nREFI (offset cfg i) clk) ∨
            ∃ j, nodes[j]? = some node ∧ Periodic.Due cfg.nREFI (offset cfg (i + 1 + j)) clk := by
        constructor
        · rintro ⟨_ | j, hj, hdue⟩
          · exact .inl ⟨Option.some.inj hj, hdue⟩
          · exact .inr ⟨j, hj, by rwa [Nat.add_assoc, Nat.add_comm 1 j]⟩
        · rintro (⟨rfl, hdue⟩ | ⟨j, hj, hdue⟩)
          · exact ⟨0, rfl, hdue⟩
          · exact ⟨j + 1, hj, by rwa [Nat.add_assoc, Nat.add_comm 1 j] at hdue⟩
      rw [hcases, ← ih, dueFrom]
      split
      · rename_i hdue
        simp only [List.mem_cons, hdue, and_true]
        exact or_congr eq_comm Iff.rfl
      · rename_i hdue
        simp only [hdue, and_false, false_or]

/-- The times in a list of next refreshes from the `i`-th node on. -/
def nextsFrom (cfg : AllBankConfig) (clk : Int) (i : Nat) (n : Nat) : List Int :=
  (List.range' i n).map fun j => Periodic.next cfg.nREFI (offset cfg j) clk

theorem scatteredFrom_eq_ok {i : Nat} {nodes : List Path} {nexts : List Int} {reqs : List (Request Command Unit)}
    (h : scatteredFrom cfg (clk + 1) prioritySend nodes (nextsFrom cfg clk i nodes.length) = .ok (nexts, reqs)) :
    nexts = nextsFrom cfg (clk + 1) i nodes.length ∧ reqs = (dueFrom cfg (clk + 1) i nodes).map (refreshRequest cfg) := by
  induction nodes generalizing i nexts reqs with
  | nil =>
      cases h
      exact ⟨rfl, rfl⟩
  | cons node nodes ih =>
      have hdue := Periodic.due_succ_iff cfg.nREFI_pos (offset cfg i) clk
      have hnext := Periodic.next_succ cfg.nREFI_pos (offset cfg i) clk
      have hcons : ∀ c, nextsFrom cfg c i (node :: nodes).length =
          Periodic.next cfg.nREFI (offset cfg i) c :: nextsFrom cfg c (i + 1) nodes.length := fun _ => rfl
      rw [hcons] at h ⊢
      rw [dueFrom]
      unfold scatteredFrom at h
      split at h
      · rename_i hne
        obtain ⟨⟨rest, reqs'⟩, hrest, heq⟩ := except_map_eq_ok.mp h
        cases heq
        obtain ⟨rfl, rfl⟩ := ih hrest
        rw [hnext, if_neg hne, if_neg (hdue.not.mpr hne)]
        exact ⟨rfl, rfl⟩
      · rename_i heq
        rw [not_not] at heq
        obtain ⟨req, hreq, h⟩ := except_bind_eq_ok.mp h
        obtain ⟨⟨rest, reqs'⟩, hrest, hpair⟩ := except_map_eq_ok.mp h
        cases hpair
        obtain ⟨rfl, rfl⟩ := ih hrest
        rw [hnext, if_pos heq, if_pos (hdue.mpr heq), sendRefresh_eq_ok hreq]
        exact ⟨rfl, rfl⟩

/-! ## The schedule -/

/-- The nodes that are refreshed at a clock. -/
def dueNodes (cfg : AllBankConfig) (nodes : List Path) (clk : Int) : List Path := dueFrom cfg clk 0 nodes

theorem dueFrom_of_once (h : cfg.scatterInterval ≤ 0) (i : Nat) (nodes : List Path) :
    dueFrom cfg clk i nodes = if Periodic.Due cfg.nREFI cfg.nREFI clk then nodes else [] := by
  induction nodes generalizing i with
  | nil =>
      rw [dueFrom]
      exact (ite_self []).symm
  | cons node nodes ih =>
      rw [dueFrom, ih, offset, if_pos h]
      split <;> rfl

/-- The manager is ready for the clock after `clk`. -/
structure Ready (cfg : AllBankConfig) (clk : Int) (s : AllBankRefresh) : Prop where
  scatter : s.scatterEnabled = decide (0 < cfg.scatterInterval)
  once : cfg.scatterInterval ≤ 0 → s.nextRefreshCycle = Periodic.next cfg.nREFI cfg.nREFI clk
  scattered : 0 < cfg.scatterInterval → s.nextScatteredRefreshCycles = nextsFrom cfg clk 0 s.refNodes.length

theorem tick_eq_ok {s s' : AllBankRefresh} {reqs : List (Request Command Unit)} (h : Ready cfg clk s)
    (htick : tick cfg (clk + 1) prioritySend s = .ok (s', reqs)) :
    Ready cfg (clk + 1) s' ∧ s'.refNodes = s.refNodes ∧
      reqs = (dueNodes cfg s.refNodes (clk + 1)).map (refreshRequest cfg) := by
  unfold AllBankRefresh.tick at htick
  by_cases hscatter : 0 < cfg.scatterInterval
  · have hoff : ¬cfg.scatterInterval ≤ 0 := not_le.mpr hscatter
    rw [h.scatter, if_pos (decide_eq_true hscatter)] at htick
    obtain ⟨⟨nexts, reqs'⟩, hfrom, heq⟩ := except_map_eq_ok.mp htick
    cases heq
    rw [h.scattered hscatter] at hfrom
    obtain ⟨rfl, rfl⟩ := scatteredFrom_eq_ok hfrom
    exact ⟨⟨h.scatter, fun hno => absurd hno hoff, fun _ => rfl⟩, rfl, rfl⟩
  · have hon : cfg.scatterInterval ≤ 0 := not_lt.mp hscatter
    have hdue := Periodic.due_succ_iff cfg.nREFI_pos cfg.nREFI clk
    have hnext := Periodic.next_succ cfg.nREFI_pos cfg.nREFI clk
    rw [h.scatter, if_neg (by simpa using hon)] at htick
    unfold tickAllAtOnce at htick
    rw [h.once hon] at htick
    unfold dueNodes
    rw [dueFrom_of_once hon]
    split at htick
    · rename_i hne
      cases htick
      refine ⟨⟨h.scatter, fun _ => ?_, fun hno => absurd hno hscatter⟩, rfl, ?_⟩
      · rw [hnext, if_neg hne]
        exact h.once hon
      · rw [if_neg (hdue.not.mpr hne), List.map_nil]
    · rename_i heq
      rw [not_not] at heq
      obtain ⟨sent, hsent, hpair⟩ := except_map_eq_ok.mp htick
      cases hpair
      refine ⟨⟨h.scatter, fun _ => ?_, fun hno => absurd hno hscatter⟩, rfl, ?_⟩
      · rw [hnext, if_pos heq]
      · rw [if_pos (hdue.mpr heq)]
        exact sendAll_eq_ok hsent

/-- The standard refreshes the nodes of this level. -/
def IsScope (cfg : AllBankConfig) (level : Nat) : Prop :=
  ∃ scope, allBankRefreshScopeFor cfg.standardName = .ok scope ∧ getLevelId cfg.levelNames scope = .ok level

/-- What `init` accepts. -/
structure Accepted (cfg : AllBankConfig) (level : Nat) (s : AllBankRefresh) : Prop where
  scope : IsScope cfg level
  nodes : s.refNodes = nodesAt cfg level
  level_le : level ≤ cfg.spec.bankLevel
  fits : 0 < cfg.scatterInterval → cfg.scatterInterval * s.refNodes.length ≤ cfg.nREFI
  ready : Ready cfg 0 s

theorem init_eq_ok {s : AllBankRefresh} (h : AllBankRefresh.init cfg = .ok s) : ∃ level, Accepted cfg level s := by
  obtain ⟨scope, hscope, h⟩ := except_bind_eq_ok.mp h
  obtain ⟨level, hlevel, h⟩ := except_bind_eq_ok.mp h
  have hle := cfg.scope_le scope level hscope hlevel
  refine ⟨level, ?_⟩
  unfold initNodes at h
  split at h
  · cases h
  · split at h
    · rename_i hon
      cases h
      refine ⟨⟨scope, hscope, hlevel⟩, rfl, hle, fun hno => absurd hon (not_le.mpr hno),
        ⟨?_, fun _ => ?_, fun hno => absurd hon (not_le.mpr hno)⟩⟩
      · exact (decide_eq_false (not_lt.mpr hon)).symm
      · exact (Periodic.next_zero cfg.nREFI_pos le_rfl).symm
    · rename_i hoff
      split at h
      · cases h
      · rename_i hfits
        cases h
        have hpos : 0 < cfg.scatterInterval := not_le.mp hoff
        refine ⟨⟨scope, hscope, hlevel⟩, rfl, hle, fun _ => not_lt.mp hfits,
          ⟨(decide_eq_true hpos).symm, fun hno => absurd hno hoff, fun _ => ?_⟩⟩
        unfold nextsFrom
        rw [← List.range_eq_range']
        refine List.map_congr_left fun i hi => ?_
        have hstep : ((i : Int) + 1) * cfg.scatterInterval ≤ cfg.scatterInterval * (nodesAt cfg level).length := by
          rw [mul_comm]
          exact mul_le_mul_of_nonneg_left (by exact_mod_cast List.mem_range.mp hi) hpos.le
        have hoffset : offset cfg i = (i + 1) * cfg.scatterInterval := if_neg hoff
        rw [hoffset, Periodic.next_zero (by positivity) (hstep.trans (not_lt.mp hfits))]

/-- The requests of a run so far. -/
def schedule (cfg : AllBankConfig) (nodes : List Path) (ticks : Nat) : List (Int × Request Command Unit) :=
  (List.range ticks).flatMap fun k : Nat =>
    (dueNodes cfg nodes (k + 1)).map fun node => ((k : Int) + 1, refreshRequest cfg node)

structure Inv (cfg : AllBankConfig) (level : Nat) (r : AllBankRun) : Prop where
  nodes : r.manager.refNodes = nodesAt cfg level
  ready : Ready cfg r.clk r.manager
  log : ∃ ticks : Nat, r.clk = ticks ∧ r.log = schedule cfg (nodesAt cfg level) ticks

theorem Reached.inv (h : Reached cfg r) : ∃ level s, Accepted cfg level s ∧ Inv cfg level r := by
  obtain ⟨manager, hinit, hreach⟩ := h
  obtain ⟨level, haccepted⟩ := init_eq_ok hinit
  refine ⟨level, manager, haccepted, hreach.invariant (Inv cfg level) ⟨haccepted.nodes, haccepted.ready, 0, rfl, rfl⟩ ?_⟩
  rintro r prioritySend r' ⟨hnodes, hready, ticks, hclk, hlog⟩ hstep
  obtain ⟨⟨manager', reqs⟩, htick, rfl⟩ := except_map_eq_ok.mp hstep
  obtain ⟨hready', hnodes', rfl⟩ := tick_eq_ok hready htick
  refine ⟨hnodes'.trans hnodes, hready', ticks + 1, by push_cast; rw [hclk], ?_⟩
  unfold schedule at hlog ⊢
  rw [List.range_succ, List.flatMap_append, ← hlog, List.flatMap_singleton, hnodes, hclk]
  dsimp only
  rw [List.map_map]
  rfl

theorem mem_schedule_iff {level ticks : Nat} {x : Int × Request Command Unit} :
    x ∈ schedule cfg (nodesAt cfg level) ticks ↔ ∃ j node, (nodesAt cfg level)[j]? = some node ∧ 0 < x.1 ∧
      x.1 ≤ ticks ∧ Periodic.Due cfg.nREFI (offset cfg j) x.1 ∧ x.2 = refreshRequest cfg node := by
  simp only [schedule, dueNodes, List.mem_flatMap, List.mem_range, List.mem_map, mem_dueFrom, Nat.zero_add]
  constructor
  · rintro ⟨k, hk, node, ⟨j, hj, hdue⟩, rfl⟩
    exact ⟨j, node, hj, by dsimp only; omega, by dsimp only; omega, hdue, rfl⟩
  · rintro ⟨j, node, hj, hpos, hle, hdue, hreq⟩
    have hclk : (((x.1 - 1).toNat : Nat) : Int) + 1 = x.1 := by omega
    exact ⟨(x.1 - 1).toNat, by omega, node, ⟨j, hj, by rwa [hclk]⟩, Prod.ext hclk hreq.symm⟩

/-! ## Every bank in each interval -/

def sizesAt (cfg : AllBankConfig) (level : Nat) : List Nat := (List.range level).map fun l => cfg.spec.levelSize (l + 1)

/-- The place of a node. -/
theorem getElem?_nodesAt_iff {level j : Nat} {node : Path} :
    (nodesAt cfg level)[j]? = some node ↔ Within (sizesAt cfg level) node ∧ position (sizesAt cfg level) node = j := by
  constructor
  · intro hj
    have hlt : j < volume (sizesAt cfg level) := by
      rw [← Standard.length_coordinates_eq]
      exact (List.getElem?_eq_some_iff.mp hj).1
    obtain ⟨path, hpath, rfl⟩ := (position_bijOn (sizesAt cfg level)).surjOn hlt
    have hget : (nodesAt cfg level)[position (sizesAt cfg level) path]? = some path :=
      Standard.getElem?_coordinates hpath
    rw [hget] at hj
    cases hj
    exact ⟨hpath, rfl⟩
  · rintro ⟨hnode, rfl⟩
    exact Standard.getElem?_coordinates hnode

theorem length_of_within {level : Nat} {node : Path} (h : Within (sizesAt cfg level) node) : node.length = level := by
  rw [h.length_eq, sizesAt, List.length_map, List.length_range]

/-- The node above a bank is one of those that are refreshed. -/
theorem within_take {level i : Nat} (hlevel : level ≤ cfg.spec.bankLevel) (hi : i < cfg.spec.bankCount) :
    Within (sizesAt cfg level) ((cfg.spec.bankNodes.getD i []).take level) := by
  have hsizes : sizesAt cfg level = cfg.spec.bankSizes.take level := by
    unfold sizesAt Standard.bankSizes
    rw [← List.map_take, List.take_range, min_eq_left hlevel]
  rw [hsizes]
  exact List.forall₂_take level (Standard.bankNodes_spec hi).1

theorem coord_buildAddrVec {node : Path} (l : Nat) :
    (buildAddrVec cfg node).coord (l + 1) = if l < node.length then ((node.getD l 0 : Nat) : Int) else -1 := by
  unfold buildAddrVec AddrVec.coord
  rw [List.cons_append, List.getD_cons_succ]
  split
  · rename_i hl
    have hl' : l < (node.map fun i : Nat => (i : Int)).length := by
      rw [List.length_map]
      exact hl
    rw [List.getD_append _ _ _ _ hl', List.getD_eq_getElem _ _ hl', List.getElem_map, List.getD_eq_getElem _ _ hl]
  · rename_i hl
    rw [List.getD_append_right _ _ _ _ (by rw [List.length_map]; exact not_lt.mp hl), List.getD_eq_getElem?_getD,
      List.getElem?_replicate]
    split <;> rfl

/-- A refresh targets the banks below its node. -/
theorem mem_targets_iff {level i : Nat} {node : Path} (hlevel : level ≤ cfg.spec.bankLevel)
    (hi : i < cfg.spec.bankCount) (hnode : Within (sizesAt cfg level) node) :
    (i : Int) ∈ cfg.spec.targetBanks cfg.channelId .REFab (refreshRequest cfg node).addrVec ↔
      node = (cfg.spec.bankNodes.getD i []).take level := by
  have hchannel : (buildAddrVec cfg node).coord 0 = -1 ∨ (buildAddrVec cfg node).coord 0 = cfg.channelId := .inr rfl
  have hform : cfg.spec.Addresses Command.REFab.bankTarget (buildAddrVec cfg node) := trivial
  have hlength := length_of_within hnode
  have hbank := Standard.length_bankNode hi
  show (i : Int) ∈ cfg.spec.targetBanks cfg.channelId .REFab (buildAddrVec cfg node) ↔ _
  rw [Standard.mem_targetBanks_iff cfg.bank_pos hform hchannel hi, Standard.selected_iff hi, and_iff_right hchannel]
  simp only [coord_buildAddrVec, hlength]
  constructor
  · intro hall
    refine List.ext_getElem ?_ fun l hl hl' => ?_
    · rw [List.length_take, hlength, hbank, min_eq_left hlevel]
    · have hat := hall l (by omega)
      rw [if_pos (by omega)] at hat
      have hid := hat.resolve_left (by omega)
      rw [List.getElem_take, ← List.getD_eq_getElem _ 0 hl, ← List.getD_eq_getElem _ 0 (by omega)]
      exact Int.ofNat.inj hid
  · rintro rfl l hl
    by_cases hlt : l < level
    · rw [if_pos hlt]
      refine .inr ?_
      rw [List.getD_eq_getElem?_getD, List.getElem?_take_of_lt hlt, ← List.getD_eq_getElem?_getD]
    · rw [if_neg hlt]
      exact .inl rfl

/-- In every run: a node of the refresh scope has a request at its offset and every `nREFI` clocks after it,
and there are no others. So in any stretch of `nREFI` clocks every bank of the channel is a target of one
request. Requests at scattered offsets keep the scatter interval from each other. -/
theorem all_bank_schedule (cfg : AllBankConfig) {r : AllBankRun} (h : Reached cfg r) :
    (∃ level ticks : Nat, IsScope cfg level ∧ r.clk = ticks ∧ r.log = schedule cfg (nodesAt cfg level) ticks) ∧
    (∀ i < cfg.spec.bankCount, ∀ clk, 0 ≤ clk → clk + cfg.nREFI ≤ r.clk →
      ∃! x, x ∈ r.log ∧ clk < x.1 ∧ x.1 ≤ clk + cfg.nREFI ∧
        (i : Int) ∈ cfg.spec.targetBanks cfg.channelId .REFab x.2.addrVec) ∧
    (0 < cfg.scatterInterval → ∀ x ∈ r.log, ∀ y ∈ r.log, x ≠ y → cfg.scatterInterval ≤ |x.1 - y.1|) := by
  obtain ⟨level, s, haccepted, hnodes, hready, ticks, hclk, hlog⟩ := h.inv
  have hlevel := haccepted.level_le
  refine ⟨⟨level, ticks, haccepted.scope, hclk, hlog⟩, ?_, ?_⟩
  · intro i hi clk hpos hle
    have hnode := within_take hlevel hi
    -- the bank is refreshed with the node above it, at the next time that is due after the clock
    let place := position (sizesAt cfg level) ((cfg.spec.bankNodes.getD i []).take level)
    let due := Periodic.next cfg.nREFI (offset cfg place) clk
    have hlt : clk < due := Periodic.lt_next cfg.nREFI_pos
    have hdue_le : due ≤ clk + cfg.nREFI := Periodic.next_le cfg.nREFI_pos
    refine ⟨(due, refreshRequest cfg ((cfg.spec.bankNodes.getD i []).take level)), ⟨?_, hlt, hdue_le, ?_⟩, ?_⟩
    · rw [hlog, mem_schedule_iff]
      exact ⟨place, _, getElem?_nodesAt_iff.mpr ⟨hnode, rfl⟩, by dsimp only; omega, by dsimp only; omega,
        Periodic.due_next .., rfl⟩
    · exact (mem_targets_iff hlevel hi hnode).mpr rfl
    · -- another request for the bank would be of the same node, and so at the same time
      rintro ⟨t, req⟩ ⟨hmem, hafter, hbefore, htarget⟩
      rw [hlog, mem_schedule_iff] at hmem
      obtain ⟨j, node, hj, -, -, hdue, hreq⟩ := hmem
      obtain ⟨hwithin, rfl⟩ := getElem?_nodesAt_iff.mp hj
      dsimp only at hreq hdue hafter hbefore htarget
      rw [hreq] at htarget
      obtain rfl := (mem_targets_iff hlevel hi hwithin).mp htarget
      rw [hreq, hdue.eq_next cfg.nREFI_pos hafter hbefore]
  · intro hscatter x hx y hy hne
    rw [hlog, mem_schedule_iff] at hx hy
    obtain ⟨i, node, hi, -, -, hdue, hreq⟩ := hx
    obtain ⟨j, node', hj, -, -, hdue', hreq'⟩ := hy
    have hoffset : ∀ k, offset cfg k = (k + 1) * cfg.scatterInterval := fun k => if_neg (not_le.mpr hscatter)
    rw [hoffset] at hdue hdue'
    have hin : i < s.refNodes.length := by
      rw [haccepted.nodes]
      exact (List.getElem?_eq_some_iff.mp hi).1
    have hjn : j < s.refNodes.length := by
      rw [haccepted.nodes]
      exact (List.getElem?_eq_some_iff.mp hj).1
    -- the offsets are multiples of the interval, and the last one leaves room for it before the next round
    refine Periodic.spread_le hscatter (haccepted.fits hscatter) hin hjn hdue hdue' ?_
    by_contra hsame
    push Not at hsame
    obtain ⟨rfl, hclocks⟩ := hsame
    rw [hi] at hj
    cases hj
    exact hne (Prod.ext hclocks (hreq.trans hreq'.symm))

/-- The levels of DDR4. -/
def smallLevels : List String := ["Channel", "Rank", "BankGroup", "Bank", "Row", "Column"]

theorem smallLevels_scope (scope : String) (level : Nat) (hscope : allBankRefreshScopeFor "DDR4" = .ok scope)
    (hlevel : getLevelId smallLevels scope = .ok level) : level ≤ smallDDR.bankLevel := by
  cases hscope
  cases hlevel
  decide

theorem smallInterval_pos : (0 : Int) < 5 := by decide

/-- Two ranks of a DDR4 channel, refreshed two clocks apart. -/
def smallAllBank : AllBankConfig where
  standardName := "DDR4"
  levelNames := smallLevels
  spec := { smallDDR with levelSizes := [1, 2, 1, 2, 16, 16], commands_complete := Command.mem_all }
  channelId := 0
  nREFI := 5
  scatterInterval := 2
  nREFI_pos := smallInterval_pos
  bank_pos := Nat.succ_pos 2
  scope_le := smallLevels_scope

/-- In five clocks both ranks are refreshed, and the first bank of the second rank once. -/
theorem all_bank_schedule_small : ∃ r : AllBankRun, Reached smallAllBank r ∧ r.clk = 5 ∧ r.log.map Prod.fst = [2, 4] ∧
    ∃! x, x ∈ r.log ∧ 0 < x.1 ∧ x.1 ≤ 0 + 5 ∧
      ((2 : Nat) : Int) ∈ smallAllBank.spec.targetBanks 0 .REFab x.2.addrVec := by
  obtain ⟨manager, r, hinit, hrun, hclk, hlog⟩ : ∃ manager r, AllBankRefresh.init smallAllBank = .ok manager ∧
      runAll (step smallAllBank) (List.replicate 5 fun _ => true) { manager := manager } = .ok r ∧
      r.clk = 5 ∧ r.log.map Prod.fst = [2, 4] := ⟨_, _, rfl, rfl, rfl, rfl⟩
  have hreached : Reached smallAllBank r := ⟨manager, hinit, reachable_of_runAll .start hrun⟩
  obtain ⟨-, hbanks, -⟩ := all_bank_schedule smallAllBank hreached
  exact ⟨r, hreached, hclk, hlog, hbanks 2 (by decide) 0 le_rfl (by rw [hclk]; decide)⟩

end AllBankRun

end Ramulator.Controller
