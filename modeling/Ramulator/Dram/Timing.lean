/-
# Ramulator.Dram.Timing — the node tree enforces the declared timing constraints.

The tree keeps running maxima and bounded deques; a standard declares constraints over whole command
histories. This module states the constraints declaratively (`Met`: over the chronological list of
everything issued so far) and proves that the query walks of `Ramulator.Dram.Node` decide them.

Nodes are named by the path of child indices from the root. The argument has three layers:

* `timingAt_updateTiming` says what one recorded command does to the node at every path, so that the
  walk with its early returns and its `has_sibling_cons` shortcut is never unfolded again;
* `Summary` is the invariant of one node: what its deques and its ready clocks are, as functions of
  the history (`summary_issueAll` carries it over a whole run);
* `checkTiming_eq_true_iff` and `earliestReady_le_iff` read the query walks as statements about the
  nodes on the selected paths.
-/
import Ramulator.Dram.Node
import Mathlib.Order.Bounds.Defs
import Mathlib.Order.MinMax
import Mathlib.Tactic.Common

namespace Ramulator.Dram

open Ramulator.Lib

variable {C : Type} [DecidableEq C]

/-! ## Histories, paths and the declared constraints -/

/-- One call of `issue_command`. -/
structure Issue (C : Type) where
  cmd : C
  addr : AddrVec
  clk : Int

/-- A node of the tree: the child indices on the way down from the root. -/
abbrev Path := List Nat

/-- The spec's tree has a node at this path (`depth` levels are built below `level`). -/
def DRAMSpec.hasNode (spec : DRAMSpec C) : Nat → Nat → Path → Bool
  | _, _, [] => true
  | 0, _, _ :: _ => false
  | depth + 1, level, i :: π => i < spec.levelSize (level + 1) && spec.hasNode depth (level + 1) π

/-- The spec's tree has a node at path `π`. -/
def DRAMSpec.isNode (spec : DRAMSpec C) (π : Path) : Bool := spec.hasNode (spec.rowLevel - 1) 0 π

/-- Coordinate `i` of `level` is addressed, by name or by wildcard. -/
def AddrVec.hits (a : AddrVec) (level i : Nat) : Bool := a.coord level = -1 ∨ a.coord level = i

/-- The address follows the path, from the coordinate at `level` on. -/
def AddrVec.selectsFrom (a : AddrVec) : Nat → Path → Bool
  | _, [] => true
  | level, i :: π => a.hits level i && a.selectsFrom (level + 1) π

/-- The address follows the path up to its last step, where it names another sibling. -/
def AddrVec.missesFrom (a : AddrVec) : Nat → Path → Bool
  | _, [] => false
  | level, [i] => !a.hits level i
  | level, i :: j :: π => a.hits level i && a.missesFrom (level + 1) (j :: π)

/-- The address selects the node at `π` (wildcards select all children). -/
def AddrVec.selects (a : AddrVec) (π : Path) : Bool := a.selectsFrom 1 π

/-- The address selects the parent of the node at `π` and a concrete other child of it. -/
def AddrVec.selectsSibling (a : AddrVec) (π : Path) : Bool := a.missesFrom 1 π

/-- The clocks of the issues of `p` that selected `π`, most recent first. -/
def issuesOf (H : List (Issue C)) (p : C) (π : Path) : List Int :=
  recent (fun e => e.cmd = p ∧ e.addr.selects π) (·.clk) H

/-- The end-of-command clocks of the issues of group `g` that selected `π`, most recent first. -/
def sharedEnds (spec : DRAMSpec C) (H : List (Issue C)) (g : Nat) (π : Path) : List Int :=
  recent (fun e => spec.inGroup π.length e.cmd g ∧ e.addr.selects π)
    (fun e => e.clk + spec.commandCycles e.cmd - 1) H

/-- Constraint `k`, filed under preceding command `p`, is met at the node `π` by clock `t`. -/
def Met (spec : DRAMSpec C) (H : List (Issue C)) (π : Path) (p : C) (k : TimingConsEntry C)
    (t : Int) : Prop :=
  if k.sibling then
    ∀ e ∈ H, e.cmd = p → e.addr.selectsSibling π → e.clk + k.val ≤ t
  else
    match k.historyGroup with
    | none => ∀ t', (issuesOf H p π)[k.window - 1]? = some t' → t' + k.val ≤ t
    | some g =>
        EachStep (fun before e => e.cmd = p → e.addr.selects π →
          ∀ t', (sharedEnds spec (before ++ [e]) g π)[k.window - 1]? = some t' →
            t' + k.val ≤ t) H

/-- Every constraint on `c` is met by clock `t` at every node that `a` selects. -/
def AllMet (spec : DRAMSpec C) (H : List (Issue C)) (c : C) (a : AddrVec) (t : Int) : Prop :=
  ∀ π, spec.isNode π → a.selects π →
    ∀ p, ∀ k ∈ spec.timingCons π.length p, k.cmd = c → Met spec H π p k t

/-- An address the device accepts: it names the device's own channel, and every coordinate below it
is a wildcard or in range (of rows and columns only the sign matters to the tree). -/
def DRAMSpec.InRange (spec : DRAMSpec C) (channelId : Int) (a : AddrVec) : Prop :=
  a.coord 0 = channelId ∧
    ∀ level, 1 ≤ level → a.coord level = -1 ∨
      0 ≤ a.coord level ∧ (level < spec.rowLevel → a.coord level < spec.levelSize level)

omit [DecidableEq C] in
/-- Beyond its last coordinate an address only has wildcards. -/
theorem inRange_of_forall_lt {spec : DRAMSpec C} {channelId : Int} {a : AddrVec}
    (h0 : a.coord 0 = channelId)
    (h : ∀ level < a.length, 1 ≤ level → a.coord level = -1 ∨
      0 ≤ a.coord level ∧ (level < spec.rowLevel → a.coord level < spec.levelSize level)) :
    spec.InRange channelId a := by
  refine ⟨h0, fun level hlevel => ?_⟩
  by_cases hlt : level < a.length
  · exact h level hlt hlevel
  · exact Or.inl (by simp [AddrVec.coord, Nat.not_lt.mp hlt])

/-! ## What one recorded command does to each node -/

/-- The timing fields of the node at a path. -/
def DRAMNode.timingAt : Path → DRAMNode C → Option (NodeTiming C)
  | [], .mk _ _ tm _ _ => some tm
  | i :: π, .mk _ _ _ n child => if h : i < n then timingAt π (child ⟨i, h⟩) else none

def DRAMNode.nodeId : DRAMNode C → Int
  | .mk _ id _ _ _ => id

/-- Levels and ids of a tree are those the constructor gives. -/
def DRAMNode.Shaped : Nat → DRAMNode C → Prop
  | level, .mk l _ _ _ child => l = level ∧
      ∀ i, (child i).nodeId = i ∧ DRAMNode.Shaped (level + 1) (child i)

/-- What recording `command` at `addr` does to the node `π` steps below a selected one. -/
def nodeStep (spec : DRAMSpec C) (level : Nat) (π : Path) (e : Issue C) (tm : NodeTiming C) :
    NodeTiming C :=
  if e.addr.selectsFrom (level + 1) π then tm.updateTarget spec (level + π.length) e.cmd e.clk
  else if e.addr.missesFrom (level + 1) π then
    tm.updateSibling spec (level + π.length) e.cmd e.clk
  else tm

theorem hits_iff {a : AddrVec} {level i : Nat} :
    a.hits level i = true ↔ a.coord level = -1 ∨ a.coord level = i := by
  simp [AddrVec.hits]

theorem nodeStep_cons_of_hit (spec : DRAMSpec C) {level i : Nat} {e : Issue C}
    (h : e.addr.hits (level + 1) i = true) (π : Path) :
    nodeStep spec level (i :: π) e = nodeStep spec (level + 1) π e := by
  have hlen : level + (i :: π).length = level + 1 + π.length := by
    simp only [List.length_cons]
    omega
  funext tm
  rw [nodeStep, nodeStep, hlen]
  cases π <;> simp [AddrVec.selectsFrom, AddrVec.missesFrom, h]

theorem nodeStep_of_miss (spec : DRAMSpec C) {level i : Nat} {e : Issue C}
    (h : e.addr.hits (level + 1) i = false) (π : Path) :
    nodeStep spec level (i :: π) e =
      fun tm => if π = [] then tm.updateSibling spec (level + 1) e.cmd e.clk else tm := by
  funext tm
  cases π <;> simp [nodeStep, AddrVec.selectsFrom, AddrVec.missesFrom, h]

theorem updateSibling_of_no_sibling {spec : DRAMSpec C} {level : Nat} {cmd : C}
    (h : spec.hasSiblingCons level cmd = false) (clk : Int) (tm : NodeTiming C) :
    tm.updateSibling spec level cmd clk = tm := by
  have hnone : ∀ t ∈ spec.timingCons level cmd, t.sibling = false := by
    simpa [DRAMSpec.hasSiblingCons] using h
  rw [NodeTiming.updateSibling, bumpAll_of_forall_none]
  intro t ht
  simp [hnone t ht]

theorem updateTiming_nodeId (spec : DRAMSpec C) (c : C) (a : AddrVec) (clk : Int)
    (n : DRAMNode C) : (n.updateTiming spec c a clk).nodeId = n.nodeId := by
  cases n with
  | mk level id tm k child =>
      rw [DRAMNode.updateTiming]
      split
      · rfl
      · dsimp only
        split <;> rfl

theorem shaped_updateTiming (spec : DRAMSpec C) (c : C) (a : AddrVec) (clk : Int)
    {n : DRAMNode C} {level : Nat} (h : n.Shaped level) :
    (n.updateTiming spec c a clk).Shaped level := by
  induction n generalizing level with
  | mk l id tm k child ih =>
      obtain ⟨rfl, hchild⟩ := h
      have hvisit : ∀ i, ((child i).updateTiming spec c a clk).nodeId = i ∧
          ((child i).updateTiming spec c a clk).Shaped (l + 1) := fun i =>
        ⟨by rw [updateTiming_nodeId]; exact (hchild i).1, ih i (hchild i).2⟩
      rw [DRAMNode.updateTiming]
      split
      · exact ⟨rfl, hchild⟩
      · dsimp only
        split
        · exact ⟨rfl, hvisit⟩
        · refine ⟨rfl, fun i => ?_⟩
          by_cases hi : (i : Int) = a.coord (l + 1)
          · simpa only [if_pos hi] using hvisit i
          · simpa only [if_neg hi] using hchild i

/-- A visited child that is not addressed only takes the sibling branch; nothing below it moves. -/
theorem timingAt_updateTiming_of_missed (spec : DRAMSpec C) (e : Issue C) {n : DRAMNode C}
    {level i : Nat} (hshape : n.Shaped level) (hid : n.nodeId = i)
    (hmiss : e.addr.hits level i = false) (π : Path) :
    (n.updateTiming spec e.cmd e.addr e.clk).timingAt π =
      if π = [] then (n.timingAt []).map (·.updateSibling spec level e.cmd e.clk)
      else n.timingAt π := by
  cases n with
  | mk l id tm k child =>
      obtain ⟨rfl, -⟩ := hshape
      have hne : ¬ (e.addr.coord l = -1 ∨ e.addr.coord l = i) := by
        rw [← hits_iff, hmiss]
        simp
      push Not at hne
      have hbranch : id ≠ e.addr.coord l ∧ e.addr.coord l ≠ -1 := by
        refine ⟨?_, hne.1⟩
        rintro rfl
        exact hne.2 hid
      rw [DRAMNode.updateTiming, if_pos hbranch]
      cases π with
      | nil => rfl
      | cons j π => rfl

/-- One step, at every node: below a node that the address selects, the node at path `π` takes the
target branch when the address follows `π`, the sibling branch when it leaves at the last step, and
is left alone otherwise. -/
theorem timingAt_updateTiming (spec : DRAMSpec C) (e : Issue C) (π : Path) :
    ∀ {n : DRAMNode C} {level : Nat}, n.Shaped level →
      (n.nodeId = e.addr.coord level ∨ e.addr.coord level = -1) →
      (n.updateTiming spec e.cmd e.addr e.clk).timingAt π =
        (n.timingAt π).map (nodeStep spec level π e) := by
  induction π with
  | nil =>
      rintro ⟨l, nid, tm, k, child⟩ level ⟨rfl, -⟩ hsel
      have hbranch : ¬ (nid ≠ e.addr.coord l ∧ e.addr.coord l ≠ -1) := by
        rcases hsel with h | h
        · exact fun hc => hc.1 h
        · exact fun hc => hc.2 h
      rw [DRAMNode.updateTiming, if_neg hbranch]
      dsimp only
      split <;> simp [DRAMNode.timingAt, nodeStep, AddrVec.selectsFrom]
  | cons i π ih =>
      rintro ⟨l, nid, tm, k, child⟩ level ⟨rfl, hchild⟩ hsel
      have hbranch : ¬ (nid ≠ e.addr.coord l ∧ e.addr.coord l ≠ -1) := by
        rcases hsel with h | h
        · exact fun hc => hc.1 h
        · exact fun hc => hc.2 h
      by_cases hik : i < k
      swap
      · rw [DRAMNode.updateTiming, if_neg hbranch]
        dsimp only
        split <;> simp [DRAMNode.timingAt, hik]
      obtain ⟨hid, hshape⟩ := hchild ⟨i, hik⟩
      have hdown : (DRAMNode.mk l nid tm k child).timingAt (i :: π) =
          (child ⟨i, hik⟩).timingAt π := by simp [DRAMNode.timingAt, hik]
      cases hhit : e.addr.hits (l + 1) i with
      | true =>
          -- the addressed child is visited whichever loop runs
          have hvisit : (((DRAMNode.mk l nid tm k child).updateTiming spec e.cmd e.addr e.clk).timingAt
              (i :: π)) = ((child ⟨i, hik⟩).updateTiming spec e.cmd e.addr e.clk).timingAt π := by
            rw [DRAMNode.updateTiming, if_neg hbranch]
            dsimp only
            split
            · simp [DRAMNode.timingAt, hik]
            · rename_i hno
              have hi : (i : Int) = e.addr.coord (l + 1) := by
                rcases hits_iff.mp hhit with h | h
                · exact absurd (Or.inr h) hno
                · exact h.symm
              simp [DRAMNode.timingAt, hik, hi]
          have hsel' : (child ⟨i, hik⟩).nodeId = e.addr.coord (l + 1) ∨ e.addr.coord (l + 1) = -1 := by
            rcases hits_iff.mp hhit with h | h
            · exact Or.inr h
            · exact Or.inl (by rw [hid, h])
          rw [hvisit, ih hshape hsel', hdown, nodeStep_cons_of_hit spec hhit]
      | false =>
          have hmissed := timingAt_updateTiming_of_missed spec e hshape hid hhit π
          -- skipped or visited, the missed child ends up the same: without sibling constraints the
          -- sibling branch is the identity
          have hvisit : (((DRAMNode.mk l nid tm k child).updateTiming spec e.cmd e.addr e.clk).timingAt
              (i :: π)) = ((child ⟨i, hik⟩).updateTiming spec e.cmd e.addr e.clk).timingAt π := by
            rw [DRAMNode.updateTiming, if_neg hbranch]
            dsimp only
            split
            · simp [DRAMNode.timingAt, hik]
            · rename_i hno
              push Not at hno
              have hi : ¬ (i : Int) = e.addr.coord (l + 1) := by
                intro h
                rw [hits_iff.mpr (Or.inr h.symm)] at hhit
                exact Bool.noConfusion hhit
              have hid' : (fun tm' : NodeTiming C => tm'.updateSibling spec (l + 1) e.cmd e.clk) = id := by
                funext tm'
                exact updateSibling_of_no_sibling (by simpa using hno.1) e.clk tm'
              rw [hmissed, hid']
              cases π <;> simp [DRAMNode.timingAt, hik, hi]
          rw [hvisit, hmissed, hdown, nodeStep_of_miss spec hhit]
          cases π <;> simp

/-! ## What a node's fields say about the history -/

/-- The tree after recording a history. -/
def DRAMNode.issueAll (spec : DRAMSpec C) (root : DRAMNode C) (H : List (Issue C)) : DRAMNode C :=
  H.foldl (fun n e => n.updateTiming spec e.cmd e.addr e.clk) root

/-- The clock that constraint `k` of command `p` reads at the node `π`, in terms of the history:
negative when the slot was never filled. -/
def slot (spec : DRAMSpec C) (H : List (Issue C)) (π : Path) (p : C) (k : TimingConsEntry C) : Int :=
  match k.historyGroup with
  | some g => (sharedEnds spec H g π).getD (k.window - 1) (-1)
  | none => (issuesOf H p π).getD (k.window - 1) (-1)

/-- The clocks that issue `e`, coming after `before`, makes `c` wait for at the node `π`. -/
def WaitsUntil (spec : DRAMSpec C) (π : Path) (c : C) (t : Int) (before : List (Issue C))
    (e : Issue C) : Prop :=
  ∀ k ∈ spec.timingCons π.length e.cmd, k.cmd = c →
    (k.sibling = true → e.addr.selectsSibling π → e.clk + k.val ≤ t) ∧
    (k.sibling = false → e.addr.selects π → 0 ≤ slot spec (before ++ [e]) π e.cmd k →
      slot spec (before ++ [e]) π e.cmd k + k.val ≤ t)

/-- The invariant of the node at `π` after the history `H`. -/
structure Summary (spec : DRAMSpec C) (π : Path) (H : List (Issue C)) (tm : NodeTiming C) : Prop where
  cmdHistory : ∀ p, tm.cmdHistory p = window (spec.maxWindow π.length p) (-1) (issuesOf H p π)
  shared : ∀ g, tm.sharedWindowHistory g =
    window (spec.groupWindow π.length g) (-1) (sharedEnds spec H g π)
  ready : ∀ c t, tm.cmdReadyClk c ≤ t ↔ -1 ≤ t ∧ EachStep (WaitsUntil spec π c t) H

theorem summary_init (spec : DRAMSpec C) (π : Path) :
    Summary spec π [] (NodeTiming.init spec π.length) where
  cmdHistory p := (window_nil _ _).symm
  shared g := (window_nil _ _).symm
  ready c t := by simp [NodeTiming.init, eachStep_nil]

/-- An address cannot both select a node and select a sibling of it. -/
theorem missesFrom_of_selectsFrom {a : AddrVec} {level : Nat} {π : Path}
    (h : a.selectsFrom level π = true) : a.missesFrom level π = false := by
  induction π generalizing level with
  | nil => rfl
  | cons i π ih =>
      simp only [AddrVec.selectsFrom, Bool.and_eq_true] at h
      cases π with
      | nil => simp [AddrVec.missesFrom, h.1]
      | cons j π => simp only [AddrVec.missesFrom, ih h.2, Bool.and_false]

theorem issuesOf_concat (H : List (Issue C)) (e : Issue C) (p : C) (π : Path) :
    issuesOf (H ++ [e]) p π =
      if e.cmd = p ∧ e.addr.selects π then e.clk :: issuesOf H p π else issuesOf H p π := by
  rw [issuesOf, recent_concat]
  simp [issuesOf]

omit [DecidableEq C] in
theorem sharedEnds_concat (spec : DRAMSpec C) (H : List (Issue C)) (e : Issue C) (g : Nat)
    (π : Path) :
    sharedEnds spec (H ++ [e]) g π =
      if spec.inGroup π.length e.cmd g ∧ e.addr.selects π then
        (e.clk + spec.commandCycles e.cmd - 1) :: sharedEnds spec H g π
      else sharedEnds spec H g π := by
  rw [sharedEnds, recent_concat]
  simp [sharedEnds]

theorem pushHistory_cmdHistory (cmd p : C) (clk : Int) (tm : NodeTiming C) :
    (tm.pushHistory cmd clk).cmdHistory p =
      if p = cmd ∧ tm.cmdHistory cmd ≠ [] then pushFront clk (tm.cmdHistory cmd)
      else tm.cmdHistory p := by
  by_cases hnil : tm.cmdHistory cmd = []
  · simp [NodeTiming.pushHistory, hnil]
  · by_cases hp : p = cmd
    · subst hp
      simp [NodeTiming.pushHistory, hnil]
    · simp [NodeTiming.pushHistory, hnil, hp]

@[simp] theorem pushHistory_sharedWindowHistory (cmd : C) (clk : Int) (tm : NodeTiming C) :
    (tm.pushHistory cmd clk).sharedWindowHistory = tm.sharedWindowHistory := by
  rw [NodeTiming.pushHistory]
  split <;> rfl

@[simp] theorem pushHistory_cmdReadyClk (cmd : C) (clk : Int) (tm : NodeTiming C) :
    (tm.pushHistory cmd clk).cmdReadyClk = tm.cmdReadyClk := by
  rw [NodeTiming.pushHistory]
  split <;> rfl

omit [DecidableEq C] in
/-- The loop over `command`'s constraints pushes each group of `command` exactly once. -/
theorem pushShared_sharedWindowHistory (spec : DRAMSpec C) (level : Nat) (cmd : C) (clk : Int)
    (tm : NodeTiming C) (g : Nat) :
    (tm.pushShared spec level cmd clk).sharedWindowHistory g =
      if spec.inGroup level cmd g then
        pushFront (clk + spec.commandCycles cmd - 1) (tm.sharedWindowHistory g)
      else tm.sharedWindowHistory g := by
  set x := clk + spec.commandCycles cmd - 1 with hx
  let step := fun (acc : (Nat → List Int) × (Nat → Bool)) (t : TimingConsEntry C) =>
    match t.historyGroup with
    | none => acc
    | some g =>
        if acc.2 g then acc
        else (Function.update acc.1 g (pushFront x (acc.1 g)), Function.update acc.2 g true)
  -- the flag array separates groups already pushed from those still to come
  have key : ∀ (ts : List (TimingConsEntry C)) (acc : (Nat → List Int) × (Nat → Bool)),
      (ts.foldl step acc).1 g =
        if acc.2 g then acc.1 g
        else if ts.any (fun t => t.historyGroup = some g) then pushFront x (acc.1 g)
        else acc.1 g := by
    intro ts
    induction ts with
    | nil => simp
    | cons t ts ih =>
        intro acc
        rw [List.foldl_cons, ih]
        cases hg : t.historyGroup with
        | none => simp [step, hg]
        | some g' =>
            by_cases hup : acc.2 g' = true
            · by_cases hgg : g' = g
              · subst hgg
                simp [step, hg, hup]
              · simp [step, hg, hup, hgg]
            · by_cases hgg : g' = g
              · subst hgg
                simp [step, hg, hup]
              · simp [step, hg, hup, hgg, Function.update_of_ne (Ne.symm hgg)]
  exact key (spec.timingCons level cmd) (tm.sharedWindowHistory, fun _ => false)

/-- After the two pushes the deques are the windows of the extended history. -/
theorem pushed_histories {spec : DRAMSpec C}
    (hwin : ∀ level c, ∀ t ∈ spec.timingCons level c, 1 ≤ t.window) {π : Path}
    {H : List (Issue C)} {tm : NodeTiming C} (hs : Summary spec π H tm) {e : Issue C}
    (hsel : e.addr.selects π = true) :
    (∀ p, ((tm.pushHistory e.cmd e.clk).pushShared spec π.length e.cmd e.clk).cmdHistory p =
      window (spec.maxWindow π.length p) (-1) (issuesOf (H ++ [e]) p π)) ∧
    ∀ g, ((tm.pushHistory e.cmd e.clk).pushShared spec π.length e.cmd e.clk).sharedWindowHistory g =
      window (spec.groupWindow π.length g) (-1) (sharedEnds spec (H ++ [e]) g π) := by
  constructor
  · intro p
    have hpush : ((tm.pushHistory e.cmd e.clk).pushShared spec π.length e.cmd e.clk).cmdHistory p =
        (tm.pushHistory e.cmd e.clk).cmdHistory p := rfl
    rw [hpush, pushHistory_cmdHistory, issuesOf_concat]
    by_cases hp : e.cmd = p
    · subst hp
      rw [if_pos (show e.cmd = e.cmd ∧ e.addr.selects π = true from ⟨rfl, hsel⟩)]
      by_cases hW : spec.maxWindow π.length e.cmd = 0
      · -- no constraint is filed under this command: it has no history deque
        have hnil : tm.cmdHistory e.cmd = [] := by
          rw [hs.cmdHistory, hW]
          simp [window]
        rw [if_neg (by simp [hnil]), hnil, hW]
        simp [window]
      · have hne : tm.cmdHistory e.cmd ≠ [] := by
          rw [hs.cmdHistory, ← List.length_pos_iff, window_length]
          omega
        rw [if_pos ⟨rfl, hne⟩, hs.cmdHistory, pushFront_window (by omega)]
    · rw [if_neg (fun h => hp h.1.symm), if_neg (fun h => hp h.1), hs.cmdHistory]
  · intro g
    rw [pushShared_sharedWindowHistory, pushHistory_sharedWindowHistory, hs.shared, sharedEnds_concat]
    cases hg : spec.inGroup π.length e.cmd g with
    | false => simp
    | true =>
        obtain ⟨t, ht, htg⟩ : ∃ t ∈ spec.timingCons π.length e.cmd, t.historyGroup = some g := by
          simpa [DRAMSpec.inGroup] using hg
        have hW : 0 < spec.groupWindow π.length g :=
          (hwin _ _ t ht).trans (DRAMSpec.window_le_groupWindow ht htg)
        simp [hsel, pushFront_window hW]

/-- Recording a command that selects the node pushes its history slots, then counts from them. -/
theorem summary_updateTarget {spec : DRAMSpec C}
    (hwin : ∀ level c, ∀ t ∈ spec.timingCons level c, 1 ≤ t.window) {π : Path}
    {H : List (Issue C)} {tm : NodeTiming C} (hs : Summary spec π H tm) {e : Issue C}
    (hsel : e.addr.selects π = true) :
    Summary spec π (H ++ [e]) (tm.updateTarget spec π.length e.cmd e.clk) := by
  obtain ⟨hhist, hshared⟩ := pushed_histories hwin hs hsel
  set tm₁ := (tm.pushHistory e.cmd e.clk).pushShared spec π.length e.cmd e.clk with htm₁
  have hready₁ : tm₁.cmdReadyClk = tm.cmdReadyClk := pushHistory_cmdReadyClk e.cmd e.clk tm
  -- the history that is read holds the issue itself, so the slot is one of the extended run
  have hpast : ∀ k ∈ spec.timingCons π.length e.cmd,
      tm₁.past e.cmd k = slot spec (H ++ [e]) π e.cmd k := by
    intro k hk
    have hw := hwin _ _ k hk
    cases hg : k.historyGroup with
    | none =>
        have hlt : k.window - 1 < spec.maxWindow π.length e.cmd := by
          have := DRAMSpec.window_le_maxWindow hk
          omega
        simp only [NodeTiming.past, slot, hg, hhist, window_getD hlt]
    | some g =>
        have hlt : k.window - 1 < spec.groupWindow π.length g := by
          have := DRAMSpec.window_le_groupWindow hk hg
          omega
        simp only [NodeTiming.past, slot, hg, hshared, window_getD hlt]
  have hmiss : e.addr.selectsSibling π = false := missesFrom_of_selectsFrom hsel
  refine ⟨hhist, hshared, fun c t => ?_⟩
  rw [eachStep_concat, ← and_assoc, ← hs.ready]
  simp only [NodeTiming.updateTarget, NodeTiming.raiseReady, bumpAll_le_iff, ← htm₁, hready₁]
  refine and_congr_right fun _ => ⟨fun h k hk hkc => ⟨fun _ hm => ?_, fun hns _ hpos => ?_⟩, ?_⟩
  · simp [hmiss] at hm
  · refine h k hk hkc _ ?_
    rw [hpast k hk, if_neg (by simp [hns]), if_neg (by omega)]
  · intro h k hk hkc v hv
    rw [hpast k hk] at hv
    split at hv
    · cases hv
    · rename_i hns
      split at hv
      · cases hv
      · rename_i hpos
        obtain rfl : slot spec (H ++ [e]) π e.cmd k + k.val = v := by simpa using hv
        exact (h k hk hkc).2 (by simpa using hns) hsel (by omega)

/-- Recording a command that selects a sibling counts the sibling constraints from now. -/
theorem summary_updateSibling {spec : DRAMSpec C} {π : Path} {H : List (Issue C)}
    {tm : NodeTiming C} (hs : Summary spec π H tm) {e : Issue C}
    (hsel : e.addr.selects π = false) (hmiss : e.addr.selectsSibling π = true) :
    Summary spec π (H ++ [e]) (tm.updateSibling spec π.length e.cmd e.clk) where
  cmdHistory p := by
    rw [issuesOf_concat, if_neg (by simp [hsel])]
    exact hs.cmdHistory p
  shared g := by
    rw [sharedEnds_concat, if_neg (by simp [hsel])]
    exact hs.shared g
  ready c t := by
    rw [eachStep_concat, ← and_assoc, ← hs.ready]
    simp only [NodeTiming.updateSibling, bumpAll_le_iff]
    refine and_congr_right fun _ => ⟨fun h k hk hkc => ⟨fun hks _ => ?_, ?_⟩, ?_⟩
    · exact h k hk hkc _ (by rw [if_pos hks])
    · intro _ hs'
      simp [hsel] at hs'
    · intro h k hk hkc v hv
      split at hv
      · rename_i hks
        obtain rfl : e.clk + k.val = v := by simpa using hv
        exact (h k hk hkc).1 hks hmiss
      · cases hv

/-- A command that selects neither leaves the node's summary as it is. -/
theorem summary_skip {spec : DRAMSpec C} {π : Path} {H : List (Issue C)} {tm : NodeTiming C}
    (hs : Summary spec π H tm) {e : Issue C} (hsel : e.addr.selects π = false)
    (hmiss : e.addr.selectsSibling π = false) : Summary spec π (H ++ [e]) tm where
  cmdHistory p := by
    rw [issuesOf_concat, if_neg (by simp [hsel])]
    exact hs.cmdHistory p
  shared g := by
    rw [sharedEnds_concat, if_neg (by simp [hsel])]
    exact hs.shared g
  ready c t := by
    rw [eachStep_concat, ← and_assoc, ← hs.ready]
    simp [WaitsUntil, hsel, hmiss]

theorem summary_nodeStep {spec : DRAMSpec C}
    (hwin : ∀ level c, ∀ t ∈ spec.timingCons level c, 1 ≤ t.window) {π : Path}
    {H : List (Issue C)} {tm : NodeTiming C} (hs : Summary spec π H tm) (e : Issue C) :
    Summary spec π (H ++ [e]) (nodeStep spec 0 π e tm) := by
  have hstep : nodeStep spec 0 π e tm =
      if e.addr.selects π then tm.updateTarget spec π.length e.cmd e.clk
      else if e.addr.selectsSibling π then tm.updateSibling spec π.length e.cmd e.clk
      else tm := by
    rw [nodeStep, Nat.zero_add, Nat.zero_add]
    rfl
  rw [hstep]
  cases hsel : e.addr.selects π with
  | true => exact summary_updateTarget hwin hs hsel
  | false =>
      cases hmiss : e.addr.selectsSibling π with
      | true => exact summary_updateSibling hs hsel hmiss
      | false => exact summary_skip hs hsel hmiss

/-! ## Whole runs -/

omit [DecidableEq C] in
theorem shaped_build (spec : DRAMSpec C) (depth level : Nat) (id : Int) :
    (DRAMNode.build spec depth level id).Shaped level := by
  induction depth generalizing level id with
  | zero => exact ⟨rfl, fun i => i.elim0⟩
  | succ depth ih =>
      refine ⟨rfl, fun i => ⟨?_, ih (level + 1) i⟩⟩
      cases depth <;> rfl

omit [DecidableEq C] in
theorem timingAt_build (spec : DRAMSpec C) (π : Path) (depth level : Nat) (id : Int) :
    (DRAMNode.build spec depth level id).timingAt π =
      if spec.hasNode depth level π then some (NodeTiming.init spec (level + π.length)) else none := by
  induction π generalizing depth level id with
  | nil => cases depth <;> simp [DRAMNode.build, DRAMNode.timingAt, DRAMSpec.hasNode]
  | cons i π ih =>
      cases depth with
      | zero => simp [DRAMNode.build, DRAMNode.timingAt, DRAMSpec.hasNode]
      | succ depth =>
          by_cases hi : i < spec.levelSize (level + 1)
          · have hlen : level + 1 + π.length = level + (i :: π).length := by
              simp only [List.length_cons]
              omega
            simp [DRAMNode.build, DRAMNode.timingAt, DRAMSpec.hasNode, hi, ih, hlen]
          · simp [DRAMNode.build, DRAMNode.timingAt, DRAMSpec.hasNode, hi]

theorem nodeId_issueAll (spec : DRAMSpec C) (root : DRAMNode C) (H : List (Issue C)) :
    (root.issueAll spec H).nodeId = root.nodeId := by
  induction H using List.reverseRecOn with
  | nil => rfl
  | append_singleton H e ih =>
      rw [DRAMNode.issueAll, List.foldl_append]
      exact (updateTiming_nodeId spec e.cmd e.addr e.clk _).trans ih

theorem shaped_issueAll {spec : DRAMSpec C} {root : DRAMNode C} {level : Nat}
    (h : root.Shaped level) (H : List (Issue C)) : (root.issueAll spec H).Shaped level := by
  induction H using List.reverseRecOn with
  | nil => exact h
  | append_singleton H e ih =>
      rw [DRAMNode.issueAll, List.foldl_append]
      exact shaped_updateTiming spec e.cmd e.addr e.clk ih

/-- After any history of in-channel commands, the node at every path summarizes the history, and
there is a node exactly where the spec has one. -/
theorem summary_issueAll {spec : DRAMSpec C}
    (hwin : ∀ level c, ∀ t ∈ spec.timingCons level c, 1 ≤ t.window) {channelId : Int}
    {H : List (Issue C)} (haddr : ∀ e ∈ H, e.addr.coord 0 = channelId) (π : Path) :
    (∀ tm, ((DRAMNode.root spec channelId).issueAll spec H).timingAt π = some tm →
      spec.isNode π ∧ Summary spec π H tm) ∧
    (spec.isNode π →
      ∃ tm, ((DRAMNode.root spec channelId).issueAll spec H).timingAt π = some tm) := by
  induction H using List.reverseRecOn with
  | nil =>
      have hroot := timingAt_build spec π (spec.rowLevel - 1) 0 channelId
      rw [Nat.zero_add] at hroot
      cases hnode : spec.isNode π with
      | true =>
          rw [if_pos (show spec.hasNode (spec.rowLevel - 1) 0 π = true from hnode)] at hroot
          refine ⟨fun tm htm => ⟨rfl, ?_⟩, fun _ => ⟨_, hroot⟩⟩
          obtain rfl := Option.some.inj (hroot.symm.trans htm)
          exact summary_init spec π
      | false =>
          rw [if_neg (by simpa [DRAMSpec.isNode] using hnode)] at hroot
          exact ⟨fun tm htm => absurd (hroot.symm.trans htm) (by simp), fun h => by simp at h⟩
  | append_singleton H e ih =>
      obtain ⟨hsum, hex⟩ := ih fun d hd => haddr d (by simp [hd])
      have hid : ((DRAMNode.root spec channelId).issueAll spec H).nodeId = e.addr.coord 0 := by
        rw [nodeId_issueAll, haddr e (by simp), DRAMNode.root]
        cases spec.rowLevel - 1 <;> rfl
      have hstep : ((DRAMNode.root spec channelId).issueAll spec (H ++ [e])).timingAt π =
          (((DRAMNode.root spec channelId).issueAll spec H).timingAt π).map (nodeStep spec 0 π e) := by
        rw [DRAMNode.issueAll, List.foldl_append]
        exact timingAt_updateTiming spec e π
          (shaped_issueAll (shaped_build spec _ 0 channelId) H) (Or.inl hid)
      rw [hstep]
      constructor
      · intro tm htm
        obtain ⟨tm₀, htm₀, rfl⟩ := Option.map_eq_some_iff.mp htm
        obtain ⟨hnode, hs⟩ := hsum tm₀ htm₀
        exact ⟨hnode, summary_nodeStep hwin hs e⟩
      · intro hnode
        obtain ⟨tm, htm⟩ := hex hnode
        exact ⟨_, by rw [htm]; rfl⟩

/-! ## What the query walks compute -/

section Walks

omit [DecidableEq C]

/-- Every node that the address selects below `n` (a node of `level`) satisfies `Q`. -/
def AllSelected (a : AddrVec) (Q : NodeTiming C → Prop) (level : Nat) (n : DRAMNode C) : Prop :=
  ∀ π tm, n.timingAt π = some tm → a.selectsFrom (level + 1) π → Q tm

theorem allSelected_mk (a : AddrVec) (Q : NodeTiming C → Prop) (l : Nat) (nid : Int)
    (tm : NodeTiming C) (k : Nat) (child : Fin k → DRAMNode C) :
    AllSelected a Q l (.mk l nid tm k child) ↔
      Q tm ∧ ∀ i : Fin k, a.hits (l + 1) i = true → AllSelected a Q (l + 1) (child i) := by
  constructor
  · intro h
    refine ⟨h [] tm rfl rfl, fun i hi π tm' htm' hsel => h (i :: π) tm' ?_ ?_⟩
    · simpa [DRAMNode.timingAt] using htm'
    · simp [AddrVec.selectsFrom, hi, hsel]
  · rintro ⟨hhere, h⟩ π tm' htm' hsel
    cases π with
    | nil =>
        obtain rfl : tm = tm' := by simpa [DRAMNode.timingAt] using htm'
        exact hhere
    | cons i π =>
        simp only [AddrVec.selectsFrom, Bool.and_eq_true] at hsel
        by_cases hik : i < k
        · simp only [DRAMNode.timingAt, hik, dif_pos] at htm'
          exact h ⟨i, hik⟩ hsel.1 π tm' htm' hsel.2
        · simp [DRAMNode.timingAt, hik] at htm'

/-- A concrete coordinate hits the one child whose index it is. -/
theorem hits_concrete {a : AddrVec} {level : Nat} (hwild : a.coord level ≠ -1)
    (hpos : a.coord level = -1 ∨ 0 ≤ a.coord level) (i : Nat) :
    a.hits level i = true ↔ i = (a.coord level).toNat := by
  rw [hits_iff]
  omega

/-- The walk of `check_timing` passes exactly when every selected node has no ready clock for the
command, or one that has come. -/
theorem checkTiming_eq_true_iff (c : C) {a : AddrVec} (t : Int) {n : DRAMNode C} {level : Nat}
    (hshape : n.Shaped level) (ha : ∀ l, level < l → a.coord l = -1 ∨ 0 ≤ a.coord l) :
    n.checkTiming c a t = true ↔
      AllSelected a (fun tm => tm.cmdReadyClk c = -1 ∨ tm.cmdReadyClk c ≤ t) level n := by
  induction n generalizing level with
  | mk l nid tm k child ih =>
      obtain ⟨rfl, hchild⟩ := hshape
      have ih' := fun i => ih i (hchild i).2 fun l' hl' => ha l' (by omega)
      rw [DRAMNode.checkTiming, allSelected_mk]
      by_cases hbad : tm.cmdReadyClk c ≠ -1 ∧ t < tm.cmdReadyClk c
      · rw [if_pos hbad]
        simp only [Bool.false_eq_true, false_iff]
        omega
      · rw [if_neg hbad, and_iff_right (by omega)]
        simp only [← ih']
        split
        · rename_i hk
          subst hk
          exact ⟨fun _ i => i.elim0, fun _ => rfl⟩
        · split
          · rename_i hwild
            simp [List.all_eq_true, hits_iff, hwild]
          · rename_i hwild
            simp only [hits_concrete hwild (ha (l + 1) (by omega))]
            split
            · rename_i hlt
              exact ⟨fun h i hi => by rwa [show i = ⟨_, hlt⟩ from Fin.ext hi], fun h => h ⟨_, hlt⟩ rfl⟩
            · rename_i hge
              exact ⟨fun _ i hi => absurd (hi ▸ i.isLt) hge, fun _ => rfl⟩

/-- The walk of `earliest_ready` is the maximum of the ready clocks over the selected nodes. -/
theorem earliestReady_le_iff (c : C) {a : AddrVec} (t : Int) {n : DRAMNode C} {level : Nat}
    (hshape : n.Shaped level) (ha : ∀ l, level < l → a.coord l = -1 ∨ 0 ≤ a.coord l) :
    n.earliestReady c a ≤ t ↔ AllSelected a (fun tm => tm.cmdReadyClk c ≤ t) level n := by
  induction n generalizing level with
  | mk l nid tm k child ih =>
      obtain ⟨rfl, hchild⟩ := hshape
      have ih' := fun i => ih i (hchild i).2 fun l' hl' => ha l' (by omega)
      rw [DRAMNode.earliestReady, allSelected_mk]
      simp only [← ih']
      split
      · rename_i hk
        subst hk
        exact ⟨fun h => ⟨h, fun i => i.elim0⟩, fun h => h.1⟩
      · split
        · rename_i hwild
          simp [foldl_max_le_iff, hits_iff, hwild]
        · rename_i hwild
          simp only [hits_concrete hwild (ha (l + 1) (by omega))]
          split
          · rename_i hlt
            rw [max_le_iff]
            refine and_congr_right fun _ => ⟨fun h i hi => ?_, fun h => h ⟨_, hlt⟩ rfl⟩
            rwa [show i = ⟨_, hlt⟩ from Fin.ext hi]
          · rename_i hge
            exact ⟨fun h => ⟨h, fun i hi => absurd (hi ▸ i.isLt) hge⟩, fun h => h.1⟩

end Walks

/-! ## The engine decides the declared constraints -/

/-- A slot that counts only when it is filled, read from a list of nonnegative clocks. -/
theorem getD_bound_iff {l : List Int} (hl : ∀ x ∈ l, 0 ≤ x) (i : Nat) (v t : Int) :
    (0 ≤ l.getD i (-1) → l.getD i (-1) + v ≤ t) ↔ ∀ x, l[i]? = some x → x + v ≤ t := by
  rw [List.getD_eq_getElem?_getD]
  cases hi : l[i]? with
  | none => simp
  | some x =>
      have hx : 0 ≤ x := hl x (List.mem_of_getElem? hi)
      simp [hx]

/-- Over a history of nondecreasing clocks, waiting for every single issue is meeting every declared
constraint. -/
theorem eachStep_waitsUntil_iff {spec : DRAMSpec C}
    (hcycles : ∀ level c g, spec.inGroup level c g → 1 ≤ spec.commandCycles c)
    {H : List (Issue C)} (hclk : ∀ e ∈ H, 0 ≤ e.clk) (hmono : (H.map (·.clk)).Pairwise (· ≤ ·))
    (π : Path) (c : C) (t : Int) :
    EachStep (WaitsUntil spec π c t) H ↔
      ∀ p, ∀ k ∈ spec.timingCons π.length p, k.cmd = c → Met spec H π p k t := by
  -- one constraint at a time
  have hswap : EachStep (WaitsUntil spec π c t) H ↔
      ∀ p, ∀ k ∈ spec.timingCons π.length p, k.cmd = c →
        EachStep (fun before e => e.cmd = p →
          (k.sibling = true → e.addr.selectsSibling π → e.clk + k.val ≤ t) ∧
          (k.sibling = false → e.addr.selects π → 0 ≤ slot spec (before ++ [e]) π p k →
            slot spec (before ++ [e]) π p k + k.val ≤ t)) H := by
    constructor
    · rintro h p k hk hkc before e after hH rfl
      exact h before e after hH k hk hkc
    · intro h before e after hH k hk hkc
      exact h e.cmd k hk hkc before e after hH rfl
  rw [hswap]
  refine forall_congr' fun p => forall₂_congr fun k _ => imp_congr_right fun _ => ?_
  have hends : ∀ before e after, H = before ++ e :: after →
      ∀ g, ∀ x ∈ sharedEnds spec (before ++ [e]) g π, 0 ≤ x := by
    intro before e after hH g x hx
    obtain ⟨d, hd, hP, rfl⟩ := mem_recent.mp hx
    have hdH : d ∈ H := by
      rw [hH]
      simp only [List.mem_append, List.mem_cons] at hd ⊢
      tauto
    have := hclk d hdH
    have := hcycles π.length d.cmd g (by simpa using (of_decide_eq_true hP).1)
    omega
  have hissues : ∀ before e after, H = before ++ e :: after →
      ∀ x ∈ issuesOf (before ++ [e]) p π, 0 ≤ x := by
    intro before e after hH x hx
    obtain ⟨d, hd, -, rfl⟩ := mem_recent.mp hx
    refine hclk d ?_
    rw [hH]
    simp only [List.mem_append, List.mem_cons] at hd ⊢
    tauto
  cases hsib : k.sibling with
  | true =>
      simp only [Met, hsib, if_true, forall_true_left, reduceCtorEq, false_imp_iff, and_true]
      exact eachStep_const
  | false =>
      simp only [Met, hsib, Bool.false_eq_true, if_false, false_imp_iff, true_and, forall_true_left]
      cases hg : k.historyGroup with
      | some g =>
          refine eachStep_congr fun before e after hH => ?_
          simp only [slot, hg, getD_bound_iff (hends before e after hH g)]
      | none =>
          -- only the most recent issue matters: the clocks never decrease
          rw [issuesOf, ← eachStep_recent_iff (Q := fun x => x + k.val ≤ t) hmono]
          · refine eachStep_congr fun before e after hH => ?_
            simp only [slot, hg, getD_bound_iff (hissues before e after hH)]
            simp only [issuesOf, decide_eq_true_eq, and_imp]
          · intro x y hxy hy
            omega

theorem minus_one_le_cmdReadyClk {spec : DRAMSpec C} {π : Path} {H : List (Issue C)}
    {tm : NodeTiming C} (hs : Summary spec π H tm) (c : C) : -1 ≤ tm.cmdReadyClk c :=
  ((hs.ready c (tm.cmdReadyClk c)).mp le_rfl).1

/-- The timing engine decides its declarative constraints. After any run of in-range commands at
nonnegative, nondecreasing clocks, `check_timing` answers whether every declared constraint on the
command is met at every selected node, and `earliest_ready` is the first clock at which it does (the
value `-1` standing for "never constrained"). -/
theorem checkTiming_iff_allMet {spec : DRAMSpec C}
    (hwin : ∀ level c, ∀ t ∈ spec.timingCons level c, 1 ≤ t.window)
    (hcycles : ∀ level c g, spec.inGroup level c g → 1 ≤ spec.commandCycles c) {channelId : Int}
    {H : List (Issue C)}
    (haddr : ∀ e ∈ H, spec.InRange channelId e.addr) (hclk : ∀ e ∈ H, 0 ≤ e.clk)
    (hmono : (H.map (·.clk)).Pairwise (· ≤ ·)) (c : C) {a : AddrVec}
    (ha : spec.InRange channelId a) :
    let root := (DRAMNode.root spec channelId).issueAll spec H
    (∀ t, 0 ≤ t → (root.checkTiming c a t = true ↔ AllMet spec H c a t)) ∧
      IsLeast {t | 0 ≤ t ∧ root.checkTiming c a t = true} (max 0 (root.earliestReady c a)) ∧
      (0 ≤ root.earliestReady c a →
        IsLeast {t | root.checkTiming c a t = true} (root.earliestReady c a)) ∧
      -1 ≤ root.earliestReady c a := by
  intro root
  have hsum := @summary_issueAll _ _ spec hwin channelId H (fun e he => (haddr e he).1)
  have hshape : root.Shaped 0 := shaped_issueAll (shaped_build spec _ 0 channelId) H
  have hsign : ∀ l, 0 < l → a.coord l = -1 ∨ 0 ≤ a.coord l := fun l hl =>
    (ha.2 l hl).imp_right And.left
  have hcheck := fun t => checkTiming_eq_true_iff c t hshape hsign
  have hearly := fun t => earliestReady_le_iff c t hshape hsign
  have hlow : ∀ π tm, root.timingAt π = some tm → -1 ≤ tm.cmdReadyClk c := fun π tm htm =>
    minus_one_le_cmdReadyClk ((hsum π).1 tm htm).2 c
  -- from clock 0 on the sentinel plays no part
  have hagree : ∀ t, 0 ≤ t → (root.checkTiming c a t = true ↔ root.earliestReady c a ≤ t) := by
    intro t ht
    rw [hcheck, hearly]
    refine forall₂_congr fun π tm => imp_congr_right fun _ => imp_congr_right fun _ => ?_
    omega
  have hroot : -1 ≤ root.earliestReady c a := by
    obtain ⟨tm, htm⟩ := (hsum []).2 (by simp [DRAMSpec.isNode, DRAMSpec.hasNode])
    exact (hlow [] tm htm).trans ((hearly _).mp le_rfl [] tm htm rfl)
  refine ⟨fun t ht => ?_, ?_, ?_, hroot⟩
  · rw [hagree t ht, hearly]
    constructor
    · intro h π hnode hsel
      obtain ⟨tm, htm⟩ := (hsum π).2 hnode
      have hready := (((hsum π).1 tm htm).2.ready c t).mp (h π tm htm hsel)
      exact (eachStep_waitsUntil_iff hcycles hclk hmono π c t).mp hready.2
    · intro h π tm htm hsel
      obtain ⟨hnode, hs⟩ := (hsum π).1 tm htm
      refine (hs.ready c t).mpr ⟨by omega, ?_⟩
      exact (eachStep_waitsUntil_iff hcycles hclk hmono π c t).mpr (h π hnode hsel)
  · refine ⟨⟨le_max_left _ _, (hagree _ (le_max_left _ _)).mpr (le_max_right _ _)⟩, ?_⟩
    rintro t ⟨ht, hpass⟩
    exact max_le ht ((hagree t ht).mp hpass)
  · intro hpos
    refine ⟨(hagree _ hpos).mpr le_rfl, fun t hpass => ?_⟩
    by_cases ht : 0 ≤ t
    · exact (hagree t ht).mp hpass
    · -- before clock 0 only sentinels pass, and then nothing is constrained
      have hneg : root.earliestReady c a ≤ -1 := by
        refine (hearly _).mpr fun π tm htm hsel => ?_
        rcases (hcheck t).mp hpass π tm htm hsel with h | h <;> omega
      omega

/-- Activations and precharges of a channel with two ranks of two banks: per bank the two wait for
each other, per rank activations are spaced, at most two fall into a rolling window, and the other
rank's activations delay them too. -/
inductive PairCmd
  | act
  | pre
  deriving DecidableEq

def pairSpec : DRAMSpec PairCmd where
  commands := [.act, .pre]
  commands_complete := fun c => by cases c <;> simp
  rowLevel := 3
  levelSizes := [1, 2, 2, 16]
  timingCons := fun level cmd =>
    match level, cmd with
    | 1, .act => [{ cmd := .act, val := 4 },
        { cmd := .act, val := 10, window := 2, historyGroup := some 0 },
        { cmd := .act, val := 2, sibling := true }]
    | 2, .act => [{ cmd := .pre, val := 6 }]
    | 2, .pre => [{ cmd := .act, val := 5 }]
    | _, _ => []
  commandCycles := fun _ => 2

/-- Both banks of rank 0 are opened, then a bank of rank 1, and all banks of rank 0 are closed. -/
def pairIssues : List (Issue PairCmd) :=
  [⟨.act, [0, 0, 0, 5], 0⟩, ⟨.act, [0, 0, 1, 3], 4⟩, ⟨.act, [0, 1, 0, 2], 11⟩,
    ⟨.pre, [0, 0, -1], 12⟩]

theorem pairSpec_window :
    ∀ level c, ∀ t ∈ pairSpec.timingCons level c, 1 ≤ t.window := by
  intro level c t ht
  simp only [pairSpec] at ht
  split at ht <;> simp at ht <;> grind

theorem pairIssues_inRange (n : Nat) : ∀ e ∈ pairIssues.take n, pairSpec.InRange 0 e.addr := by
  have hall : ∀ e ∈ pairIssues, pairSpec.InRange 0 e.addr := by
    simp only [pairIssues, List.forall_mem_cons]
    exact ⟨inRange_of_forall_lt rfl (by decide), inRange_of_forall_lt rfl (by decide),
      inRange_of_forall_lt rfl (by decide), inRange_of_forall_lt rfl (by decide), by simp⟩
  exact fun e he => hall e (List.mem_of_mem_take he)

theorem pairIssues_clk (n : Nat) : (∀ e ∈ pairIssues.take n, 0 ≤ e.clk) ∧
    ((pairIssues.take n).map (·.clk)).Pairwise (· ≤ ·) := by
  have hpos : ∀ e ∈ pairIssues, 0 ≤ e.clk := by decide
  have hsorted : (pairIssues.map (·.clk)).Pairwise (· ≤ ·) := by decide
  refine ⟨fun e he => hpos e (List.mem_of_mem_take he), ?_⟩
  rw [List.map_take]
  exact hsorted.sublist (List.take_sublist _ _)

/-- The second activation waits for the rolling window, the next one for the other rank, and the
one that names both ranks for the precharge of its bank. -/
theorem checkTiming_iff_allMet_pair :
    (AllMet pairSpec (pairIssues.take 2) .act [0, 0, 1, 7] 11 ∧
      ¬ AllMet pairSpec (pairIssues.take 2) .act [0, 0, 1, 7] 10) ∧
    (AllMet pairSpec (pairIssues.take 3) .act [0, 0, 1, 7] 13 ∧
      ¬ AllMet pairSpec (pairIssues.take 3) .act [0, 0, 1, 7] 12) ∧
    (AllMet pairSpec (pairIssues.take 4) .act [0, -1, 0, 7] 17 ∧
      IsLeast {t | ((DRAMNode.root pairSpec 0).issueAll pairSpec (pairIssues.take 4)).checkTiming
        .act [0, -1, 0, 7] t = true} 17) := by
  have hcycles : ∀ level c g, pairSpec.inGroup level c g → 1 ≤ pairSpec.commandCycles c :=
    fun _ _ _ _ => by simp [pairSpec]
  have hone : pairSpec.InRange 0 [0, 0, 1, 7] := inRange_of_forall_lt rfl (by decide)
  have hboth : pairSpec.InRange 0 [0, -1, 0, 7] := inRange_of_forall_lt rfl (by decide)
  have h2 := checkTiming_iff_allMet pairSpec_window hcycles (pairIssues_inRange 2)
    (pairIssues_clk 2).1 (pairIssues_clk 2).2 .act hone
  have h3 := checkTiming_iff_allMet pairSpec_window hcycles (pairIssues_inRange 3)
    (pairIssues_clk 3).1 (pairIssues_clk 3).2 .act hone
  have h4 := checkTiming_iff_allMet pairSpec_window hcycles (pairIssues_inRange 4)
    (pairIssues_clk 4).1 (pairIssues_clk 4).2 .act hboth
  have hready : ((DRAMNode.root pairSpec 0).issueAll pairSpec
      (pairIssues.take 4)).earliestReady .act [0, -1, 0, 7] = 17 := by decide
  refine ⟨⟨(h2.1 11 (by decide)).mp (by decide), fun h => ?_⟩,
    ⟨(h3.1 13 (by decide)).mp (by decide), fun h => ?_⟩,
    (h4.1 17 (by decide)).mp (by decide), hready ▸ h4.2.2.1 (by rw [hready]; decide)⟩
  · exact absurd ((h2.1 10 (by decide)).mpr h) (by decide)
  · exact absurd ((h3.1 12 (by decide)).mpr h) (by decide)

/-- A channel without ranks whose only command is limited by a shared rolling window. -/
def rollingSpec (cycles : Int) : DRAMSpec Unit where
  commands := [()]
  commands_complete := fun _ => List.mem_singleton.mpr rfl
  rowLevel := 1
  levelSizes := [1]
  timingCons := fun level _ =>
    if level = 0 then [{ cmd := (), val := 5, window := 1, historyGroup := some 0 }] else []
  commandCycles := fun _ => cycles

theorem rollingSpec_window (cycles : Int) :
    ∀ level c, ∀ t ∈ (rollingSpec cycles).timingCons level c, 1 ≤ t.window := by
  intro level c t ht
  simp only [rollingSpec] at ht
  split at ht <;> simp_all

theorem rollingSpec_inRange (cycles : Int) : (rollingSpec cycles).InRange 0 [0] :=
  inRange_of_forall_lt rfl fun level hlt hle => absurd hle (by simp at hlt; omega)

/-- A command of zero length issued at clock 0 ends at clock `-1`, which the shared history cannot
tell from an empty slot: the engine lets the next command pass at once. -/
theorem zero_cycle_command_not_counted :
    (∀ level c, ∀ t ∈ (rollingSpec 0).timingCons level c, 1 ≤ t.window) ∧
      (rollingSpec 0).InRange 0 [0] ∧
      ¬ (((DRAMNode.root (rollingSpec 0) 0).issueAll (rollingSpec 0) [⟨(), [0], 0⟩]).checkTiming
          () [0] 0 = true ↔ AllMet (rollingSpec 0) [⟨(), [0], 0⟩] () [0] 0) := by
  refine ⟨rollingSpec_window 0, rollingSpec_inRange 0, fun h => ?_⟩
  have hmet := h.mp (by decide) [] (by decide) (by decide) ()
    { cmd := (), val := 5, window := 1, historyGroup := some 0 } (by decide) rfl
  have hlate := hmet [] ⟨(), [0], 0⟩ [] rfl rfl (by decide) (-1) (by decide)
  exact absurd hlate (by decide)

end Ramulator.Dram
