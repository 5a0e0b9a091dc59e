/-
# Ramulator.Dram.Dispatch — which banks a command reaches.

An issued command walks the node tree for the timing and goes through the flat array of banks for the
states. A bank is a path from the root; `visit` says in which of its branches `update_timing` meets the
node at the end of a path: in the target branch when the address selects the path. The flat array lists the
paths to the banks in mixed radix order, so that its banks that match an address are the selected ones.
-/
import Ramulator.Dram.Device
import Ramulator.Dram.Timing
import Ramulator.Lib.MixedRadix
import Ramulator.Lib.Run
import Mathlib.Data.List.GetD
import Mathlib.Data.List.Nodup
import Mathlib.Tactic.Ring

namespace Ramulator.Dram

open Ramulator.Lib Ramulator.Lib.MixedRadix

namespace DRAMNode

variable {C : Type} {spec : DRAMSpec C} {depth level : Nat} {id : Int} {node : DRAMNode C}

/-! ## Nodes and paths -/

/-- The node that a path leads to. -/
def follow : DRAMNode C → Path → Option (DRAMNode C)
  | node, [] => some node
  | .mk _ _ _ n child, i :: path => if h : i < n then (child ⟨i, h⟩).follow path else none

/-- `for_each_at_level`: the nodes of a level in the order of the walk, each with its path. -/
def forEachAtLevel (target : Nat) : DRAMNode C → List (Path × DRAMNode C)
  | .mk level id tm n child =>
      if level = target then [([], .mk level id tm n child)]
      else
        (List.ofFn fun i : Fin n =>
          ((child i).forEachAtLevel target).map fun x => ((i : Nat) :: x.1, x.2)).flatten

/-- The tree is as the constructor builds it: `depth` more levels of the sizes of the organization, and
the ids count the children. -/
def Built (spec : DRAMSpec C) : Nat → Nat → Int → DRAMNode C → Prop
  | 0, level, id, .mk level' id' _ n _ => level' = level ∧ id' = id ∧ n = 0
  | depth + 1, level, id, .mk level' id' _ n child =>
      level' = level ∧ id' = id ∧ n = spec.levelSize (level + 1) ∧
        ∀ i : Fin n, Built spec depth (level + 1) (i : Nat) (child i)

theorem built_build (spec : DRAMSpec C) (depth level : Nat) (id : Int) :
    (build spec depth level id).Built spec depth level id := by
  induction depth generalizing level id with
  | zero => exact ⟨rfl, rfl, rfl⟩
  | succ depth ih => exact ⟨rfl, rfl, rfl, fun i => ih (level + 1) _⟩

theorem Built.root_eq (h : node.Built spec depth level id) :
    ∃ tm n child, node = .mk level id tm n child := by
  obtain ⟨level', id', tm, n, child⟩ := node
  cases depth with
  | zero =>
      obtain ⟨rfl, rfl, -⟩ := h
      exact ⟨tm, n, child, rfl⟩
  | succ depth =>
      obtain ⟨rfl, rfl, -⟩ := h
      exact ⟨tm, n, child, rfl⟩

/-- The children are built with one level less. -/
theorem Built.child {tm : NodeTiming C} {n : Nat} {child : Fin n → DRAMNode C}
    (h : (mk level id tm n child).Built spec depth level id) (i : Fin n) :
    ∃ depth', (child i).Built spec depth' (level + 1) (i : Nat) := by
  cases depth with
  | zero =>
      obtain ⟨-, -, rfl⟩ := h
      exact i.elim0
  | succ depth => exact ⟨depth, h.2.2.2 i⟩

/-! ## The branches of `update_timing` -/

/-- The branch in which `update_timing` meets a node. -/
inductive Visit where
  | target
  | sibling
  deriving DecidableEq, Repr

/-- The node at the end of the path is met in the target branch, in the sibling branch or not at all. -/
def visit (spec : DRAMSpec C) (command : C) (addr : AddrVec) : DRAMNode C → Path → Option Visit
  | .mk level id _ _ _, [] =>
      if id ≠ addr.coord level ∧ addr.coord level ≠ -1 then some .sibling else some .target
  | .mk level id _ n child, i :: path =>
      if id ≠ addr.coord level ∧ addr.coord level ≠ -1 then none
      else if h : i < n then
        if spec.hasSiblingCons (level + 1) command ∨ addr.coord (level + 1) = -1 ∨
            (i : Int) = addr.coord (level + 1) then
          (child ⟨i, h⟩).visit spec command addr path
        else none
      else none

theorem not_missed_iff {addr : AddrVec} :
    ¬ (id ≠ addr.coord level ∧ addr.coord level ≠ -1) ↔ addr.coord level = -1 ∨ addr.coord level = id := by
  rw [not_and_or, not_not, not_not, or_comm, eq_comm (a := id)]

/-- The target branch is taken at the end of the selected paths. -/
theorem visit_eq_target_iff (h : node.Built spec depth level id) (command : C) (addr : AddrVec)
    {path : Path} (hpath : (node.follow path).isSome) :
    node.visit spec command addr path = some .target ↔
      (addr.coord level = -1 ∨ addr.coord level = id) ∧ addr.selectsFrom (level + 1) path = true := by
  induction path generalizing depth level id node with
  | nil =>
      obtain ⟨tm, n, child, rfl⟩ := h.root_eq
      rw [← not_missed_iff]
      simp only [visit, AddrVec.selectsFrom, and_true]
      split_ifs with hmiss
      · exact ⟨fun heq => Visit.noConfusion (Option.some.inj heq), fun hnot => absurd hmiss hnot⟩
      · exact ⟨fun _ => hmiss, fun _ => rfl⟩
  | cons i path ih =>
      obtain ⟨tm, n, child, rfl⟩ := h.root_eq
      rw [← not_missed_iff]
      unfold follow at hpath
      split_ifs at hpath with hi
      · obtain ⟨depth', hchild⟩ := h.child ⟨i, hi⟩
        simp only [visit, dif_pos hi, AddrVec.selectsFrom, Bool.and_eq_true, hits_iff]
        by_cases hmiss : id ≠ addr.coord level ∧ addr.coord level ≠ -1
        · rw [if_pos hmiss]
          exact ⟨fun heq => absurd heq (Option.some_ne_none _).symm, fun hboth => absurd hmiss hboth.1⟩
        · rw [if_neg hmiss]
          by_cases hvisited : spec.hasSiblingCons (level + 1) command ∨ addr.coord (level + 1) = -1 ∨
              (i : Int) = addr.coord (level + 1)
          · rw [if_pos hvisited, ih hchild hpath]
            exact ⟨fun hsel => ⟨hmiss, hsel⟩, fun hboth => hboth.2⟩
          · rw [if_neg hvisited]
            refine ⟨fun heq => absurd heq (Option.some_ne_none _).symm, fun hboth => absurd ?_ hvisited⟩
            rcases hboth.2.1 with hwild | hid
            · exact .inr (.inl hwild)
            · exact .inr (.inr hid.symm)
      · cases hpath

variable [DecidableEq C]

/-- What a visit does to the timing fields. -/
def Visit.apply (spec : DRAMSpec C) (level : Nat) (command : C) (clk : Int) (visit : Option Visit)
    (tm : NodeTiming C) : NodeTiming C :=
  match visit with
  | none => tm
  | some .sibling => tm.updateSibling spec level command clk
  | some .target => tm.updateTarget spec level command clk

/-- The walk changes the timing fields of each node as its visit says. -/
theorem timingAt_of_visit (h : node.Built spec depth level id) (command : C) (addr : AddrVec) (clk : Int)
    (path : Path) :
    (node.updateTiming spec command addr clk).timingAt path =
      (node.timingAt path).map
        (Visit.apply spec (level + path.length) command clk (node.visit spec command addr path)) := by
  induction path generalizing depth level id node with
  | nil =>
      obtain ⟨tm, n, child, rfl⟩ := h.root_eq
      unfold updateTiming visit
      dsimp only
      split_ifs <;> rfl
  | cons i path ih =>
      obtain ⟨tm, n, child, rfl⟩ := h.root_eq
      have hlen : level + (i :: path).length = level + 1 + path.length := by
        simp only [List.length_cons]
        omega
      unfold updateTiming visit
      by_cases hmiss : id ≠ addr.coord level ∧ addr.coord level ≠ -1
      · rw [if_pos hmiss, if_pos hmiss]
        exact Option.map_id'.symm
      · rw [if_neg hmiss, if_neg hmiss, hlen]
        by_cases hi : i < n
        · obtain ⟨depth', hchild⟩ := h.child ⟨i, hi⟩
          by_cases hall : spec.hasSiblingCons (level + 1) command ∨ addr.coord (level + 1) = -1
          · have hvisited : spec.hasSiblingCons (level + 1) command ∨ addr.coord (level + 1) = -1 ∨
                (i : Int) = addr.coord (level + 1) := by
              rw [← or_assoc]
              exact .inl hall
            simp only [if_pos hall, timingAt, dif_pos hi, if_pos hvisited]
            exact ih hchild
          · by_cases htarget : (i : Int) = addr.coord (level + 1)
            · simp only [if_neg hall, timingAt, dif_pos hi, htarget, or_true, if_true]
              exact ih hchild
            · have hmissed : ¬ (spec.hasSiblingCons (level + 1) command ∨ addr.coord (level + 1) = -1 ∨
                  (i : Int) = addr.coord (level + 1)) := by
                rw [← or_assoc]
                exact not_or.mpr ⟨hall, htarget⟩
              simp only [if_neg hall, if_neg hmissed, if_neg htarget, timingAt, dif_pos hi]
              exact Option.map_id'.symm
        · dsimp only
          split_ifs <;> simp only [timingAt, dif_neg hi, Option.map_none]

theorem Built.updateTiming (h : node.Built spec depth level id) (command : C) (addr : AddrVec) (clk : Int) :
    (node.updateTiming spec command addr clk).Built spec depth level id := by
  induction depth generalizing level id node with
  | zero =>
      obtain ⟨level', id', tm, n, child⟩ := node
      unfold DRAMNode.updateTiming
      dsimp only
      split_ifs <;> exact h
  | succ depth ih =>
      obtain ⟨level', id', tm, n, child⟩ := node
      obtain ⟨hlevel, hid, hn, hchild⟩ := h
      unfold DRAMNode.updateTiming
      dsimp only
      split_ifs
      · exact ⟨hlevel, hid, hn, hchild⟩
      · exact ⟨hlevel, hid, hn, fun i => ih (hchild i)⟩
      · refine ⟨hlevel, hid, hn, fun i => ?_⟩
        dsimp only
        split_ifs
        · exact ih (hchild i)
        · exact hchild i

end DRAMNode

/-! ## The flat array -/

/-- Blocks of one size, laid end to end. -/
theorem getElem?_flatMap_range {α : Type} {f : Nat → List α} {m : Nat} (hlen : ∀ i, (f i).length = m)
    {n i j : Nat} (hi : i < n) (hj : j < m) : ((List.range n).flatMap f)[j + m * i]? = (f i)[j]? := by
  have hlength : ∀ k, ((List.range k).flatMap f).length = m * k := by
    intro k
    induction k with
    | zero => rfl
    | succ k ih =>
        rw [List.range_succ, List.flatMap_append, List.length_append, ih, Nat.mul_succ]
        simp [hlen]
  induction n with
  | zero => exact absurd hi (Nat.not_lt_zero i)
  | succ n ih =>
      rw [List.range_succ, List.flatMap_append]
      rcases Nat.lt_succ_iff_lt_or_eq.mp hi with hlt | rfl
      · have hblock : m * i + m ≤ m * n := by
          rw [← Nat.mul_succ]
          exact Nat.mul_le_mul_left m hlt
        rw [List.getElem?_append_left (by rw [hlength]; omega)]
        exact ih hlt
      · rw [List.getElem?_append_right (by rw [hlength]; omega), hlength, Nat.add_sub_cancel]
        simp

namespace Standard

theorem length_coordinates_eq (sizes : List Nat) : (coordinates sizes).length = volume sizes := by
  induction sizes with
  | nil => rfl
  | cons n sizes ih =>
      have hblocks : ∀ k : Nat,
          ((List.range k).flatMap fun i => (coordinates sizes).map (i :: ·)).length = k * volume sizes := by
        intro k
        induction k with
        | zero => exact (Nat.zero_mul _).symm
        | succ k ihk =>
            rw [List.range_succ, List.flatMap_append, List.length_append, ihk, Nat.succ_mul]
            simp [ih]
      exact hblocks n

/-- Coordinates stand at their place in mixed radix order. -/
theorem getElem?_coordinates {sizes path : List Nat} (h : Within sizes path) :
    (coordinates sizes)[position sizes path]? = some path := by
  induction h with
  | nil => rfl
  | @cons n i sizes path hi hpath ih =>
      have hlen : ∀ k, ((coordinates sizes).map (k :: ·)).length = volume sizes := by
        intro k
        rw [List.length_map, length_coordinates_eq]
      rw [position_cons (Within.length_eq hpath)]
      show ((List.range n).flatMap fun i => (coordinates sizes).map (i :: ·))[_]? = _
      rw [getElem?_flatMap_range hlen hi (position_lt hpath), List.getElem?_map, ih]
      rfl

variable {spec : Standard} {addr : AddrVec}

/-- The numbers of nodes below each node, from the rank down to the bank. -/
def bankSizes (spec : Standard) : List Nat :=
  (List.range spec.bankLevel).map fun l => spec.levelSize (l + 1)

theorem bankNodes_eq (spec : Standard) : spec.bankNodes = coordinates spec.bankSizes := rfl

theorem bankCount_eq (spec : Standard) : spec.bankCount = volume spec.bankSizes :=
  length_coordinates_eq _

/-- The address names a bank. -/
def Concrete (spec : Standard) (addr : AddrVec) : Prop :=
  ∀ l < spec.bankLevel, 0 ≤ addr.coord (l + 1) ∧ addr.coord (l + 1) < spec.levelSize (l + 1)

/-- The path to the bank that an address names. -/
def bankPath (spec : Standard) (addr : AddrVec) : List Nat :=
  (List.range spec.bankLevel).map fun l => (addr.coord (l + 1)).toNat

theorem Concrete.within (h : spec.Concrete addr) : Within spec.bankSizes (spec.bankPath addr) := by
  unfold Within bankSizes bankPath
  rw [List.forall₂_map_left_iff, List.forall₂_map_right_iff, List.forall₂_same]
  intro l hl
  obtain ⟨hpos, hlt⟩ := h l (List.mem_range.mp hl)
  omega

/-- The mixed radix arithmetic of `get_flat_bank_id`. -/
theorem Concrete.flatBankId_eq (h : spec.Concrete addr) :
    spec.flatBankId addr = (position spec.bankSizes (spec.bankPath addr) : Nat) := by
  have hfold : ∀ n ≤ spec.bankLevel,
      (List.range n).foldl (fun id l => id * (spec.levelSize (l + 1) : Int) + addr.coord (l + 1)) 0 =
        (position ((List.range n).map fun l => spec.levelSize (l + 1))
          ((List.range n).map fun l => (addr.coord (l + 1)).toNat) : Nat) := by
    intro n
    induction n with
    | zero => exact fun _ => rfl
    | succ n ih =>
        intro hn
        obtain ⟨hpos, -⟩ := h n hn
        rw [List.range_succ, List.foldl_append, ih (by omega), List.map_append, List.map_append]
        simp only [List.foldl_cons, List.foldl_nil, List.map_cons, List.map_nil]
        rw [position_concat, Nat.cast_add, Nat.cast_mul, Int.toNat_of_nonneg hpos]
        ring
  exact hfold _ le_rfl

/-- The node that an address names stands at its flat id. -/
theorem Concrete.getElem?_bankNodes (h : spec.Concrete addr) :
    spec.bankNodes[(spec.flatBankId addr).toNat]? = some (spec.bankPath addr) := by
  rw [h.flatBankId_eq, Int.toNat_natCast]
  exact getElem?_coordinates h.within

end Standard

/-! ## The banks of the tree -/

namespace DRAMNode

variable {C : Type} {spec : DRAMSpec C} {depth level : Nat} {id : Int} {node : DRAMNode C}

/-- The walk over a level lists each node under its path. -/
theorem follow_of_mem_forEachAtLevel {target : Nat} {x : Path × DRAMNode C}
    (h : x ∈ node.forEachAtLevel target) : node.follow x.1 = some x.2 := by
  induction node generalizing x with
  | mk level id tm n child ih =>
      unfold forEachAtLevel at h
      split_ifs at h
      · obtain rfl := List.mem_singleton.mp h
        rfl
      · obtain ⟨l, hl, hx⟩ := List.mem_flatten.mp h
        obtain ⟨i, rfl⟩ := List.mem_ofFn.mp hl
        obtain ⟨y, hy, rfl⟩ := List.mem_map.mp hx
        show (if hi : (i : Nat) < n then (child ⟨i, hi⟩).follow y.1 else none) = some y.2
        rw [dif_pos i.isLt]
        exact ih i hy

theorem ofFn_flatten_eq_flatMap {α : Type} (n : Nat) (f : Nat → List α) :
    (List.ofFn fun i : Fin n => f i).flatten = (List.range n).flatMap f := by
  rw [List.flatMap_def]
  congr 1
  exact List.ext_getElem (by simp) (by simp)

/-- It meets them in the order of their coordinates. -/
theorem map_fst_forEachAtLevel (k : Nat) (h : node.Built spec depth level id) (hk : k ≤ depth) :
    (node.forEachAtLevel (level + k)).map Prod.fst =
      Standard.coordinates ((List.range k).map fun l => spec.levelSize (level + l + 1)) := by
  induction k generalizing depth level id node with
  | zero =>
      obtain ⟨level', id', tm, n, child⟩ := node
      obtain rfl : level' = level := by
        cases depth with
        | zero => exact h.1
        | succ depth => exact h.1
      unfold forEachAtLevel
      rw [if_pos (Nat.add_zero _).symm]
      rfl
  | succ k ih =>
      cases depth with
      | zero => exact absurd hk (Nat.not_succ_le_zero k)
      | succ depth =>
          obtain ⟨level', id', tm, n, child⟩ := node
          obtain ⟨rfl, rfl, rfl, hchild⟩ := h
          have hbelow : ∀ i, ((child i).forEachAtLevel (level' + (k + 1))).map Prod.fst =
              Standard.coordinates ((List.range k).map fun l => spec.levelSize (level' + 1 + l + 1)) := by
            intro i
            rw [← Nat.add_assoc, Nat.add_right_comm]
            exact ih (hchild i) (Nat.le_of_succ_le_succ hk)
          have hsizes : (List.range (k + 1)).map (fun l => spec.levelSize (level' + l + 1)) =
              spec.levelSize (level' + 1) ::
                (List.range k).map fun l => spec.levelSize (level' + 1 + l + 1) := by
            rw [List.range_succ_eq_map, List.map_cons, List.map_map]
            congr 1
            refine List.map_congr_left fun l _ => ?_
            exact congrArg spec.levelSize (by simp only [Nat.succ_eq_add_one]; omega)
          unfold forEachAtLevel
          rw [if_neg (by omega), hsizes, List.map_flatten, List.map_ofFn]
          have hblocks : (List.map Prod.fst ∘ fun i : Fin (spec.levelSize (level' + 1)) =>
              ((child i).forEachAtLevel (level' + (k + 1))).map fun x => ((i : Nat) :: x.1, x.2)) =
              fun i : Fin (spec.levelSize (level' + 1)) =>
                (Standard.coordinates ((List.range k).map fun l => spec.levelSize (level' + 1 + l + 1))).map
                  ((i : Nat) :: ·) := by
            funext i
            rw [← hbelow i, Function.comp_apply, List.map_map, List.map_map]
            rfl
          rw [hblocks]
          exact ofFn_flatten_eq_flatMap _ fun i =>
            (Standard.coordinates ((List.range k).map fun l => spec.levelSize (level' + 1 + l + 1))).map (i :: ·)

end DRAMNode

namespace Standard

variable {spec : Standard} {addr : AddrVec} {channelId : Int}

/-- Each place of the flat array belongs to one path. -/
theorem bankNodes_spec {i : Nat} (hi : i < spec.bankCount) :
    Within spec.bankSizes (spec.bankNodes.getD i []) ∧
      position spec.bankSizes (spec.bankNodes.getD i []) = i := by
  rw [bankCount_eq] at hi
  obtain ⟨path, hpath, rfl⟩ := (position_bijOn spec.bankSizes).surjOn hi
  have hget : spec.bankNodes.getD (position spec.bankSizes path) [] = path := by
    rw [List.getD_eq_getElem?_getD, bankNodes_eq, getElem?_coordinates hpath]
    rfl
  rw [hget]
  exact ⟨hpath, rfl⟩

theorem length_bankSizes (spec : Standard) : spec.bankSizes.length = spec.bankLevel := by
  rw [bankSizes, List.length_map, List.length_range]

theorem length_bankNode {i : Nat} (hi : i < spec.bankCount) :
    (spec.bankNodes.getD i []).length = spec.bankLevel :=
  (bankNodes_spec hi).1.length_eq.trans (length_bankSizes spec)

theorem selectsFrom_iff {level : Nat} {path : Path} :
    addr.selectsFrom level path = true ↔
      ∀ l < path.length, addr.coord (level + l) = -1 ∨ addr.coord (level + l) = (path.getD l 0 : Nat) := by
  induction path generalizing level with
  | nil => simp [AddrVec.selectsFrom]
  | cons i path ih =>
      rw [AddrVec.selectsFrom, Bool.and_eq_true, hits_iff, ih]
      constructor
      · rintro ⟨hid, hrest⟩ l hl
        cases l with
        | zero => exact hid
        | succ l =>
            have hat := hrest l (Nat.lt_of_succ_lt_succ hl)
            rw [Nat.add_right_comm] at hat
            exact hat
      · intro hall
        refine ⟨hall 0 (Nat.succ_pos _), fun l hl => ?_⟩
        have hat := hall (l + 1) (Nat.succ_lt_succ hl)
        rw [Nat.add_right_comm]
        exact hat

/-- A bank of the channel is selected when every id on the way to it is addressed. -/
def Selected (spec : Standard) (channelId : Int) (addr : AddrVec) (i : Nat) : Prop :=
  (addr.coord 0 = -1 ∨ addr.coord 0 = channelId) ∧ addr.selects (spec.bankNodes.getD i []) = true

theorem selected_iff {i : Nat} (hi : i < spec.bankCount) :
    spec.Selected channelId addr i ↔
      (addr.coord 0 = -1 ∨ addr.coord 0 = channelId) ∧
        ∀ l < spec.bankLevel, addr.coord (l + 1) = -1 ∨
          addr.coord (l + 1) = ((spec.bankNodes.getD i []).getD l 0 : Nat) := by
  unfold Selected AddrVec.selects
  rw [selectsFrom_iff, length_bankNode hi]
  simp only [Nat.add_comm 1]

/-- The upward walk of `bank_matches`. -/
theorem bankMatches_iff {i : Nat} (hi : i < spec.bankCount) :
    spec.bankMatches channelId i addr = true ↔ spec.Selected channelId addr i := by
  rw [selected_iff hi]
  simp [bankMatches]

/-- The addresses that a kind of target expects: those for a single bank name it, and those for the same
bank everywhere name it within its bank group. -/
def Addresses (spec : Standard) (target : BankTarget) (addr : AddrVec) : Prop :=
  match target with
  | .single => spec.Concrete addr
  | .all => True
  | .sameBank => addr.coord spec.bankLevel ≠ -1

/-- The bank of a concrete address is the only one that it selects. -/
theorem Concrete.selected_iff (h : spec.Concrete addr) (hchannel : addr.coord 0 = -1 ∨ addr.coord 0 = channelId)
    {i : Nat} (hi : i < spec.bankCount) :
    spec.Selected channelId addr i ↔ spec.flatBankId addr = (i : Int) := by
  obtain ⟨-, hplace⟩ := bankNodes_spec hi
  rw [Standard.selected_iff hi, h.flatBankId_eq]
  constructor
  · rintro ⟨-, hsel⟩
    have hpath : spec.bankPath addr = spec.bankNodes.getD i [] := by
      refine List.ext_getElem ?_ fun l hl hl' => ?_
      · rw [length_bankNode hi, bankPath, List.length_map, List.length_range]
      · have hlevel : l < spec.bankLevel := by
          rw [← length_bankNode hi]
          exact hl'
        obtain ⟨hpos, -⟩ := h l hlevel
        simp only [bankPath, List.getElem_map, List.getElem_range]
        rcases hsel l hlevel with hwild | hid
        · omega
        · rw [hid, Int.toNat_natCast, List.getD_eq_getElem _ _ hl']
    rw [hpath, hplace]
  · intro hid
    have hpath : spec.bankNodes.getD i [] = spec.bankPath addr := by
      have hget := getElem?_coordinates h.within
      rw [Int.ofNat.inj hid] at hget
      rw [List.getD_eq_getElem?_getD, bankNodes_eq, hget]
      rfl
    refine ⟨hchannel, fun l hl => .inr ?_⟩
    obtain ⟨hpos, -⟩ := h l hl
    have hlen : l < (spec.bankPath addr).length := by
      rw [bankPath, List.length_map, List.length_range]
      exact hl
    rw [hpath, List.getD_eq_getElem _ _ hlen]
    simp only [bankPath, List.getElem_map, List.getElem_range]
    exact (Int.toNat_of_nonneg hpos).symm

/-- The visited banks are those that the address selects. -/
theorem mem_targetBanks_iff (hlevels : 0 < spec.bankLevel) {c : Command}
    (hform : spec.Addresses c.bankTarget addr)
    (hchannel : addr.coord 0 = -1 ∨ addr.coord 0 = channelId) {i : Nat} (hi : i < spec.bankCount) :
    (i : Int) ∈ spec.targetBanks channelId c addr ↔ spec.Selected channelId addr i := by
  unfold targetBanks
  cases htarget : c.bankTarget with
  | single =>
      rw [htarget] at hform
      rw [List.mem_singleton, Concrete.selected_iff hform hchannel hi]
      exact eq_comm
  | all => simp [bankMatches_iff hi, hi]
  | sameBank =>
      rw [htarget] at hform
      have hid : spec.Selected channelId addr i → spec.bankId i = addr.coord spec.bankLevel := by
        intro hsel
        obtain ⟨-, hall⟩ := (Standard.selected_iff hi).mp hsel
        have hlast := hall (spec.bankLevel - 1) (by omega)
        rw [Nat.sub_add_cancel hlevels] at hlast
        have hbank := hlast.resolve_left hform
        have hlen := length_bankNode hi
        unfold bankId
        rw [hbank, List.getLastD_eq_getLast?, List.getLast?_eq_getElem?, hlen,
          ← List.getD_eq_getElem?_getD]
      simp only [List.mem_map, List.mem_filter, List.mem_range, Bool.and_eq_true, beq_iff_eq, Nat.cast_inj,
        exists_eq_right, hi, true_and]
      rw [bankMatches_iff hi]
      exact ⟨fun hboth => hboth.2, fun hsel => ⟨hid hsel, hsel⟩⟩

/-- Every visit is to a bank. -/
theorem isBank_of_mem_targetBanks {c : Command} (hform : spec.Addresses c.bankTarget addr) {b : Int}
    (hb : b ∈ spec.targetBanks channelId c addr) : ∃ i < spec.bankCount, b = (i : Nat) := by
  unfold targetBanks at hb
  cases htarget : c.bankTarget with
  | single =>
      rw [htarget] at hb hform
      obtain rfl := List.mem_singleton.mp hb
      refine ⟨_, ?_, Concrete.flatBankId_eq hform⟩
      rw [bankCount_eq]
      exact position_lt (Concrete.within hform)
  | all =>
      rw [htarget] at hb
      obtain ⟨i, hi, rfl⟩ := List.mem_map.mp hb
      exact ⟨i, List.mem_range.mp (List.mem_filter.mp hi).1, rfl⟩
  | sameBank =>
      rw [htarget] at hb
      obtain ⟨i, hi, rfl⟩ := List.mem_map.mp hb
      exact ⟨i, List.mem_range.mp (List.mem_filter.mp hi).1, rfl⟩

theorem nodup_targetBanks (spec : Standard) (channelId : Int) (c : Command) (addr : AddrVec) :
    (spec.targetBanks channelId c addr).Nodup := by
  have hcast : Function.Injective (Nat.cast : Nat → Int) := fun _ _ h => Int.ofNat.inj h
  unfold targetBanks
  cases c.bankTarget with
  | single => exact List.nodup_singleton _
  | all => exact (List.nodup_range.filter _).map hcast
  | sameBank => exact (List.nodup_range.filter _).map hcast

/-- The flat ids number the banks. -/
theorem flatBankId_bijOn (spec : Standard) (channel : Int) :
    Set.BijOn (fun path : List Nat => spec.flatBankId (channel :: path.map fun j : Nat => (j : Int)))
      {path | Within spec.bankSizes path} {b | 0 ≤ b ∧ b < spec.bankCount} := by
  have hflat : ∀ path, Within spec.bankSizes path →
      spec.flatBankId (channel :: path.map fun j : Nat => (j : Int)) = (position spec.bankSizes path : Nat) := by
    intro path hpath
    have hlen : path.length = spec.bankLevel := hpath.length_eq.trans (length_bankSizes spec)
    have hcoord : ∀ l < spec.bankLevel, ∃ hl : l < path.length,
        AddrVec.coord (channel :: path.map fun j : Nat => (j : Int)) (l + 1) = (path[l] : Nat) := by
      intro l hl
      have hl' : l < path.length := hlen.symm ▸ hl
      refine ⟨hl', ?_⟩
      rw [AddrVec.coord, List.getD_cons_succ, List.getD_eq_getElem _ _ (by rw [List.length_map]; exact hl'),
        List.getElem_map]
    have hconcrete : spec.Concrete (channel :: path.map fun j : Nat => (j : Int)) := by
      intro l hl
      obtain ⟨hl', heq⟩ := hcoord l hl
      rw [heq]
      have hbound := (List.forall₂_iff_get.mp hpath).2 l
        (by rw [length_bankSizes]; exact hl) hl'
      simp only [List.get_eq_getElem, bankSizes, List.getElem_map, List.getElem_range] at hbound
      omega
    have hpathEq : spec.bankPath (channel :: path.map fun j : Nat => (j : Int)) = path := by
      refine List.ext_getElem ?_ fun l hl hl' => ?_
      · rw [bankPath, List.length_map, List.length_range, hlen]
      · have hl'' : l < spec.bankLevel := hlen ▸ hl'
        simp only [bankPath, List.getElem_map, List.getElem_range]
        rw [(hcoord l hl'').2, Int.toNat_natCast]
    rw [hconcrete.flatBankId_eq, hpathEq]
  have hcast : Set.BijOn (fun x : Nat => (x : Int)) {x | x < volume spec.bankSizes}
      {b | 0 ≤ b ∧ b < spec.bankCount} := by
    rw [bankCount_eq]
    refine ⟨fun x hx => ⟨Int.natCast_nonneg x, Int.ofNat_lt.mpr hx⟩,
      fun x _ y _ heq => Int.ofNat.inj heq, fun b hb => ⟨b.toNat, ?_, Int.toNat_of_nonneg hb.1⟩⟩
    exact (Int.toNat_lt hb.1).mpr hb.2
  exact (hcast.comp (position_bijOn spec.bankSizes)).congr fun path hpath => (hflat path hpath).symm

end Standard

/-! ## Issuing a command -/

namespace DRAMDevice

variable {spec : Standard} {channelId : Int} {d : DRAMDevice}

/-- A device after some commands. -/
def Issued (spec : Standard) (channelId : Int) : DRAMDevice → Prop :=
  Reachable (init spec channelId) fun d (x : Command × AddrVec × Int) d' =>
    d' = d.issueCommand spec x.1 x.2.1 x.2.2

/-- The tree stays as it was built. -/
theorem Issued.built (h : Issued spec channelId d) :
    d.root.Built spec.toDRAMSpec (spec.rowLevel - 1) 0 channelId := by
  refine h.invariant (fun d => d.root.Built spec.toDRAMSpec (spec.rowLevel - 1) 0 channelId)
    (DRAMNode.built_build _ _ _ _) ?_
  rintro d ⟨c, addr, clk⟩ _ hd rfl
  exact hd.updateTiming c addr clk

theorem Issued.channelId_eq (h : Issued spec channelId d) : d.channelId = channelId := by
  refine h.invariant (fun d => d.channelId = channelId) ?_ ?_
  · unfold init DRAMDevice.channelId DRAMNode.root
    cases spec.rowLevel - 1 <;> rfl
  · rintro d ⟨c, addr, clk⟩ _ hd rfl
    exact (channelId_issueCommand spec d c addr clk).trans hd

/-- The array of banks holds the nodes of the bank level, each once and under its path. -/
theorem Issued.banks_eq (h : Issued spec channelId d) (hlevels : spec.bankLevel < spec.rowLevel) :
    (d.root.forEachAtLevel spec.bankLevel).map Prod.fst = spec.bankNodes := by
  have hlist := DRAMNode.map_fst_forEachAtLevel spec.bankLevel h.built (by omega)
  simp only [Nat.zero_add] at hlist
  exact hlist

theorem Issued.isSome_follow (h : Issued spec channelId d) (hlevels : spec.bankLevel < spec.rowLevel)
    {i : Nat} (hi : i < spec.bankCount) : (d.root.follow (spec.bankNodes.getD i [])).isSome := by
  have hmem : spec.bankNodes.getD i [] ∈ spec.bankNodes := by
    rw [List.getD_eq_getElem _ _ hi]
    exact List.getElem_mem hi
  have hlist : spec.bankNodes.getD i [] ∈ (d.root.forEachAtLevel spec.bankLevel).map Prod.fst := by
    rw [h.banks_eq hlevels]
    exact hmem
  obtain ⟨x, hx, heq⟩ := List.mem_map.mp hlist
  rw [← heq, DRAMNode.follow_of_mem_forEachAtLevel hx]
  rfl

/-- The array holds the node that a concrete address leads to at the flat id of the address. -/
theorem Issued.getElem?_banks (h : Issued spec channelId d) (hlevels : spec.bankLevel < spec.rowLevel)
    {addr : AddrVec} (haddr : spec.Concrete addr) :
    ∃ node, d.root.follow (spec.bankPath addr) = some node ∧
      (d.root.forEachAtLevel spec.bankLevel)[(spec.flatBankId addr).toNat]? =
        some (spec.bankPath addr, node) := by
  have hget := haddr.getElem?_bankNodes
  rw [← h.banks_eq hlevels, List.getElem?_map] at hget
  obtain ⟨⟨path, node⟩, hx, heq⟩ := Option.map_eq_some_iff.mp hget
  obtain rfl : path = spec.bankPath addr := heq
  exact ⟨node, DRAMNode.follow_of_mem_forEachAtLevel (List.mem_of_getElem? hx), hx⟩

/-- The branch in which the timing walk of a command meets a bank. -/
def bankVisit (spec : Standard) (d : DRAMDevice) (c : Command) (addr : AddrVec) (i : Nat) :
    Option DRAMNode.Visit :=
  d.root.visit spec.toDRAMSpec c addr (spec.bankNodes.getD i [])

/-- The timing walk takes the target branch at the banks that the state walk visits. -/
theorem Issued.bankVisit_eq_target_iff (h : Issued spec channelId d)
    (hlevels : 0 < spec.bankLevel ∧ spec.bankLevel < spec.rowLevel) {c : Command} {addr : AddrVec}
    (hform : spec.Addresses c.bankTarget addr)
    (hchannel : addr.coord 0 = -1 ∨ addr.coord 0 = channelId) {i : Nat} (hi : i < spec.bankCount) :
    d.bankVisit spec c addr i = some .target ↔ (i : Int) ∈ d.targetBanks spec c addr := by
  unfold DRAMDevice.targetBanks
  rw [h.channelId_eq, Standard.mem_targetBanks_iff hlevels.1 hform hchannel hi]
  exact DRAMNode.visit_eq_target_iff h.built c addr (h.isSome_follow hlevels.2 hi)

/-- What an issued command does to a bank: its timing fields change as the walk meets it, and the action
applies where that is in the target branch. -/
theorem Issued.bank_issueCommand (h : Issued spec channelId d)
    (hlevels : 0 < spec.bankLevel ∧ spec.bankLevel < spec.rowLevel) {c : Command} {addr : AddrVec}
    (clk : Int) (hform : spec.Addresses c.bankTarget addr)
    (hchannel : addr.coord 0 = -1 ∨ addr.coord 0 = channelId) {i : Nat} (hi : i < spec.bankCount) :
    (d.issueCommand spec c addr clk).root.timingAt (spec.bankNodes.getD i []) =
        (d.root.timingAt (spec.bankNodes.getD i [])).map
          (DRAMNode.Visit.apply spec.toDRAMSpec spec.bankLevel c clk (d.bankVisit spec c addr i)) ∧
      (d.issueCommand spec c addr clk).banks i =
        if d.bankVisit spec c addr i = some .target then
          c.action (addr.coord spec.rowLevel) (d.banks i)
        else d.banks i := by
  constructor
  · have htiming := DRAMNode.timingAt_of_visit h.built c addr clk (spec.bankNodes.getD i [])
    rw [Standard.length_bankNode hi, Nat.zero_add] at htiming
    exact htiming
  · have htarget := h.bankVisit_eq_target_iff hlevels hform hchannel hi
    unfold issueCommand
    by_cases hvisit : d.bankVisit spec c addr i = some .target
    · rw [if_pos hvisit]
      exact if_pos (htarget.mp hvisit)
    · rw [if_neg hvisit]
      exact if_neg fun hmem => hvisit (htarget.mpr hmem)

end DRAMDevice

end Ramulator.Dram
