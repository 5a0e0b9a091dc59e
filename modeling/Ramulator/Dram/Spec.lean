/-
# Ramulator.Dram.Spec — the runtime specification of a DRAM standard, as far as timing reads it.

`DRAMSpec` in `dram/dram_spec.h` is one record for every standard; the node tree reads only its
organization, its timing constraints and its command lengths. Commands are ids of the standard, so
everything here is generic in the type `C` of commands. Clocks (`Clk_t`) are integers.
-/
import Mathlib.Data.List.Basic
import Mathlib.Order.Lattice

namespace Ramulator.Dram

/-- A device address vector (`AddrVec_t`): one coordinate per level, `-1` for "all". -/
abbrev AddrVec := List Int

/-- The coordinate of `a` at `level`. Reading past the end is undefined in the source; here it is
the wildcard. -/
def AddrVec.coord (a : AddrVec) (level : Nat) : Int := a.getD level (-1)

/-- A timing constraint on `cmd`, filed under its preceding command (`TimingConsEntry`). A negative
`history_group` of the source is `none`; the constructor refuses negative windows. -/
structure TimingConsEntry (C : Type) where
  cmd : C
  val : Int
  window : Nat := 1
  sibling : Bool := false
  historyGroup : Option Nat := none
  deriving DecidableEq, Repr

/-- The part of `DRAMSpec` that the node tree reads. `rowLevel` is `get_level_id("Row")`, and
`commands` lists the ids `0 .. command_count - 1`. -/
structure DRAMSpec (C : Type) where
  commands : List C
  commands_complete : ∀ c, c ∈ commands
  rowLevel : Nat
  levelSizes : List Nat
  timingCons : Nat → C → List (TimingConsEntry C)
  commandCycles : C → Int

namespace DRAMSpec

variable {C : Type}

/-- The number of nodes that each node of `level - 1` has at `level`. -/
def levelSize (spec : DRAMSpec C) (level : Nat) : Nat := spec.levelSizes.getD level 0

/-- `has_sibling_cons[level][cmd]`, as `load_config` precomputes it. -/
def hasSiblingCons (spec : DRAMSpec C) (level : Nat) (cmd : C) : Bool :=
  (spec.timingCons level cmd).any (·.sibling)

/-- The longest window filed under `cmd` at `level`. -/
def maxWindow (spec : DRAMSpec C) (level : Nat) (cmd : C) : Nat :=
  (spec.timingCons level cmd).foldl (fun w t => max w t.window) 0

/-- The longest window among the constraints of shared-history group `g` at `level`, over all
commands. -/
def groupWindow (spec : DRAMSpec C) (level g : Nat) : Nat :=
  spec.commands.foldl (fun w cmd => (spec.timingCons level cmd).foldl
    (fun w t => if t.historyGroup = some g then max w t.window else w) w) 0

/-- Command `cmd` takes part in shared-history group `g` at `level`. -/
def inGroup (spec : DRAMSpec C) (level : Nat) (cmd : C) (g : Nat) : Bool :=
  (spec.timingCons level cmd).any (fun t => t.historyGroup = some g)

/-! ### The windows are long enough -/

theorem le_foldl_max (ts : List (TimingConsEntry C)) (w : Nat) :
    w ≤ ts.foldl (fun w t => max w t.window) w ∧
      ∀ t ∈ ts, t.window ≤ ts.foldl (fun w t => max w t.window) w := by
  induction ts generalizing w with
  | nil => simp
  | cons t ts ih =>
      obtain ⟨hw, hts⟩ := ih (max w t.window)
      simp only [List.foldl_cons, List.forall_mem_cons]
      exact ⟨(le_max_left _ _).trans hw, (le_max_right _ _).trans hw, hts⟩

theorem window_le_maxWindow {spec : DRAMSpec C} {level : Nat} {cmd : C} {t : TimingConsEntry C}
    (ht : t ∈ spec.timingCons level cmd) : t.window ≤ spec.maxWindow level cmd :=
  (le_foldl_max _ 0).2 t ht

/-- The inner loop over one command's constraints only raises the group window. -/
theorem le_foldl_group (g : Nat) (ts : List (TimingConsEntry C)) (w : Nat) :
    w ≤ ts.foldl (fun w t => if t.historyGroup = some g then max w t.window else w) w ∧
      ∀ t ∈ ts, t.historyGroup = some g →
        t.window ≤ ts.foldl (fun w t => if t.historyGroup = some g then max w t.window else w) w := by
  induction ts generalizing w with
  | nil => simp
  | cons t ts ih =>
      simp only [List.foldl_cons, List.forall_mem_cons]
      by_cases hg : t.historyGroup = some g
      · simp only [hg, if_true, forall_true_left]
        obtain ⟨hw, hts⟩ := ih (max w t.window)
        exact ⟨(le_max_left _ _).trans hw, (le_max_right _ _).trans hw, hts⟩
      · simp only [hg, if_false]
        obtain ⟨hw, hts⟩ := ih w
        exact ⟨hw, fun h => absurd h (by simp), hts⟩

theorem window_le_groupWindow {spec : DRAMSpec C} {level g : Nat} {cmd : C}
    {t : TimingConsEntry C} (ht : t ∈ spec.timingCons level cmd) (hg : t.historyGroup = some g) :
    t.window ≤ spec.groupWindow level g := by
  have outer : ∀ (cs : List C) (w : Nat),
      let F := fun w cmd => (spec.timingCons level cmd).foldl
        (fun w t => if t.historyGroup = some g then max w t.window else w) w
      w ≤ cs.foldl F w ∧ (cmd ∈ cs → t.window ≤ cs.foldl F w) := by
    intro cs
    induction cs with
    | nil => simp
    | cons c cs ih =>
        intro w F
        obtain ⟨hw, hmem⟩ := ih (F w c)
        have hstep := le_foldl_group g (spec.timingCons level c) w
        refine ⟨hstep.1.trans hw, fun hc => ?_⟩
        rcases List.mem_cons.mp hc with rfl | hc
        · exact (hstep.2 t ht hg).trans hw
        · exact hmem hc
  exact (outer spec.commands 0).2 (spec.commands_complete cmd)

end DRAMSpec

end Ramulator.Dram
