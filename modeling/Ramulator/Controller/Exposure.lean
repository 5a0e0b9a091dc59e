/-
# Ramulator.Controller.Exposure — how often rows are activated between two refreshes of their victims.

The plugins' tables are compared with what really happened to the rows. `Exposure` keeps, for every row of
every bank, how often it was activated since its victims' refresh was last requested, the most there ever
was of that, and how often the bank was activated at all. All of it starts again when the plugin forgets
everything.
-/
import Ramulator.Controller.VictimRefresh
import Ramulator.Lib.HeavyHitters

namespace Ramulator.Controller

open Ramulator.Dram Ramulator.Lib

/-- A call on a plugin. -/
inductive PluginCall where
  | preSchedule
  | onIssue (c : Command) (addr : AddrVec) (visiting : Visit)

structure Exposure where
  since : Int → Int → Nat := fun _ _ => 0
  most : Int → Int → Nat := fun _ _ => 0
  acts : Int → Nat := fun _ => 0

namespace Exposure

/-- A row is activated; on that, its victims' refresh may be requested. -/
def activate (bank row : Int) (requested : Bool) (x : Exposure) : Exposure where
  since := Function.update x.since bank
    (if requested then Function.update (x.since bank) row 0 else see row (x.since bank))
  most := Function.update x.most bank
    (Function.update (x.most bank) row (max (x.most bank row) (x.since bank row + 1)))
  acts := Function.update x.acts bank (x.acts bank + 1)

variable {bank row : Int} {requested : Bool} {x : Exposure}

@[simp] theorem activate_since : (x.activate bank row requested).since bank =
    if requested then Function.update (x.since bank) row 0 else see row (x.since bank) :=
  Function.update_self ..

@[simp] theorem activate_acts : (x.activate bank row requested).acts bank = x.acts bank + 1 :=
  Function.update_self ..

@[simp] theorem activate_most : (x.activate bank row requested).most bank =
    Function.update (x.most bank) row (max (x.most bank row) (x.since bank row + 1)) :=
  Function.update_self ..

theorem activate_since_row : (x.activate bank row requested).since bank row =
    if requested then 0 else x.since bank row + 1 := by
  rw [activate_since]
  split
  · rw [Function.update_self]
  · rw [see_self]

theorem activate_since_of_row_ne {b r : Int} (h : (b, r) ≠ (bank, row)) :
    (x.activate bank row requested).since b r = x.since b r := by
  by_cases hb : b = bank
  · have hr : r ≠ row := fun hr => h (by rw [hb, hr])
    rw [hb, activate_since]
    split
    · rw [Function.update_of_ne hr]
    · rw [see_of_ne hr]
  · exact congrFun (Function.update_of_ne hb ..) r

theorem activate_most_row :
    (x.activate bank row requested).most bank row = max (x.most bank row) (x.since bank row + 1) := by
  rw [activate_most, Function.update_self]

theorem activate_most_of_row_ne {b r : Int} (h : (b, r) ≠ (bank, row)) :
    (x.activate bank row requested).most b r = x.most b r := update_update_of_ne x.most h _

variable {b : Int}

theorem activate_since_of_ne (h : b ≠ bank) : (x.activate bank row requested).since b = x.since b :=
  Function.update_of_ne h ..

theorem activate_acts_of_ne (h : b ≠ bank) : (x.activate bank row requested).acts b = x.acts b :=
  Function.update_of_ne h ..

theorem activate_most_of_ne (h : b ≠ bank) : (x.activate bank row requested).most b = x.most b :=
  Function.update_of_ne h ..

/-- No activation exceeds a bound that held before and that the activated row keeps to. -/
theorem activate_most_le {limit : Int} (h : ∀ r, (x.most bank r : Int) ≤ limit)
    (hrow : (x.since bank row : Int) + 1 ≤ limit) (r : Int) :
    ((x.activate bank row requested).most bank r : Int) ≤ limit := by
  rw [activate_most]
  by_cases hr : r = row
  · have hbefore := h row
    rw [hr, Function.update_self]
    omega
  · rw [Function.update_of_ne hr]
    exact h r

end Exposure

end Ramulator.Controller
