/-
# Ramulator.Lib.Ticks — logs of insertions that a clock divides into ticks.

A log records, newest first, what was inserted and when the clock moved on. What a sliding window of
`k` ticks ought to hold can be read off it (`duringLast`), and so can what was inserted in one tick
alone (`atAge`) and the newest element among chosen ticks (`newestAt`), which is what a slot holds
that is written again every few ticks.
-/
import Mathlib.Data.List.Basic
import Mathlib.Data.List.Chain
import Mathlib.Data.List.Count

namespace Ramulator.Lib

variable {α : Type}

inductive TickOp (α : Type) where
  | insert (a : α)
  | update
  deriving DecidableEq, Repr

namespace TickOp

/-- How often the clock moved on. -/
def updates : List (TickOp α) → Nat
  | [] => 0
  | insert _ :: log => updates log
  | update :: log => updates log + 1

/-- What was inserted during the last `k` ticks, the current one included. -/
def duringLast : Nat → List (TickOp α) → List α
  | 0, _ => []
  | _ + 1, [] => []
  | k + 1, insert a :: log => a :: duringLast (k + 1) log
  | k + 1, update :: log => duringLast k log

/-- What was inserted exactly `k` ticks ago. -/
def atAge : Nat → List (TickOp α) → List α
  | _, [] => []
  | 0, insert a :: log => a :: atAge 0 log
  | 0, update :: _ => []
  | k + 1, insert _ :: log => atAge (k + 1) log
  | k + 1, update :: log => atAge k log

/-- The newest element inserted in a tick whose age satisfies `p`. -/
def newestAt : (Nat → Bool) → List (TickOp α) → Option α
  | _, [] => none
  | p, insert a :: log => if p 0 then some a else newestAt p log
  | p, update :: log => newestAt (fun k => p (k + 1)) log

/-- At most one element is inserted between two ticks of the clock. -/
def OnePerTick (log : List (TickOp α)) : Prop := log.IsChain fun a b => a = update ∨ b = update

instance [DecidableEq α] (log : List (TickOp α)) : Decidable (OnePerTick log) :=
  inferInstanceAs (Decidable (log.IsChain _))

@[simp] theorem duringLast_nil (k : Nat) : duringLast k ([] : List (TickOp α)) = [] := by
  cases k with
  | zero => rfl
  | succ k => rfl

@[simp] theorem duringLast_zero (log : List (TickOp α)) : duringLast 0 log = [] := by
  cases log with
  | nil => rfl
  | cons op log => rfl

@[simp] theorem duringLast_insert (k : Nat) (a : α) (log : List (TickOp α)) :
    duringLast (k + 1) (insert a :: log) = a :: duringLast (k + 1) log := rfl

@[simp] theorem duringLast_update (k : Nat) (log : List (TickOp α)) :
    duringLast (k + 1) (update :: log) = duringLast k log := rfl

@[simp] theorem atAge_insert (k : Nat) (a : α) (log : List (TickOp α)) :
    atAge (k + 1) (insert a :: log) = atAge (k + 1) log := rfl

@[simp] theorem atAge_update (k : Nat) (log : List (TickOp α)) :
    atAge (k + 1) (update :: log) = atAge k log := rfl

theorem newestAt_insert_pos {p : Nat → Bool} (h : p 0 = true) (a : α) (log : List (TickOp α)) :
    newestAt p (insert a :: log) = some a := by
  rw [newestAt, if_pos h]

theorem newestAt_insert_neg {p : Nat → Bool} (h : p 0 = false) (a : α) (log : List (TickOp α)) :
    newestAt p (insert a :: log) = newestAt p log := by
  rw [newestAt, h]
  rfl

/-- One tick more: the last of them comes at the end. -/
theorem duringLast_succ (k : Nat) (log : List (TickOp α)) :
    duringLast (k + 1) log = duringLast k log ++ atAge k log := by
  induction log generalizing k with
  | nil => simp [atAge]
  | cons op log ih =>
      cases op with
      | insert a =>
          cases k with
          | zero => simpa [atAge] using ih 0
          | succ k => simpa using ih (k + 1)
      | update =>
          cases k with
          | zero => simp [atAge]
          | succ k => simpa using ih k

theorem OnePerTick.tail {op : TickOp α} {log : List (TickOp α)} (h : OnePerTick (op :: log)) :
    OnePerTick log := List.IsChain.tail h

/-- Before an insertion nothing was inserted in its tick. -/
theorem OnePerTick.atAge_zero {a : α} {log : List (TickOp α)} (h : OnePerTick (insert a :: log)) :
    atAge 0 log = [] := by
  cases log with
  | nil => rfl
  | cons op log =>
      cases op with
      | insert b =>
          have hne := (List.isChain_cons_cons.1 h).1
          simp at hne
      | update => rfl

theorem OnePerTick.atAge_length {log : List (TickOp α)} (h : OnePerTick log) (k : Nat) :
    (atAge k log).length ≤ 1 := by
  induction log generalizing k with
  | nil => simp [atAge]
  | cons op log ih =>
      cases op with
      | insert a =>
          cases k with
          | zero =>
              rw [atAge, h.atAge_zero]
              exact Nat.le_refl 1
          | succ k => exact ih h.tail (k + 1)
      | update =>
          cases k with
          | zero => exact Nat.zero_le 1
          | succ k => exact ih h.tail k

/-- A tick in which an element was inserted, and that comes before every other chosen one. -/
theorem newestAt_of_atAge {p : Nat → Bool} {k : Nat} {a : α} {log : List (TickOp α)}
    (h : OnePerTick log) (hp : p k = true) (hlt : ∀ j < k, p j = false) (ha : a ∈ atAge k log) :
    newestAt p log = some a := by
  induction log generalizing p k with
  | nil => simp [atAge] at ha
  | cons op log ih =>
      cases op with
      | insert b =>
          cases k with
          | zero =>
              rw [atAge, h.atAge_zero, List.mem_singleton] at ha
              rw [newestAt_insert_pos hp, ha]
          | succ k =>
              rw [newestAt_insert_neg (hlt 0 (Nat.succ_pos k))]
              exact ih h.tail hp hlt ha
      | update =>
          cases k with
          | zero => simp [atAge] at ha
          | succ k => exact ih h.tail hp (fun j hj => hlt (j + 1) (Nat.succ_lt_succ hj)) ha

/-- More ticks hold what fewer hold. -/
theorem duringLast_prefix {j k : Nat} (h : j ≤ k) (log : List (TickOp α)) :
    duringLast j log <+: duringLast k log := by
  induction k, h using Nat.le_induction with
  | base => exact List.prefix_refl _
  | succ k hk ih =>
      rw [duringLast_succ]
      exact ih.trans (List.prefix_append _ _)

/-! ## Epochs of `L` ticks -/

/-- The last tick of an epoch starts the next one. -/
theorem epoch_ends {n L : Nat} (hL : 0 < L) (h : L ≤ n % L + 1) :
    (n + 1) % L = 0 ∧ (n + 1) / L = n / L + 1 := by
  have hlt := Nat.mod_lt n hL
  have hdiv := Nat.div_add_mod n L
  have hnext : n + 1 = L * (n / L + 1) := by
    rw [Nat.mul_succ]
    omega
  rw [hnext]
  refine ⟨Nat.mul_mod_right _ _, ?_⟩
  rw [Nat.mul_div_cancel_left _ hL]

/-- Any other tick stays in its epoch. -/
theorem epoch_goes_on {n L : Nat} (hL : 0 < L) (h : ¬ L ≤ n % L + 1) :
    (n + 1) % L = n % L + 1 ∧ (n + 1) / L = n / L := by
  have hdiv := Nat.div_add_mod n L
  have hnext : n + 1 = L * (n / L) + (n % L + 1) := by omega
  have hlt : n % L + 1 < L := by omega
  constructor
  · rw [hnext, Nat.mul_add_mod, Nat.mod_eq_of_lt hlt]
  · rw [hnext, Nat.mul_add_div hL, Nat.div_eq_of_lt hlt, Nat.add_zero]

end TickOp

end Ramulator.Lib
