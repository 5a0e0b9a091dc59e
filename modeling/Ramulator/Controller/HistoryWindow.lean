/-
# Ramulator.Controller.HistoryWindow — when BlockHammer's history is a sliding window.

`HistoryBuffer` counts an element down when the clock reaches the slot it was written to. The slot is
not cleared then, so what an earlier lap left in it is counted down again on the next lap. Here the
buffer's counters are compared, over any sequence of calls, with the insertions of the last `size`
ticks.
-/
import Ramulator.Controller.BlockHammer
import Ramulator.Lib.Ticks
import Mathlib.Data.Nat.ModEq

namespace Ramulator.Controller.HistoryBuffer

open Ramulator.Lib
open Ramulator.Lib.TickOp (updates duringLast atAge newestAt OnePerTick)

variable {size maxFreq : Nat} {log : List (TickOp Int)}

/-- One call on the buffer. -/
def call : TickOp Int → HistoryBuffer → HistoryBuffer
  | .insert elem, h => h.insert elem
  | .update, h => h.update

/-- A new buffer after a sequence of calls, the last of them first. -/
def run (size maxFreq : Nat) : List (TickOp Int) → HistoryBuffer
  | [] => create size maxFreq
  | op :: log => call op (run size maxFreq log)

/-- A number of insertions as the map keeps it: an element with none is absent. -/
def held (n : Nat) : Option Nat := if n = 0 then none else some n

/-- The counters are the insertions of the last `size` ticks. -/
def Counts (size maxFreq : Nat) (log : List (TickOp Int)) : Prop :=
  ∀ elem, (run size maxFreq log).elemCounter elem = held ((duringLast size log).count elem)

/-- The buffer is a sliding window: its counters are the insertions of the last `size` ticks, and a
search finds what was inserted often enough. -/
def IsWindow (size maxFreq : Nat) (log : List (TickOp Int)) : Prop :=
  Counts size maxFreq log ∧
    ∀ elem, (run size maxFreq log).search elem = true ↔
      max 1 maxFreq ≤ (duringLast size log).count elem

/-- What stands in the slot that the next tick gives up: the newest insertion that was made in it, or
the filler of a slot never written. -/
def leaving (size : Nat) (log : List (TickOp Int)) : Int :=
  (newestAt (fun k => k % size = size - 1) log).getD (-1)

/-- Before an update: the slot given up was written in the tick that leaves the window, or what an
earlier lap left in it is not in the window. -/
def Fresh (size : Nat) (log : List (TickOp Int)) : Prop :=
  atAge (size - 1) log ≠ [] ∨ leaving size log ∉ duringLast size log

instance : Decidable (Fresh size log) := inferInstanceAs (Decidable (_ ∨ _))

/-! ## The ring -/

@[simp] theorem run_size : (run size maxFreq log).size = size := by
  induction log with
  | nil => rfl
  | cons op log ih =>
      cases op with
      | insert elem => exact ih
      | update =>
          simp only [run, call, update]
          split
          · exact ih
          · exact ih

@[simp] theorem run_maxFreq : (run size maxFreq log).maxFreq = maxFreq := by
  induction log with
  | nil => rfl
  | cons op log ih =>
      cases op with
      | insert elem => exact ih
      | update =>
          simp only [run, call, update]
          split
          · exact ih
          · exact ih

@[simp] theorem update_tick (h : HistoryBuffer) : h.update.tick = h.tick + 1 := by
  unfold update
  dsimp only
  split
  · rfl
  · rfl

@[simp] theorem update_history (h : HistoryBuffer) : h.update.history = h.history := by
  unfold update
  dsimp only
  split
  · rfl
  · rfl

@[simp] theorem run_tick : (run size maxFreq log).tick = updates log := by
  induction log with
  | nil => rfl
  | cons op log ih =>
      cases op with
      | insert elem => exact ih
      | update => rw [run, call, update_tick, ih, updates]

@[simp] theorem run_history_length : (run size maxFreq log).history.length = size := by
  induction log with
  | nil => simp [run, create]
  | cons op log ih =>
      cases op with
      | insert elem => simpa [run, call, insert] using ih
      | update => rw [run, call, update_history, ih]

/-- The slot of a tick holds the newest insertion made in it. -/
theorem history_slot {i a : Nat} (hi : i < size) (ha : a < size) (hia : (i + a) % size = updates log % size) :
    (run size maxFreq log).history.getD i (-1) = (newestAt (fun k => k % size = a) log).getD (-1) := by
  have hsize : 0 < size := Nat.zero_lt_of_lt hi
  induction log generalizing a with
  | nil => simp [run, create, newestAt, hi]
  | cons op log ih =>
      cases op with
      | insert elem =>
          have htick : (run size maxFreq log).tick = updates log := run_tick
          have hslot : updates log % size = i ↔ a = 0 := by
            rw [updates] at hia
            constructor
            · intro heq
              rw [← hia] at heq
              have hmod : i + a ≡ i + 0 [MOD size] := heq.trans (Nat.mod_eq_of_lt hi).symm
              have hzero : a ≡ 0 [MOD size] := Nat.ModEq.add_left_cancel' i hmod
              rw [← Nat.mod_eq_of_lt ha]
              exact hzero
            · intro hzero
              rw [← hia, hzero, Nat.add_zero, Nat.mod_eq_of_lt hi]
          simp only [run, call, insert, htick, run_size]
          rw [List.getD_eq_getElem?_getD]
          by_cases hzero : a = 0
          · rw [hslot.2 hzero, List.getElem?_set_self (by rw [run_history_length]; exact hi),
              TickOp.newestAt_insert_pos (by simp [hzero])]
          · have hage : ¬ 0 = a := fun heq => hzero heq.symm
            rw [List.getElem?_set_ne (fun heq => hzero (hslot.1 heq)), ← List.getD_eq_getElem?_getD,
              TickOp.newestAt_insert_neg (by simp [hage])]
            exact ih ha hia
      | update =>
          -- the age of the same tick, before the clock moved on
          obtain ⟨b, hb, hba⟩ : ∃ b < size, (b + 1) % size = a := by
            cases a with
            | zero => exact ⟨size - 1, by omega, by rw [Nat.sub_add_cancel hsize, Nat.mod_self]⟩
            | succ a => exact ⟨a, by omega, Nat.mod_eq_of_lt ha⟩
          have hib : i + b ≡ updates log [MOD size] := by
            apply Nat.ModEq.add_right_cancel' 1
            rw [updates] at hia
            have hab : b + 1 ≡ a [MOD size] := hba.trans (Nat.mod_eq_of_lt ha).symm
            exact (Nat.ModEq.add_left i hab).trans hia
          have hage : ∀ k, (k + 1) % size = a ↔ k % size = b := by
            intro k
            rw [← hba]
            constructor
            · intro heq
              have hmod : k ≡ b [MOD size] := Nat.ModEq.add_right_cancel' 1 heq
              rw [hmod, Nat.mod_eq_of_lt hb]
            · intro heq
              have hmod : k ≡ b [MOD size] := heq.trans (Nat.mod_eq_of_lt hb).symm
              exact Nat.ModEq.add_right 1 hmod
          rw [run, call, update_history, ih hb hib, newestAt]
          congr 2
          funext k
          simp only [hage k]

/-- What an update counts down. -/
theorem evicted_eq (hsize : 0 < size) :
    (run size maxFreq log).history.getD ((updates log + 1) % size) (-1) = leaving size log := by
  apply history_slot (Nat.mod_lt _ hsize) (by omega)
  rw [Nat.mod_add_mod, Nat.add_assoc, Nat.add_sub_cancel' hsize, Nat.add_mod_right]

/-! ## Counters -/

@[simp] theorem held_zero : held 0 = none := rfl

@[simp] theorem held_succ (n : Nat) : held (n + 1) = some (n + 1) := rfl

theorem held_eq_none {n : Nat} : held n = none ↔ n = 0 := by
  cases n with
  | zero => simp
  | succ n => simp

/-- What a search finds, given the counters. -/
theorem isWindow_of_counts (h : Counts size maxFreq log) : IsWindow size maxFreq log := by
  refine ⟨h, ?_⟩
  intro elem
  rw [search, h elem, run_maxFreq]
  cases (duringLast size log).count elem with
  | zero => simp
  | succ n => simp

/-- The counters after an update: what the slot given up holds is counted down. -/
theorem update_elemCounter (hsize : 0 < size) (h : Counts size maxFreq log) (elem : Int) :
    (run size maxFreq (.update :: log)).elemCounter elem =
      held ((duringLast size log).count elem - if elem = leaving size log then 1 else 0) := by
  have hleaving := h (leaving size log)
  simp only [run, call, update, run_tick, run_size, evicted_eq hsize]
  split
  · rename_i hnone
    rw [hnone] at hleaving
    have hzero := held_eq_none.1 hleaving.symm
    rw [h elem]
    by_cases heq : elem = leaving size log
    · rw [heq, hzero, if_pos rfl]
    · rw [if_neg heq, Nat.sub_zero]
  · rename_i n hsome
    rw [hsome] at hleaving
    dsimp only
    by_cases heq : elem = leaving size log
    · rw [if_pos heq, heq, Function.update_self]
      cases hcount : (duringLast size log).count (leaving size log) with
      | zero => simp [hcount] at hleaving
      | succ m =>
          rw [hcount, held_succ, Option.some_inj] at hleaving
          subst hleaving
          cases m with
          | zero => rfl
          | succ m => simp
    · rw [if_neg heq, Function.update_of_ne heq, Nat.sub_zero]
      exact h elem

/-- An insertion keeps the counters right. -/
theorem counts_insert (hsize : 0 < size) (h : Counts size maxFreq log) (elem : Int) :
    Counts size maxFreq (.insert elem :: log) := by
  intro e
  obtain ⟨k, rfl⟩ := Nat.exists_eq_succ_of_ne_zero hsize.ne'
  rw [TickOp.duringLast_insert, run, call, insert]
  dsimp only
  by_cases heq : e = elem
  · subst heq
    rw [Function.update_self, List.count_cons_self, held_succ, h e]
    cases (duringLast (k + 1) log).count e with
    | zero => rfl
    | succ n => rfl
  · rw [Function.update_of_ne heq, List.count_cons_of_ne (fun h => heq h.symm)]
    exact h e

/-- An update keeps the counters right exactly when what it counts down leaves the window, or is not
counted at all. -/
theorem counts_update_iff (hsize : 0 < size) (hone : OnePerTick log) (h : Counts size maxFreq log) :
    Counts size maxFreq (.update :: log) ↔ Fresh size log := by
  have hstep := update_elemCounter hsize h
  obtain ⟨k, rfl⟩ := Nat.exists_eq_succ_of_ne_zero hsize.ne'
  have hwindow := TickOp.duringLast_succ k log
  unfold Counts Fresh
  simp only [hstep, TickOp.duringLast_update, Nat.succ_eq_add_one, Nat.add_sub_cancel]
  cases hage : atAge k log with
  | nil =>
      rw [hage, List.append_nil] at hwindow
      rw [hwindow]
      constructor
      · intro hcounts
        right
        intro hmem
        have hpos := List.count_pos_iff.2 hmem
        have hone := hcounts (leaving (k + 1) log)
        rw [if_pos rfl] at hone
        -- the counter of the stale element would be one too low
        have hlow : held ((duringLast k log).count (leaving (k + 1) log) - 1) ≠
            held ((duringLast k log).count (leaving (k + 1) log)) := by
          generalize (duringLast k log).count (leaving (k + 1) log) = n at hpos
          cases n with
          | zero => exact absurd hpos (Nat.lt_irrefl 0)
          | succ n => cases n <;> simp
        exact hlow hone
      · rintro (hne | hnot)
        · exact absurd rfl hne
        · intro elem
          by_cases heq : elem = leaving (k + 1) log
          · rw [if_pos heq, heq, List.count_eq_zero.2 hnot]
          · rw [if_neg heq, Nat.sub_zero]
  | cons x rest =>
      have hrest : rest = [] := by
        have hlength := hone.atAge_length k
        rw [hage, List.length_cons] at hlength
        exact List.length_eq_zero_iff.1 (by omega)
      subst hrest
      have hleaving : leaving (k + 1) log = x := by
        unfold leaving
        rw [TickOp.newestAt_of_atAge hone (k := k) (a := x)]
        · rfl
        · simp
        · intro j hj
          have hne : j % (k + 1) ≠ k := by
            rw [Nat.mod_eq_of_lt (by omega)]
            omega
          simp [hne]
        · rw [hage]
          exact List.mem_singleton_self x
      refine ⟨fun _ => .inl (List.cons_ne_nil x []), ?_⟩
      intro _ elem
      rw [hwindow, hage, hleaving, List.count_append, List.count_singleton]
      by_cases heq : elem = x
      · simp [heq]
      · have hne : ¬ x = elem := fun h => heq h.symm
        simp [heq, hne]

/-! ## Runs -/

theorem counts_nil : Counts size maxFreq [] := by
  intro elem
  simp [run, create]

/-- After a sequence of calls that meets the condition at every update, the counters are right. -/
theorem counts_of_fresh (hsize : 0 < size) (hone : OnePerTick log)
    (h : ∀ log', .update :: log' <:+ log → Fresh size log') : Counts size maxFreq log := by
  induction log with
  | nil => exact counts_nil
  | cons op log ih =>
      have hcounts := ih hone.tail fun log' hsuffix => h log' (hsuffix.trans (List.suffix_cons op log))
      cases op with
      | insert elem => exact counts_insert hsize hcounts elem
      | update => exact (counts_update_iff hsize hone.tail hcounts).2 (h log (List.suffix_refl _))

/-- The history is a sliding window throughout a sequence of calls exactly when no update of it finds,
in the slot that it gives up, an element of the window that an earlier lap left there. -/
theorem isWindow_iff_fresh (hsize : 0 < size) (hone : OnePerTick log) :
    (∀ log', log' <:+ log → IsWindow size maxFreq log') ↔
      ∀ log', .update :: log' <:+ log → Fresh size log' := by
  have hsuffix : ∀ {log'}, log' <:+ log → OnePerTick log' := fun hs => List.IsChain.suffix hone hs
  constructor
  · intro h log' hs
    have hbefore := (h log' ((List.suffix_cons _ _).trans hs)).1
    exact (counts_update_iff hsize (hsuffix hs).tail hbefore).1 (h _ hs).1
  · intro h log' hs
    apply isWindow_of_counts
    exact counts_of_fresh hsize (hsuffix hs) fun log'' hs' => h log'' (hs'.trans hs)

/-- Two insertions of one row in two consecutive ticks, in a ring of three slots. -/
theorem isWindow_two_inserts : IsWindow 3 1 [.update, .insert 7, .update, .insert 7] := by
  refine (isWindow_iff_fresh (by decide) (by decide)).2 ?_ _ (List.suffix_refl _)
  intro log' hs
  simp [List.suffix_cons_iff] at hs
  rcases hs with rfl | rfl
  · decide
  · decide

/-- In a ring of two slots, the second lap counts the first insertion down again. -/
theorem not_isWindow_second_lap :
    ¬ IsWindow 2 1 [.update, .insert 7, .update, .update, .update, .insert 7] := by
  intro h
  have hfound := (h.2 7).2 (by decide)
  exact absurd hfound (by decide)

end Ramulator.Controller.HistoryBuffer
