/-
# Ramulator.Lib.Window — bounded histories and running maxima.

Two small facts carry every "keep only the last few" data structure: a fixed-length deque that is
pushed at the front and popped at the back holds exactly the most recent entries of the whole
history (padded with a filler while the history is short), and a family of running maxima is below
a bound exactly when its start value and every value it absorbed are.

Nothing here names a memory controller; both are stated over arbitrary types.
-/
import Mathlib.Data.List.Induction
import Mathlib.Order.Lattice
import Mathlib.Logic.Function.Basic

namespace Ramulator.Lib

variable {α : Type*}

/-! ## Bounded deques -/

/-- The deque of length `W` that remembers the most-recent-first history `h`,
filled up with `d` while `h` is shorter than `W`. -/
def window (W : Nat) (d : α) (h : List α) : List α :=
  (h ++ List.replicate W d).take W

/-- One `pop_back` followed by `push_front`. -/
def pushFront (x : α) (l : List α) : List α := x :: l.dropLast

theorem window_length (W : Nat) (d : α) (h : List α) : (window W d h).length = W := by
  simp [window]

theorem window_nil (W : Nat) (d : α) : window W d [] = List.replicate W d := by
  simp [window]

/-- Pushing onto a window is the window of the extended history. -/
theorem pushFront_window {W : Nat} (hW : 0 < W) (d x : α) (h : List α) :
    pushFront x (window W d h) = window W d (x :: h) := by
  obtain ⟨n, rfl⟩ := Nat.exists_eq_succ_of_ne_zero hW.ne'
  have htake : (window (n + 1) d h).dropLast = (h ++ List.replicate (n + 1) d).take n := by
    rw [List.dropLast_eq_take, window_length, window, List.take_take]
    congr 1
    omega
  simp only [pushFront, htake]
  simp [window, List.take_succ_cons]

/-- Slot `i` of a window is entry `i` of the history, or the filler. -/
theorem window_getD {W i : Nat} (hi : i < W) (d : α) (h : List α) :
    (window W d h).getD i d = h.getD i d := by
  rw [window, List.getD_eq_getElem?_getD, List.getD_eq_getElem?_getD, List.getElem?_take_of_lt hi]
  by_cases hlt : i < h.length
  · rw [List.getElem?_append_left hlt]
  · rw [List.getElem?_append_right (by omega), List.getElem?_replicate_of_lt (by omega),
      List.getElem?_eq_none (by omega)]
    rfl

/-! ## Histories, most recent first -/

/-- The values `f e` of those entries of a chronological log that satisfy `P`, most recent first. -/
def recent {β : Type*} (P : α → Bool) (f : α → β) (log : List α) : List β :=
  ((log.filter P).map f).reverse

@[simp] theorem recent_nil {β : Type*} (P : α → Bool) (f : α → β) : recent P f [] = [] := rfl

theorem recent_concat {β : Type*} (P : α → Bool) (f : α → β) (log : List α) (e : α) :
    recent P f (log ++ [e]) = if P e then f e :: recent P f log else recent P f log := by
  cases h : P e <;> simp [recent, h]

theorem mem_recent {β : Type*} {P : α → Bool} {f : α → β} {log : List α} {x : β} :
    x ∈ recent P f log ↔ ∃ e ∈ log, P e ∧ f e = x := by
  simp [recent, and_assoc]

/-- Every entry of `log` stands in relation `R` to the entries before it. -/
def EachStep (R : List α → α → Prop) (log : List α) : Prop :=
  ∀ before e after, log = before ++ e :: after → R before e

theorem eachStep_nil (R : List α → α → Prop) : EachStep R [] := by
  intro before e after h
  simp at h

theorem eachStep_concat {R : List α → α → Prop} {log : List α} {a : α} :
    EachStep R (log ++ [a]) ↔ EachStep R log ∧ R log a := by
  constructor
  · intro h
    refine ⟨?_, h log a [] rfl⟩
    intro before e after hlog
    exact h before e (after ++ [a]) (by simp [hlog])
  · rintro ⟨hlog, ha⟩ before e after h
    rcases List.eq_nil_or_concat after with rfl | ⟨after', b, rfl⟩
    · obtain ⟨rfl, hb⟩ := List.append_inj' h rfl
      obtain rfl : a = e := by simpa using hb
      exact ha
    · have h' : log ++ [a] = (before ++ e :: after') ++ [b] := by simpa using h
      exact hlog before e after' (List.append_inj' h' rfl).1

/-- In a log whose values never decrease, a downward-closed bound on the `i`-th most recent value at
every matching entry is the bound on the `i`-th most recent value of the whole log. -/
theorem eachStep_recent_iff {β : Type*} [Preorder β] {P : α → Bool} {f : α → β} {log : List α}
    (hmono : (log.map f).Pairwise (· ≤ ·)) (i : Nat) {Q : β → Prop}
    (hdown : ∀ x y, x ≤ y → Q y → Q x) :
    EachStep (fun before e => P e → ∀ x, (recent P f (before ++ [e]))[i]? = some x → Q x) log ↔
      ∀ x, (recent P f log)[i]? = some x → Q x := by
  induction log using List.reverseRecOn with
  | nil => simp [eachStep_nil]
  | append_singleton log e ih =>
      rw [List.map_append, List.pairwise_append] at hmono
      obtain ⟨hlog, -, hlast⟩ := hmono
      rw [eachStep_concat, ih hlog]
      cases hP : P e with
      | false => simp [recent_concat, hP]
      | true =>
          rw [recent_concat, if_pos hP]
          refine ⟨fun h => h.2 rfl, fun h => ⟨?_, fun _ => h⟩⟩
          -- the older value at `i` is dominated by whatever now sits at `i`
          intro x hx
          have hmem : x ∈ recent P f log := List.mem_of_getElem? hx
          cases i with
          | zero =>
              obtain ⟨d, hd, -, rfl⟩ := mem_recent.mp hmem
              exact hdown _ _ (hlast _ (List.mem_map_of_mem hd) (f e) (by simp)) (h (f e) rfl)
          | succ j =>
              have hlen : j + 1 < (recent P f log).length := (List.getElem?_eq_some_iff.mp hx).1
              have hsorted : (recent P f log).Pairwise (fun x y => y ≤ x) := by
                rw [recent, List.pairwise_reverse]
                exact (hlog.sublist ((List.filter_sublist).map f))
              obtain ⟨y, hy⟩ : ∃ y, (recent P f log)[j]? = some y :=
                ⟨_, List.getElem?_eq_getElem (by omega)⟩
              have hle : x ≤ y := by
                have := List.pairwise_iff_getElem.mp hsorted j (j + 1) (by omega) hlen (by omega)
                rw [(List.getElem?_eq_some_iff.mp hx).2, (List.getElem?_eq_some_iff.mp hy).2] at this
                exact this
              exact hdown _ _ hle (h y (by simpa using hy))

theorem eachStep_congr {R S : List α → α → Prop} {log : List α}
    (h : ∀ before e after, log = before ++ e :: after → (R before e ↔ S before e)) :
    EachStep R log ↔ EachStep S log := by
  constructor
  · intro hR before e after hlog
    exact (h before e after hlog).mp (hR before e after hlog)
  · intro hS before e after hlog
    exact (h before e after hlog).mpr (hS before e after hlog)

/-- A relation that ignores the past holds at each step when it holds of each entry. -/
theorem eachStep_const {R : α → Prop} {log : List α} :
    EachStep (fun _ e => R e) log ↔ ∀ e ∈ log, R e := by
  constructor
  · intro h e he
    obtain ⟨before, after, hlog⟩ := List.append_of_mem he
    exact h before e after hlog
  · intro h before e after hlog
    exact h e (by simp [hlog])

/-! ## Running maxima -/

theorem foldl_max_le_iff {β : Type*} [LinearOrder β] (xs : List β) (m t : β) :
    xs.foldl max m ≤ t ↔ m ≤ t ∧ ∀ x ∈ xs, x ≤ t := by
  induction xs generalizing m with
  | nil => simp
  | cons x xs ih => simp [ih, and_assoc]

section Bump

variable {κ β : Type*} [DecidableEq κ] [LinearOrder β]

/-- Raise the maximum kept for `k` to at least `v`. -/
def bump (m : κ → β) (k : κ) (v : β) : κ → β := Function.update m k (max (m k) v)

theorem bump_le_iff (m : κ → β) (k c : κ) (v t : β) :
    bump m k v c ≤ t ↔ m c ≤ t ∧ (k = c → v ≤ t) := by
  by_cases h : c = k
  · subst h
    simp [bump]
  · simp [bump, Function.update_of_ne h, Ne.symm h]

/-- Absorb the values `f x` for those `x` of a list that have one. -/
def bumpAll {ι : Type*} (key : ι → κ) (f : ι → Option β) (m : κ → β) (xs : List ι) : κ → β :=
  xs.foldl (fun m x => match f x with
    | none => m
    | some v => bump m (key x) v) m

/-- A running maximum is below `t` exactly when its start and all absorbed values are. -/
theorem bumpAll_le_iff {ι : Type*} (key : ι → κ) (f : ι → Option β) (m : κ → β) (xs : List ι)
    (c : κ) (t : β) :
    bumpAll key f m xs c ≤ t ↔
      m c ≤ t ∧ ∀ x ∈ xs, key x = c → ∀ v, f x = some v → v ≤ t := by
  induction xs generalizing m with
  | nil => simp [bumpAll]
  | cons x xs ih =>
      have hcons : bumpAll key f m (x :: xs) =
          bumpAll key f (match f x with
            | none => m
            | some v => bump m (key x) v) xs := rfl
      rw [hcons, ih]
      cases hx : f x with
      | none => simp [hx]
      | some v =>
          simp only [bump_le_iff, List.forall_mem_cons, hx, Option.some.injEq, forall_eq']
          tauto

/-- Values that are never absorbed leave the maxima as they are. -/
theorem bumpAll_of_forall_none {ι : Type*} (key : ι → κ) (f : ι → Option β) (m : κ → β)
    (xs : List ι) (h : ∀ x ∈ xs, f x = none) : bumpAll key f m xs = m := by
  induction xs generalizing m with
  | nil => rfl
  | cons x xs ih =>
      have hx : f x = none := h x (by simp)
      have hcons : bumpAll key f m (x :: xs) = bumpAll key f m xs := by
        simp [bumpAll, hx]
      rw [hcons]
      exact ih m fun y hy => h y (List.mem_cons_of_mem x hy)

end Bump

end Ramulator.Lib
