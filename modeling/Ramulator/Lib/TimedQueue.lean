/-
# Ramulator.Lib.TimedQueue — items that leave a queue when their time has come.

A queue of items with a departure time, ordered by departure and then by a number. Serving it at a
clock pops its first entry while that one is due; what is done with an entry may put new ones into the
queue. The loop is bounded by the number of due entries at its start, and `drain_spec` says that this
is enough if nothing new is due at once.
-/
import Mathlib.Data.List.Sort

namespace Ramulator.Lib

variable {α σ : Type}

/-- An item, the time at which it departs and its number. -/
structure Timed (α : Type) where
  depart : Int
  sequence : Nat
  item : α
  deriving DecidableEq, Repr

namespace Timed

/-- The order in which entries leave. -/
def Le (p q : Timed α) : Prop :=
  p.depart < q.depart ∨ p.depart = q.depart ∧ p.sequence ≤ q.sequence

instance : DecidableRel (Le (α := α)) := fun p q =>
  inferInstanceAs (Decidable (p.depart < q.depart ∨ p.depart = q.depart ∧ p.sequence ≤ q.sequence))

theorem le_total (p q : Timed α) : p.Le q ∨ q.Le p := by
  unfold Le
  omega

theorem le_trans {p q r : Timed α} (hpq : p.Le q) (hqr : q.Le r) : p.Le r := by
  unfold Le at *
  omega

instance : Std.Total (Le (α := α)) := ⟨le_total⟩
instance : IsTrans (Timed α) Le := ⟨fun _ _ _ => le_trans⟩

theorem Le.depart_le {p q : Timed α} (h : p.Le q) : p.depart ≤ q.depart := by
  unfold Le at h
  omega

end Timed

/-- A queue, its first entry first. -/
structure TimedQueue (α : Type) where
  entries : List (Timed α)
  sorted : entries.Pairwise Timed.Le

namespace TimedQueue

def empty : TimedQueue α := ⟨[], .nil⟩

def push (p : Timed α) (q : TimedQueue α) : TimedQueue α where
  entries := q.entries.orderedInsert Timed.Le p
  sorted := q.sorted.orderedInsert p q.entries

def pop (q : TimedQueue α) : TimedQueue α := ⟨q.entries.tail, q.sorted.tail⟩

/-- The number of entries that are due. -/
def due (clk : Int) (q : TimedQueue α) : Nat := q.entries.countP (·.depart ≤ clk)

theorem push_perm (p : Timed α) (q : TimedQueue α) : (q.push p).entries.Perm (p :: q.entries) :=
  List.perm_orderedInsert Timed.Le p q.entries

@[simp] theorem mem_push {p x : Timed α} {q : TimedQueue α} :
    x ∈ (q.push p).entries ↔ x = p ∨ x ∈ q.entries := by
  rw [(push_perm p q).mem_iff, List.mem_cons]

/-- The first entry departs first. -/
theorem head_le {q : TimedQueue α} {p : Timed α} {rest : List (Timed α)} (hq : q.entries = p :: rest)
    {x : Timed α} (hx : x ∈ q.entries) : p.depart ≤ x.depart := by
  have hsorted := q.sorted
  rw [hq] at hsorted hx
  rcases List.mem_cons.mp hx with rfl | hx
  · exact le_rfl
  · exact ((List.pairwise_cons.mp hsorted).1 x hx).depart_le

theorem due_eq_zero_iff {clk : Int} {q : TimedQueue α} :
    q.due clk = 0 ↔ ∀ p ∈ q.entries, clk < p.depart := by
  unfold due
  rw [List.countP_eq_zero]
  simp

/-- A new entry in the future is not due. -/
theorem due_push {clk : Int} {p : Timed α} (hp : clk < p.depart) (q : TimedQueue α) :
    (q.push p).due clk = q.due clk := by
  unfold due
  rw [(push_perm p q).countP_eq]
  simp [not_le.mpr hp]

theorem due_pop {clk : Int} {q : TimedQueue α} {p : Timed α} {rest : List (Timed α)}
    (hq : q.entries = p :: rest) (hp : p.depart ≤ clk) : q.pop.due clk + 1 = q.due clk := by
  show q.entries.tail.countP _ + 1 = q.entries.countP _
  rw [hq]
  simp [hp]

/-! ### The time before the first departure -/

/-- The number of ticks of a clock at which nothing is due; `never` if the queue is empty. -/
def idle (never clk : Int) (q : TimedQueue α) : Int :=
  match q.entries with
  | [] => never
  | p :: _ => if p.depart > clk + 1 then p.depart - clk - 1 else 0

/-- Nothing is due in the idle time. -/
theorem due_of_le_idle {never clk k : Int} {q : TimedQueue α} (hk : 0 < k) (h : k ≤ q.idle never clk) :
    q.due (clk + k) = 0 := by
  rw [due_eq_zero_iff]
  intro x hx
  unfold idle at h
  cases hq : q.entries with
  | nil => simp [hq] at hx
  | cons p rest =>
      have hle := head_le hq hx
      simp only [hq] at h
      split_ifs at h <;> omega

/-- Time passes. -/
theorem idle_advance {never clk k : Int} {q : TimedQueue α} (hk : 0 ≤ k)
    (h : k ≤ q.idle never clk) : q.idle never clk - k ≤ q.idle never (clk + k) := by
  unfold idle at *
  cases hq : q.entries with
  | nil =>
      simp only
      omega
  | cons p rest =>
      simp only [hq] at h ⊢
      split_ifs at h ⊢ <;> omega

/-- The first entry is due right after it. -/
theorem head_due_after_idle {never clk : Int} {q : TimedQueue α} {p : Timed α}
    {rest : List (Timed α)} (hq : q.entries = p :: rest) :
    p.depart ≤ clk + (q.idle never clk + 1) := by
  unfold idle
  simp only [hq]
  split_ifs <;> omega

end TimedQueue

/-! ## Serving a queue -/

/-- Pop and serve while the first entry is due, at most `fuel` times. `serve` gets the number of the
entry within this loop, and may fail. -/
def drain (queue : σ → TimedQueue α) (serve : Nat → Timed α → σ → Option σ) (clk : Int) :
    Nat → Nat → σ → Option σ
  | 0, _, s => some s
  | fuel + 1, i, s =>
      match (queue s).entries with
      | [] => some s
      | p :: _ =>
          if p.depart ≤ clk then (serve i p s).bind (drain queue serve clk fuel (i + 1)) else some s

variable {queue : σ → TimedQueue α} {serve : Nat → Timed α → σ → Option σ} {clk : Int}

/-- Nothing is served before its time. -/
theorem drain_of_not_due {s : σ} (h : (queue s).due clk = 0) (fuel i : Nat) :
    drain queue serve clk fuel i s = some s := by
  cases fuel with
  | zero => rfl
  | succ fuel =>
      unfold drain
      rw [TimedQueue.due_eq_zero_iff] at h
      cases hq : (queue s).entries with
      | nil => rfl
      | cons p rest =>
          have hp : clk < p.depart := h p (by rw [hq]; exact List.mem_cons_self)
          simp only
          rw [if_neg (not_le.mpr hp)]

/-- The loop returns if every service does. -/
theorem drain_isSome (hserve : ∀ i p s, ∃ s', serve i p s = some s') (fuel i : Nat) (s : σ) :
    ∃ s', drain queue serve clk fuel i s = some s' := by
  induction fuel generalizing i s with
  | zero => exact ⟨s, rfl⟩
  | succ fuel ih =>
      unfold drain
      cases (queue s).entries with
      | nil => exact ⟨s, rfl⟩
      | cons p rest =>
          dsimp only
          split_ifs
          · obtain ⟨t, ht⟩ := hserve i p s
            rw [ht]
            exact ih (i + 1) t
          · exact ⟨s, rfl⟩

/-- If the first entry is due, it is served, and what its service establishes stays. -/
theorem drain_head {P : σ → Prop} {fuel i : Nat} {s s' : σ} {p : Timed α} {rest : List (Timed α)}
    (hq : (queue s).entries = p :: rest) (hp : p.depart ≤ clk) (hfuel : 0 < fuel)
    (hhead : ∀ t, serve i p s = some t → P t)
    (hkeeps : ∀ j r t t', P t → serve j r t = some t' → P t')
    (h : drain queue serve clk fuel i s = some s') : P s' := by
  have hrest : ∀ fuel i t, P t → drain queue serve clk fuel i t = some s' → P s' := by
    intro fuel
    induction fuel with
    | zero =>
        intro i t ht h
        cases h
        exact ht
    | succ fuel ih =>
        intro i t ht h
        unfold drain at h
        cases hr : (queue t).entries with
        | nil =>
            rw [hr] at h
            cases h
            exact ht
        | cons r _ =>
            rw [hr] at h
            dsimp only at h
            split_ifs at h
            · obtain ⟨u, hu, h⟩ := Option.bind_eq_some_iff.mp h
              exact ih (i + 1) u (hkeeps i r t u ht hu) h
            · cases h
              exact ht
  obtain ⟨fuel, rfl⟩ := Nat.exists_eq_succ_of_ne_zero hfuel.ne'
  unfold drain at h
  rw [hq] at h
  dsimp only at h
  rw [if_pos hp] at h
  obtain ⟨t, ht, h⟩ := Option.bind_eq_some_iff.mp h
  exact hrest fuel (i + 1) t (hhead t ht) h

/-- What one service preserves, the loop preserves; and if a service leaves one entry less that is due,
the loop leaves none. -/
theorem drain_spec {P : σ → Prop}
    (hserve : ∀ i p rest s s', P s → (queue s).entries = p :: rest → p.depart ≤ clk →
      serve i p s = some s' → P s' ∧ (queue s').due clk + 1 = (queue s).due clk)
    {fuel i : Nat} {s s' : σ} (hs : P s) (hfuel : (queue s).due clk ≤ fuel)
    (h : drain queue serve clk fuel i s = some s') :
    P s' ∧ ∀ p ∈ (queue s').entries, clk < p.depart := by
  induction fuel generalizing i s with
  | zero =>
      cases h
      exact ⟨hs, TimedQueue.due_eq_zero_iff.mp (Nat.le_zero.mp hfuel)⟩
  | succ fuel ih =>
      unfold drain at h
      cases hq : (queue s).entries with
      | nil =>
          simp only [hq, Option.some.injEq] at h
          subst h
          exact ⟨hs, fun p hp => by simp [hq] at hp⟩
      | cons p rest =>
          simp only [hq] at h
          split_ifs at h with hp
          · obtain ⟨t, ht, h⟩ := Option.bind_eq_some_iff.mp h
            obtain ⟨hinv, hdue⟩ := hserve i p rest s t hs hq hp ht
            exact ih hinv (by omega) h
          · cases h
            exact ⟨hs, fun x hx => (not_le.mp hp).trans_le (TimedQueue.head_le hq hx)⟩

end Ramulator.Lib
