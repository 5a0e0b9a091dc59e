/-
# Ramulator.Lib.Run — runs of a labelled step relation and invariants over them.

A component is a start state and a relation `next s i s'`: input `i` may take state `s` to `s'`. The
rules here carry a property from single steps to every reachable state, let it lean on properties
already established, and restrict or widen the runs considered.
-/
import Mathlib.Tactic.Common

namespace Ramulator.Lib

variable {σ ι ε : Type}

/-- The states that some sequence of inputs reaches. -/
inductive Reachable (init : σ) (next : σ → ι → σ → Prop) : σ → Prop where
  | start : Reachable init next init
  | step {s s' : σ} (i : ι) (hs : Reachable init next s) (h : next s i s') : Reachable init next s'

namespace Reachable

variable {init s s' : σ} {next next' : σ → ι → σ → Prop}

/-- What holds at the start and is preserved by every step holds of every reachable state. -/
theorem invariant (Inv : σ → Prop) (hinit : Inv init) (hstep : ∀ s i s', Inv s → next s i s' → Inv s')
    (h : Reachable init next s) : Inv s := by
  induction h with
  | start => exact hinit
  | step i _ hnext ih => exact hstep _ i _ ih hnext

/-- Fewer steps reach fewer states. -/
theorem mono (hsub : ∀ s i s', next s i s' → next' s i s') (h : Reachable init next s) :
    Reachable init next' s := by
  induction h with
  | start => exact .start
  | step i _ hnext ih => exact .step i ih (hsub _ i _ hnext)

end Reachable

/-! ## Computations that may fail -/

theorem except_bind_eq_ok {α β : Type} {x : Except ε α} {f : α → Except ε β} {y : β} :
    x >>= f = .ok y ↔ ∃ a, x = .ok a ∧ f a = .ok y := by
  cases x with
  | error e => simp [bind, Except.bind]
  | ok a => simp [bind, Except.bind]

theorem except_map_eq_ok {α β : Type} {x : Except ε α} {f : α → β} {y : β} :
    x.map f = .ok y ↔ ∃ a, x = .ok a ∧ f a = y := by
  cases x with
  | error e => simp [Except.map]
  | ok a => simp [Except.map]

theorem foldlM_preserves {α : Type} {P : σ → Prop} {f : σ → α → Except ε σ} {l : List α}
    {s s' : σ} (hf : ∀ s a s', a ∈ l → P s → f s a = .ok s' → P s') (hs : P s)
    (h : l.foldlM f s = .ok s') : P s' := by
  induction l generalizing s with
  | nil =>
      cases h
      exact hs
  | cons a l ih =>
      rw [List.foldlM_cons, except_bind_eq_ok] at h
      obtain ⟨t, ht, h⟩ := h
      exact ih (fun s a s' ha => hf s a s' (List.mem_cons_of_mem _ ha))
        (hf s a t List.mem_cons_self hs ht) h

theorem foldlM_congr {α : Type} {f g : σ → α → Except ε σ} {l : List α} {s : σ} (h : ∀ t, ∀ a ∈ l, f t a = g t a) :
    l.foldlM f s = l.foldlM g s := by
  induction l generalizing s with
  | nil => rfl
  | cons a l ih =>
      rw [List.foldlM_cons, List.foldlM_cons, h s a List.mem_cons_self]
      exact congrArg (g s a >>= ·) (funext fun t => ih fun t b hb => h t b (List.mem_cons_of_mem _ hb))

/-- What the step of an item brings about, and other steps keep, holds of every item in the end. -/
theorem foldlM_each {α : Type} {P : α → σ → Prop} {f : σ → α → Except ε σ} {l : List α} {s s' : σ}
    (hstep : ∀ s a s', a ∈ l → f s a = .ok s' → P a s') (hkeep : ∀ b s a s', P b s → f s a = .ok s' → P b s')
    (h : l.foldlM f s = .ok s') : ∀ a ∈ l, P a s' := by
  induction l generalizing s with
  | nil => exact fun a ha => absurd ha List.not_mem_nil
  | cons a l ih =>
      rw [List.foldlM_cons, except_bind_eq_ok] at h
      obtain ⟨t, ht, h⟩ := h
      intro b hb
      rcases List.mem_cons.mp hb with rfl | hb
      · exact foldlM_preserves (fun s a s' _ => hkeep b s a s') (hstep s b t List.mem_cons_self ht) h
      · exact ih (fun s a s' ha => hstep s a s' (List.mem_cons_of_mem _ ha)) h b hb

/-- Feed a list of inputs to a step function that may fail. -/
def runAll (step : ι → σ → Except ε σ) : List ι → σ → Except ε σ
  | [], s => .ok s
  | i :: is, s =>
      match step i s with
      | .ok s' => runAll step is s'
      | .error e => .error e

/-- A run is a run of its first part and then of the rest. -/
theorem runAll_append {step : ι → σ → Except ε σ} (is js : List ι) (s : σ) :
    runAll step (is ++ js) s = (runAll step is s).bind (runAll step js) := by
  induction is generalizing s with
  | nil => rfl
  | cons i is ih =>
      rw [List.cons_append]
      unfold runAll
      cases step i s with
      | error e => rfl
      | ok t => exact ih t

/-- A run that does not fail ends in a reachable state. -/
theorem reachable_of_runAll {step : ι → σ → Except ε σ} {init s s' : σ} {is : List ι}
    (hs : Reachable init (fun s i s' => step i s = .ok s') s) (h : runAll step is s = .ok s') :
    Reachable init (fun s i s' => step i s = .ok s') s' := by
  induction is generalizing s with
  | nil =>
      cases h
      exact hs
  | cons i is ih =>
      unfold runAll at h
      cases ht : step i s with
      | error e => simp [ht] at h
      | ok t =>
          simp only [ht] at h
          exact ih (.step i hs ht) h

/-- What every allowed step preserves, a run of allowed steps preserves. -/
theorem runAll_invariant {step : ι → σ → Except ε σ} (Inv : σ → Prop) (allowed : ι → Prop)
    (hstep : ∀ s i s', Inv s → allowed i → step i s = .ok s' → Inv s') {s s' : σ} {is : List ι} (hs : Inv s)
    (hallowed : ∀ i ∈ is, allowed i) (h : runAll step is s = .ok s') : Inv s' := by
  induction is generalizing s with
  | nil =>
      cases h
      exact hs
  | cons i is ih =>
      unfold runAll at h
      cases ht : step i s with
      | error e => simp [ht] at h
      | ok t =>
          simp only [ht] at h
          exact ih (hstep s i t hs (hallowed i List.mem_cons_self) ht)
            (fun j hj => hallowed j (List.mem_cons_of_mem _ hj)) h

/-- A step function that also fails where a check does. -/
def guarded (check : σ → ι → Bool) (e : ε) (step : ι → σ → Except ε σ) (i : ι) (s : σ) :
    Except ε σ :=
  if check s i then step i s else .error e

/-- A run that does not fail, checks included, ends in a reachable state. -/
theorem reachable_runAll {step : ι → σ → Except ε σ} {check : σ → ι → Bool} {e : ε}
    {allowed : σ → ι → Prop} (hcheck : ∀ s i, check s i = true → allowed s i)
    {init s s' : σ} {is : List ι}
    (hs : Reachable init (fun s i s' => allowed s i ∧ step i s = .ok s') s)
    (h : runAll (guarded check e step) is s = .ok s') :
    Reachable init (fun s i s' => allowed s i ∧ step i s = .ok s') s' := by
  induction is generalizing s with
  | nil =>
      cases h
      exact hs
  | cons i is ih =>
      unfold runAll guarded at h
      cases hi : check s i with
      | false => simp [hi] at h
      | true =>
          cases ht : step i s with
          | error e' => simp [hi, ht] at h
          | ok t =>
              simp only [hi, ht, if_true] at h
              exact ih (.step i hs ⟨hcheck s i hi, ht⟩) h

end Ramulator.Lib
