/-
# Ramulator.Lib.Fallible — a computation that may fail, over a whole list.

`mapM` succeeds exactly when every item does, and its results stand against the items one by one; a loop
that only checks succeeds exactly when every check does.
-/
import Ramulator.Lib.Run
import Mathlib.Data.List.Forall2

namespace Ramulator.Lib

variable {ε α β : Type} {f : α → Except ε β} {xs : List α} {ys : List β}

theorem mapM_ok : xs.mapM f = .ok ys ↔ List.Forall₂ (fun x y => f x = .ok y) xs ys := by
  induction xs generalizing ys with
  | nil =>
      constructor
      · intro h
        cases h
        exact .nil
      · intro h
        cases h
        rfl
  | cons x xs ih =>
      rw [List.mapM_cons, except_bind_eq_ok]
      constructor
      · rintro ⟨y, hy, h⟩
        obtain ⟨ys', hys', h⟩ := except_bind_eq_ok.mp h
        cases h
        exact .cons hy (ih.mp hys')
      · intro h
        cases h with
        | cons hy hys => exact ⟨_, hy, except_bind_eq_ok.mpr ⟨_, ih.mpr hys, rfl⟩⟩

theorem mapM_forall₂ {P : α → β → Prop} (h : ∀ x ∈ xs, ∃ y, f x = .ok y ∧ P x y) :
    ∃ ys, xs.mapM f = .ok ys ∧ List.Forall₂ P xs ys := by
  induction xs with
  | nil => exact ⟨[], rfl, .nil⟩
  | cons x xs ih =>
      obtain ⟨y, hy, hP⟩ := h x (List.mem_cons_self ..)
      obtain ⟨ys, hys, hPs⟩ := ih fun z hz => h z (List.mem_cons_of_mem _ hz)
      exact ⟨y :: ys, mapM_ok.mpr (.cons hy (mapM_ok.mp hys)), .cons hP hPs⟩

theorem mapM_exists (h : ∀ x ∈ xs, ∃ y, f x = .ok y) : ∃ ys, xs.mapM f = .ok ys := by
  obtain ⟨ys, hys, -⟩ := mapM_forall₂ (P := fun _ _ => True) fun x hx =>
    (h x hx).imp fun y hy => ⟨hy, trivial⟩
  exact ⟨ys, hys⟩

theorem exists_of_mem_right {R : α → β → Prop} (h : List.Forall₂ R xs ys) {y : β} (hy : y ∈ ys) :
    ∃ x ∈ xs, R x y := by
  induction h with
  | nil => cases hy
  | @cons x z xs ys hxz _ ih =>
      rcases List.mem_cons.mp hy with rfl | hy
      · exact ⟨x, List.mem_cons_self .., hxz⟩
      · obtain ⟨x', hx', hR⟩ := ih hy
        exact ⟨x', List.mem_cons_of_mem _ hx', hR⟩

theorem exists_of_mem_left {R : α → β → Prop} (h : List.Forall₂ R xs ys) {x : α} (hx : x ∈ xs) :
    ∃ y ∈ ys, R x y :=
  exists_of_mem_right h.flip hx

/-- The results of `mapM` are the results of the items. -/
theorem mem_of_mapM (h : xs.mapM f = .ok ys) {y : β} : y ∈ ys ↔ ∃ x ∈ xs, f x = .ok y := by
  constructor
  · exact fun hy => exists_of_mem_right (mapM_ok.mp h) hy
  · rintro ⟨x, hx, hxy⟩
    obtain ⟨z, hz, hxz⟩ := exists_of_mem_left (mapM_ok.mp h) hx
    rw [hxy] at hxz
    cases hxz
    exact hz

/-- A computation in two parts raises what one of them raises. -/
theorem except_bind_eq_error {x : Except ε α} {f : α → Except ε β} {e : ε} :
    x >>= f = .error e ↔ x = .error e ∨ ∃ a, x = .ok a ∧ f a = .error e := by
  cases x with
  | error e' => simp [bind, Except.bind]
  | ok a => simp [bind, Except.bind]

/-- Renaming what a computation raises changes nothing of its success. -/
theorem except_mapError_eq_ok {ε' : Type} {x : Except ε α} {g : ε → ε'} {a : α} :
    x.mapError g = .ok a ↔ x = .ok a := by
  cases x with
  | error e => simp [Except.mapError]
  | ok a => simp [Except.mapError]

theorem except_mapError_eq_error {ε' : Type} {x : Except ε α} {g : ε → ε'} {e' : ε'} :
    x.mapError g = .error e' ↔ ∃ e, x = .error e ∧ g e = e' := by
  cases x with
  | error e => simp [Except.mapError]
  | ok a => simp [Except.mapError]

/-! ### How a computation ends -/

/-- A computation ends in a result that satisfies `post`, or with an error in `fail`. -/
def Ends (x : Except ε α) (post : α → Prop) (fail : ε → Prop) : Prop :=
  match x with
  | .ok a => post a
  | .error e => fail e

theorem Ends.bind {x : Except ε α} {f : α → Except ε β} {post : α → Prop} {post' : β → Prop} {fail : ε → Prop}
    (hx : Ends x post fail) (hf : ∀ a, post a → Ends (f a) post' fail) : Ends (x >>= f) post' fail := by
  cases x with
  | error e => exact hx
  | ok a => exact hf a hx

theorem Ends.mono {x : Except ε α} {post post' : α → Prop} {fail : ε → Prop} (hx : Ends x post fail)
    (hpost : ∀ a, post a → post' a) : Ends x post' fail := by
  cases x with
  | error e => exact hx
  | ok a => exact hpost a hx

theorem Ends.of_ok {x : Except ε α} {a : α} {post : α → Prop} {fail : ε → Prop} (hx : Ends x post fail)
    (h : x = .ok a) : post a := by
  subst h
  exact hx

theorem Ends.of_error {x : Except ε α} {e : ε} {post : α → Prop} {fail : ε → Prop} (hx : Ends x post fail)
    (h : x = .error e) : fail e := by
  subst h
  exact hx

theorem ends_of_error {x : Except ε α} {fail : ε → Prop} (h : ∀ e, x = .error e → fail e) :
    Ends x (fun _ => True) fail := by
  cases x with
  | error e => exact h e rfl
  | ok a => trivial

theorem Ends.and {x : Except ε α} {post : α → Prop} {fail : ε → Prop} (hx : Ends x post fail) :
    Ends x (fun a => post a ∧ x = .ok a) fail := by
  cases x with
  | error e => exact hx
  | ok a => exact ⟨hx, rfl⟩

theorem ends_forM {f : α → Except ε Unit} {fail : ε → Prop} (h : ∀ x ∈ xs, Ends (f x) (fun _ => True) fail) :
    Ends (forM xs f) (fun _ => True) fail := by
  induction xs with
  | nil => trivial
  | cons x xs ih =>
      rw [List.forM_cons]
      exact (h x List.mem_cons_self).bind fun _ _ => ih fun y hy => h y (List.mem_cons_of_mem _ hy)

/-- A check, which raises an error where the condition holds. -/
def throwIf (c : Prop) [Decidable c] (e : ε) : Except ε Unit := if c then .error e else .ok ()

@[simp] theorem throwIf_eq_ok {c : Prop} [Decidable c] {e : ε} {u : Unit} : throwIf c e = .ok u ↔ ¬c := by
  unfold throwIf
  by_cases h : c
  · rw [if_pos h]
    refine iff_of_false ?_ (not_not.mpr h)
    intro herror
    cases herror
  · rw [if_neg h]
    exact iff_of_true rfl h

/-- What comes after a check that passes. -/
theorem throwIf_bind {c : Prop} [Decidable c] {e : ε} (h : ¬c) (f : Unit → Except ε β) :
    (throwIf c e >>= f) = f () := by
  rw [throwIf_eq_ok.mpr h]
  rfl

/-- A loop of checks passes when every check does. -/
theorem forM_ok {f : α → Except ε Unit} : forM xs f = .ok () ↔ ∀ x ∈ xs, f x = .ok () := by
  induction xs with
  | nil => exact ⟨fun _ _ hx => absurd hx List.not_mem_nil, fun _ => rfl⟩
  | cons x xs ih =>
      rw [List.forM_cons, except_bind_eq_ok, List.forall_mem_cons]
      constructor
      · rintro ⟨_, hx, hxs⟩
        exact ⟨hx, ih.mp hxs⟩
      · rintro ⟨hx, hxs⟩
        exact ⟨⟨⟩, hx, ih.mpr hxs⟩

end Ramulator.Lib
