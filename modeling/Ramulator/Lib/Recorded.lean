/-
# Ramulator.Lib.Recorded — programs that only add to what they have recorded.

A program over a state that outlives its failures: it may end with an error, and what it had recorded by then
stands. `Keeps` says of a run from one state that it only adds to the state, that it keeps an invariant,
whether it fails or not, and what holds at its end. Facts about records hold on as the state grows, so that a
proof goes through a program in its order and carries along what it has learnt.

`remember` is the step that every such program is made of: it runs an action once and gives its first result
again after that.
-/
import Ramulator.Lib.Fallible
import Mathlib.Order.Defs.PartialOrder

namespace Ramulator.Lib

/-! ## Tables -/

/-- A table in which a key, once it has a value, keeps it. -/
def Table (κ ν : Type) := κ → Option ν

namespace Table

variable {κ ν : Type}

instance : Preorder (Table κ ν) where
  le t t' := ∀ k v, t k = some v → t' k = some v
  le_refl _ _ _ h := h
  le_trans _ _ _ h h' k v hk := h' k v (h k v hk)

def empty : Table κ ν := fun _ => none

/-- The table with a value for `k`. -/
def record [DecidableEq κ] (t : Table κ ν) (k : κ) (v : ν) : Table κ ν := fun x => if x = k then some v else t x

variable [DecidableEq κ] {t : Table κ ν} {k x : κ} {v : ν}

theorem record_self : t.record k v k = some v := if_pos rfl

theorem record_of_ne (h : x ≠ k) : t.record k v x = t x := if_neg h

theorem le_record (h : t k = none) (v : ν) : t ≤ t.record k v := by
  intro x u hx
  rw [record_of_ne]
  · exact hx
  · rintro rfl
    rw [h] at hx
    cases hx

/-- What a table holds after a value was recorded. -/
theorem of_record {u : ν} (h : t.record k v x = some u) : (x = k ∧ u = v) ∨ t x = some u := by
  by_cases hx : x = k
  · subst hx
    rw [record_self] at h
    exact .inl ⟨rfl, (Option.some.inj h).symm⟩
  · rw [record_of_ne hx] at h
    exact .inr h

end Table

/-! ## Programs -/

/-- A program whose state outlives its failures. -/
abbrev Recorder (σ ε α : Type) := ExceptT ε (StateM σ) α

section

variable {σ ε α β : Type}

/-- A result that does not depend on the state. -/
def resultOf (x : Except ε α) : Recorder σ ε α := ExceptT.mk (pure x)

/-- The state as it is. -/
def recorded : Recorder σ ε σ := ExceptT.mk fun s => (.ok s, s)

def modifyRecord (f : σ → σ) : Recorder σ ε Unit := ExceptT.mk fun s => (.ok (), f s)

variable [Preorder σ]

/-- The run of `m` from `s` only adds to the state, keeps `Inv`, and ends in `post` or with an error in `fail`. -/
def Keeps (Inv : σ → Prop) (fail : ε → Prop) (m : Recorder σ ε α) (s : σ) (post : α → σ → Prop) : Prop :=
  s ≤ (m.run s).2 ∧ Inv (m.run s).2 ∧ Ends (m.run s).1 (fun a => post a (m.run s).2) fail

variable {Inv : σ → Prop} {fail : ε → Prop} {s : σ} {post post' : α → σ → Prop} {m : Recorder σ ε α}

theorem keeps_pure {a : α} (hs : Inv s) (ha : post a s) : Keeps Inv fail (pure a : Recorder σ ε α) s post :=
  ⟨le_refl s, hs, ha⟩

theorem keeps_resultOf {x : Except ε α} (hs : Inv s) (hx : Ends x (fun a => post a s) fail) :
    Keeps Inv fail (resultOf x) s post :=
  ⟨le_refl s, hs, hx⟩

theorem keeps_recorded {post : σ → σ → Prop} (hs : Inv s) (ha : post s s) :
    Keeps Inv fail (recorded : Recorder σ ε σ) s post :=
  ⟨le_refl s, hs, ha⟩

theorem keeps_modifyRecord {f : σ → σ} {post : Unit → σ → Prop} (hle : s ≤ f s) (hf : Inv (f s)) (ha : post () (f s)) :
    Keeps Inv fail (modifyRecord f : Recorder σ ε Unit) s post :=
  ⟨hle, hf, ha⟩

omit [Preorder σ] in
theorem run_bind_of_ok {f : α → Recorder σ ε β} {a : α} {s' : σ} (h : m.run s = (.ok a, s')) :
    (m >>= f).run s = (f a).run s' := by
  show ExceptT.bindCont f (m.run s).1 (m.run s).2 = _
  rw [h]
  rfl

omit [Preorder σ] in
theorem run_bind_of_error {f : α → Recorder σ ε β} {e : ε} {s' : σ} (h : m.run s = (.error e, s')) :
    (m >>= f).run s = (.error e, s') := by
  show ExceptT.bindCont f (m.run s).1 (m.run s).2 = _
  rw [h]
  rfl

/-- One program after another: the second runs in a state that has all that the first left. -/
theorem Keeps.bind {f : α → Recorder σ ε β} {post' : β → σ → Prop} (hm : Keeps Inv fail m s post)
    (hf : ∀ a s', s ≤ s' → Inv s' → post a s' → Keeps Inv fail (f a) s' post') : Keeps Inv fail (m >>= f) s post' := by
  obtain ⟨hle, hs, hends⟩ := hm
  rcases hx : m.run s with ⟨x, s'⟩
  rw [hx] at hle hs hends
  unfold Keeps
  cases x with
  | error e =>
      rw [run_bind_of_error hx]
      exact ⟨hle, hs, hends⟩
  | ok a =>
      rw [run_bind_of_ok hx]
      obtain ⟨hle', hs', hends'⟩ := hf a s' hle hs hends
      exact ⟨le_trans hle hle', hs', hends'⟩

theorem Keeps.mono (hm : Keeps Inv fail m s post) (h : ∀ a s', s ≤ s' → Inv s' → post a s' → post' a s') :
    Keeps Inv fail m s post' := by
  obtain ⟨hle, hs, hends⟩ := hm
  exact ⟨hle, hs, hends.mono fun a ha => h a _ hle hs ha⟩

/-! ## Steps that are remembered -/

variable {ι : Type} [DecidableEq ι]

/-- The result of an earlier run of the step, if its input was the same; else the action's, which is recorded. -/
def remember (conflict : ε) (look : σ → Option (ι × α)) (put : ι × α → σ → σ) (input : ι) (action : Except ε α) :
    Recorder σ ε α := do
  let s ← recorded
  match look s with
  | some (input', a) => if input' = input then pure a else resultOf (.error conflict)
  | none => do
      let a ← resultOf action
      modifyRecord (put (input, a))
      pure a

theorem keeps_remember {conflict : ε} {look : σ → Option (ι × α)} {put : ι × α → σ → σ} {input : ι}
    {action : Except ε α} (hs : Inv s) (hconflict : fail conflict) (haction : Ends action (fun _ => True) fail)
    (hold : ∀ a, look s = some (input, a) → post a s)
    (hnew : ∀ a, look s = none → s ≤ put (input, a) s ∧ Inv (put (input, a) s) ∧ post a (put (input, a) s)) :
    Keeps Inv fail (remember conflict look put input action) s post := by
  unfold remember
  have hread : Keeps Inv fail (recorded : Recorder σ ε σ) s fun r s' => s = r ∧ s = s' := keeps_recorded hs ⟨rfl, rfl⟩
  refine hread.bind ?_
  rintro _ _ - - ⟨rfl, rfl⟩
  cases hlook : look s with
  | some e =>
      obtain ⟨input', a⟩ := e
      simp only
      split
      · next heq =>
        subst heq
        exact keeps_pure hs (hold a hlook)
      · exact keeps_resultOf hs hconflict
  | none =>
      simp only
      have hrun : Keeps Inv fail (resultOf action) s fun _ s' => s = s' :=
        keeps_resultOf hs (haction.mono fun _ _ => rfl)
      refine hrun.bind ?_
      rintro a _ - - rfl
      obtain ⟨hle, hput, hpost⟩ := hnew a hlook
      have hwrite : Keeps Inv fail (modifyRecord (put (input, a)) : Recorder σ ε Unit) s fun _ s' =>
          put (input, a) s = s' := keeps_modifyRecord hle hput rfl
      refine hwrite.bind ?_
      rintro _ _ - - rfl
      exact keeps_pure hput hpost

end

end Ramulator.Lib
