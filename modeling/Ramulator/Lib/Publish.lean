/-
# Ramulator.Lib.Publish — objects that are written once, by writers that may stop anywhere.

A store has objects under names; what is there stays as it is. Any number of writers each have objects to write,
one after the other. They take turns in any order, and a writer that stops takes no more turns. Besides, the
store may change in ways that its objects do not show.

Where the last object of each writer is its marker, and no other object is one, a marker in the store says that
some writer has written all its objects, and they are there (`complete_of_marker`). Nothing that is there
ever changes (`kept_of_run`).
-/
import Ramulator.Lib.Run
import Mathlib.Data.List.Infix

namespace Ramulator.Lib.Publish

variable {σ K V : Type}

/-- A step writes one object, or leaves the one that is there and is the same. -/
structure Writes (get : σ → K → Option V) (k : K) (v : V) (s s' : σ) : Prop where
  written : get s' k = some v
  kept : ∀ k' v', get s k' = some v' → get s' k' = some v'
  only : ∀ k' v', get s' k' = some v' → get s k' = some v' ∨ k' = k ∧ v' = v

/-- What a writer has written, and what is left. -/
structure Writer (K V : Type) where
  written : List (K × V) := []
  left : List (K × V)
  deriving DecidableEq

structure System (σ K V : Type) where
  store : σ
  writers : List (Writer K V) := []

inductive Event (K V : Type) where
  | begin (objects : List (K × V))
  | turn (i : Nat)
  | unseen

/-- One step of the system; `allowed` says with what objects a writer may begin. -/
inductive Step (get : σ → K → Option V) (allowed : List (K × V) → Prop) : System σ K V → Event K V → System σ K V → Prop
  | begin {s : System σ K V} {objects : List (K × V)} (h : allowed objects) :
      Step get allowed s (.begin objects) { s with writers := s.writers ++ [⟨[], objects⟩] }
  | turn {s : System σ K V} {i : Nat} {written left : List (K × V)} {k : K} {v : V} {store : σ}
      (hi : s.writers[i]? = some ⟨written, (k, v) :: left⟩) (h : Writes get k v s.store store) :
      Step get allowed s (.turn i) ⟨store, s.writers.set i ⟨written ++ [(k, v)], left⟩⟩
  | unseen {s : System σ K V} {store : σ} (h : ∀ k, get store k = get s.store k) :
      Step get allowed s .unseen { s with store := store }

variable {get : σ → K → Option V} {allowed : List (K × V) → Prop} {s s' : System σ K V} {init : σ}

/-! ## Objects stay -/

theorem Step.kept {e : Event K V} (h : Step get allowed s e s') :
    ∀ k v, get s.store k = some v → get s'.store k = some v := by
  cases h with
  | begin _ => exact fun _ _ hv => hv
  | turn _ hwrites => exact hwrites.kept
  | unseen hsame => exact fun k v hv => (hsame k).trans hv

theorem kept_of_run (h : Reachable s (Step get allowed) s') :
    ∀ k v, get s.store k = some v → get s'.store k = some v :=
  h.invariant (fun s' => ∀ k v, get s.store k = some v → get s'.store k = some v) (fun _ _ hv => hv)
    fun _ _ _ ih hstep k v hv => hstep.kept k v (ih k v hv)

/-! ## The store has what the writers have written -/

structure Faithful (get : σ → K → Option V) (allowed : List (K × V) → Prop) (s : System σ K V) : Prop where
  there : ∀ w ∈ s.writers, ∀ o ∈ w.written, get s.store o.1 = some o.2
  nothingElse : ∀ k v, get s.store k = some v → ∃ w ∈ s.writers, (k, v) ∈ w.written
  allowed : ∀ w ∈ s.writers, allowed (w.written ++ w.left)

theorem faithful_init (h : ∀ k, get init k = none) : Faithful get allowed { store := init } where
  there := fun _ hw => absurd hw List.not_mem_nil
  nothingElse := fun k v hv => by
    have hnone := h k
    dsimp only at hv
    rw [hnone] at hv
    cases hv
  allowed := fun _ hw => absurd hw List.not_mem_nil

theorem Faithful.begin (h : Faithful get allowed s) {objects : List (K × V)} (hobjects : allowed objects) :
    Faithful get allowed { s with writers := s.writers ++ [⟨[], objects⟩] } where
  there := by
    intro w hw o ho
    rcases List.mem_append.mp hw with hw | hw
    · exact h.there w hw o ho
    · rw [List.mem_singleton.mp hw] at ho
      cases ho
  nothingElse := fun k v hv => by
    obtain ⟨w, hw, ho⟩ := h.nothingElse k v hv
    exact ⟨w, List.mem_append_left _ hw, ho⟩
  allowed := by
    intro w hw
    rcases List.mem_append.mp hw with hw | hw
    · exact h.allowed w hw
    · rw [List.mem_singleton.mp hw]
      exact hobjects

theorem Faithful.turn (h : Faithful get allowed s) {i : Nat} {written left : List (K × V)} {k : K} {v : V} {store : σ}
    (hi : s.writers[i]? = some ⟨written, (k, v) :: left⟩) (hwrites : Writes get k v s.store store) :
    Faithful get allowed ⟨store, s.writers.set i ⟨written ++ [(k, v)], left⟩⟩ := by
  have hmem : (⟨written, (k, v) :: left⟩ : Writer K V) ∈ s.writers := List.mem_of_getElem? hi
  have hlt : i < s.writers.length := (List.getElem?_eq_some_iff.mp hi).1
  refine ⟨?_, ?_, ?_⟩
  · intro w hw o ho
    rcases List.mem_or_eq_of_mem_set hw with hw | rfl
    · exact hwrites.kept _ _ (h.there w hw o ho)
    · rcases List.mem_append.mp ho with ho | ho
      · exact hwrites.kept _ _ (h.there _ hmem o ho)
      · rw [List.mem_singleton.mp ho]
        exact hwrites.written
  · intro k' v' hv
    rcases hwrites.only k' v' hv with hold | ⟨rfl, rfl⟩
    · obtain ⟨w, hw, ho⟩ := h.nothingElse k' v' hold
      obtain ⟨j, hj⟩ := List.mem_iff_getElem?.mp hw
      -- a writer other than the one whose turn it is stays as it was
      by_cases hij : i = j
      · subst hij
        rw [hi] at hj
        cases hj
        exact ⟨_, List.mem_set hlt _, List.mem_append_left _ ho⟩
      · refine ⟨w, List.mem_of_getElem? (i := j) ?_, ho⟩
        rw [List.getElem?_set_ne hij]
        exact hj
    · exact ⟨_, List.mem_set hlt _, List.mem_append_right _ List.mem_cons_self⟩
  · intro w hw
    rcases List.mem_or_eq_of_mem_set hw with hw | rfl
    · exact h.allowed w hw
    · have hall := h.allowed _ hmem
      rw [List.append_assoc]
      exact hall

theorem faithful_of_run (hinit : ∀ k, get init k = none) (h : Reachable ⟨init, []⟩ (Step get allowed) s) :
    Faithful get allowed s := by
  refine h.invariant (Faithful get allowed) (faithful_init hinit) ?_
  intro s e s' ih hstep
  cases hstep with
  | begin hobjects => exact ih.begin hobjects
  | turn hi hwrites => exact ih.turn hi hwrites
  | unseen hsame =>
      refine ⟨fun w hw o ho => (hsame _).trans (ih.there w hw o ho), fun k v hv => ?_, ih.allowed⟩
      rw [hsame] at hv
      exact ih.nothingElse k v hv

/-! ## The marker -/

/-- The last object is a marker, and the others are not. -/
def EndsWithMarker (marker : K → Prop) (objects : List (K × V)) : Prop :=
  ∃ front m, objects = front ++ [m] ∧ marker m.1 ∧ ∀ o ∈ front, ¬marker o.1

/-- A marker is written after everything else. -/
theorem written_of_marker {marker : K → Prop} {w : Writer K V} (hends : EndsWithMarker marker (w.written ++ w.left))
    {o : K × V} (ho : o ∈ w.written) (hmarker : marker o.1) : w.left = [] ∧ (w.written ++ w.left).getLast? = some o := by
  obtain ⟨front, m, hall, -, hothers⟩ := hends
  rcases List.eq_nil_or_concat w.left with hleft | ⟨init, last, hleft⟩
  · refine ⟨hleft, ?_⟩
    rw [hleft, List.append_nil] at hall ⊢
    rw [hall] at ho ⊢
    rcases List.mem_append.mp ho with ho | ho
    · exact absurd hmarker (hothers o ho)
    · rw [List.getLast?_concat, List.mem_singleton.mp ho]
  · -- what is left ends with the marker, so this object is in front of it
    rw [hleft, List.concat_eq_append, ← List.append_assoc] at hall
    obtain ⟨hfront, -⟩ := List.append_inj' hall rfl
    exact absurd hmarker (hothers o (hfront ▸ List.mem_append_left _ ho))

/-- A marker that is there belongs to a writer all of whose objects are there. -/
theorem complete_of_marker {marker : K → Prop} (hinit : ∀ k, get init k = none)
    (hends : ∀ objects, allowed objects → EndsWithMarker marker objects)
    (h : Reachable ⟨init, []⟩ (Step get allowed) s) {k : K} {v : V} (hk : marker k) (hv : get s.store k = some v) :
    ∃ objects, allowed objects ∧ (⟨objects, []⟩ : Writer K V) ∈ s.writers ∧ objects.getLast? = some (k, v) ∧
      ∀ o ∈ objects, get s.store o.1 = some o.2 := by
  have hfaithful := faithful_of_run hinit h
  obtain ⟨w, hw, ho⟩ := hfaithful.nothingElse k v hv
  obtain ⟨hleft, hlast⟩ := written_of_marker (hends _ (hfaithful.allowed w hw)) ho hk
  have hall := hfaithful.allowed w hw
  rw [hleft, List.append_nil] at hall hlast
  refine ⟨w.written, hall, ?_, hlast, hfaithful.there w hw⟩
  rw [← hleft]
  exact hw

end Ramulator.Lib.Publish
