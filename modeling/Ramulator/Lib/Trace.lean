/-
# Ramulator.Lib.Trace — traces in which every event is justified by the events before it.

A trace grows at its end. A condition on it that looks back only, from an event to the events before,
is checked when the event is appended and never again.
-/
import Mathlib.Tactic.Common
import Mathlib.Data.List.Induction

namespace Ramulator.Lib

variable {α : Type} {P : List α → α → Prop} {l l' : List α} {x y : α}

/-! ## The last place -/

theorem getElem?_push {i : Nat} (h : (l ++ [x])[i]? = some y) :
    l[i]? = some y ∨ i = l.length ∧ y = x := by
  rcases Nat.lt_trichotomy i l.length with hlt | heq | hgt
  · rw [List.getElem?_append_left hlt] at h
    exact .inl h
  · rw [heq, List.getElem?_concat_length] at h
    exact .inr ⟨heq, (Option.some.inj h).symm⟩
  · rw [List.getElem?_eq_none (by rw [List.length_append, List.length_singleton]; omega)] at h
    cases h

theorem getElem?_push_of_some {i : Nat} (x : α) (h : l[i]? = some y) :
    (l ++ [x])[i]? = some y := by
  rw [List.getElem?_append_left (List.getElem?_eq_some_iff.mp h).1]
  exact h

theorem lt_of_getElem?_eq_some {i : Nat} (h : l[i]? = some y) : i < l.length :=
  (List.getElem?_eq_some_iff.mp h).1

/-! ## Justification -/

/-- Every event satisfies `P`, given the events before it. -/
def Justified (P : List α → α → Prop) (l : List α) : Prop := ∀ p x q, l = p ++ x :: q → P p x

theorem justified_nil : Justified P [] := by
  intro p x q h
  simp at h

/-- Two places in a trace are comparable. -/
theorem eq_append_cons_cases {p q : List α} (h : p ++ x :: q = l ++ y :: l') :
    (∃ t, p = l ++ y :: t) ∨ (∃ t, l = p ++ x :: t) ∨ (p = l ∧ x = y) := by
  rcases List.append_eq_append_iff.mp h with ⟨t, hl, ht⟩ | ⟨t, hp, ht⟩
  · cases t with
    | nil => exact .inr (.inr ⟨by simpa using hl.symm, (List.cons.inj ht).1⟩)
    | cons z t =>
        obtain rfl := (List.cons.inj ht).1
        exact .inr (.inl ⟨t, hl⟩)
  · cases t with
    | nil => exact .inr (.inr ⟨by simpa using hp, (List.cons.inj ht).1.symm⟩)
    | cons z t =>
        obtain rfl := (List.cons.inj ht).1
        exact .inl ⟨t, hp⟩

/-- One more event. -/
theorem Justified.snoc (h : Justified P l) (hx : P l x) : Justified P (l ++ [x]) := by
  intro p y q heq
  rcases eq_append_cons_cases heq with ⟨t, ht⟩ | ⟨t, rfl⟩ | ⟨rfl, rfl⟩
  · exact h p y t ht
  · simp at heq
  · exact hx

/-- More events, each of which needs no justification. -/
theorem Justified.append (h : Justified P l) (hl' : ∀ x ∈ l', ∀ p, P p x) : Justified P (l ++ l') := by
  intro p x q heq
  rcases List.append_eq_append_iff.mp heq with ⟨t, hp, ht⟩ | ⟨t, hl, ht⟩
  · refine hl' x ?_ p
    rw [ht]
    exact List.mem_append_right _ List.mem_cons_self
  · cases t with
    | nil =>
        refine hl' x ?_ p
        rw [← List.nil_append l', ← ht]
        exact List.mem_cons_self
    | cons z t =>
        obtain rfl := (List.cons.inj ht).1
        exact h p x t hl

/-! ## Since -/

variable {p q : α → Prop}

/-- An event satisfying `p` has happened, and none satisfying `q` after it. -/
def Since (p q : α → Prop) (l : List α) : Prop :=
  ∃ past x recent, l = past ++ x :: recent ∧ p x ∧ ∀ y ∈ recent, ¬q y

theorem not_since_nil : ¬Since p q [] := by
  rintro ⟨past, x, recent, h, -⟩
  simp at h

theorem since_snoc : Since p q (l ++ [x]) ↔ p x ∨ (¬q x ∧ Since p q l) := by
  constructor
  · rintro ⟨past, y, recent, heq, hy, hrecent⟩
    rcases List.eq_nil_or_concat recent with rfl | ⟨recent, z, rfl⟩
    · obtain ⟨-, hxy⟩ := List.append_inj' heq rfl
      rw [(List.cons.inj hxy).1]
      exact .inl hy
    · rw [List.concat_eq_append, ← List.cons_append, ← List.append_assoc] at heq
      obtain ⟨rfl, hxz⟩ := List.append_inj' heq rfl
      obtain rfl := (List.cons.inj hxz).1
      refine .inr ⟨hrecent x (by simp), past, y, recent, rfl, hy, fun w hw => hrecent w ?_⟩
      simp [hw]
  · rintro (hx | ⟨hx, past, y, recent, rfl, hy, hrecent⟩)
    · exact ⟨l, x, [], rfl, hx, by simp⟩
    · refine ⟨past, y, recent ++ [x], by simp, hy, fun w hw => ?_⟩
      rcases List.mem_append.mp hw with hw | hw
      · exact hrecent w hw
      · rw [List.mem_singleton.mp hw]
        exact hx

theorem Since.exists (h : Since p q l) : ∃ x ∈ l, p x := by
  obtain ⟨past, x, recent, rfl, hx, -⟩ := h
  exact ⟨x, List.mem_append_right _ List.mem_cons_self, hx⟩

/-- What has happened since may be said with more words. -/
theorem Since.mono {p' : α → Prop} (h : Since p q l) (hp : ∀ x ∈ l, p x → p' x) : Since p' q l := by
  obtain ⟨past, x, recent, rfl, hx, hrecent⟩ := h
  exact ⟨past, x, recent, rfl, hp x (List.mem_append_right _ List.mem_cons_self) hx, hrecent⟩

theorem justified_snoc : Justified P (l ++ [x]) ↔ Justified P l ∧ P l x := by
  refine ⟨fun h => ⟨fun past y recent heq => ?_, h l x [] rfl⟩, fun h => h.1.snoc h.2⟩
  exact h past y (recent ++ [x]) (by rw [heq, List.append_assoc, List.cons_append])

/-- Where starts come only when stopped and stops only when started, they alternate. -/
theorem alternates_of_justified {start stop : α → Bool}
    (h : Justified (fun past x =>
      (start x = true → ¬Since (start · = true) (stop · = true) past) ∧
        (stop x = true → Since (start · = true) (stop · = true) past)) l) :
    (Since (start · = true) (stop · = true) l ↔ (l.filter fun x => start x || stop x).length % 2 = 1) ∧
      ∀ (i : Nat) (x : α), (l.filter fun x => start x || stop x)[i]? = some x →
        if i % 2 = 0 then start x = true else stop x = true := by
  induction l using List.reverseRecOn with
  | nil => exact ⟨by simp [not_since_nil], by simp⟩
  | append_singleton l z ih =>
      obtain ⟨hl, hstart, hstop⟩ := justified_snoc.mp h
      obtain ⟨hodd, halt⟩ := ih hl
      rw [since_snoc, List.filter_append]
      generalize (l.filter fun x => start x || stop x) = m at hodd halt
      by_cases hz : start z = true
      · have heven : ¬m.length % 2 = 1 := fun hm => hstart hz (hodd.mpr hm)
        rw [List.filter_cons_of_pos (by rw [hz]; rfl), List.filter_nil, List.length_append, List.length_singleton]
        refine ⟨iff_of_true (.inl hz) (by omega), fun i x hi => ?_⟩
        rcases getElem?_push hi with hold | ⟨rfl, rfl⟩
        · exact halt i x hold
        · rw [if_pos (by omega)]
          exact hz
      · by_cases hz' : stop z = true
        · have hm : m.length % 2 = 1 := hodd.mp (hstop hz')
          rw [List.filter_cons_of_pos (by rw [hz', Bool.or_true]), List.filter_nil, List.length_append,
            List.length_singleton]
          refine ⟨iff_of_false (fun hsince => ?_) (by omega), fun i x hi => ?_⟩
          · exact hsince.elim hz fun hno => hno.1 hz'
          · rcases getElem?_push hi with hold | ⟨rfl, rfl⟩
            · exact halt i x hold
            · rw [if_neg (by omega)]
              exact hz'
        · rw [List.filter_cons_of_neg (by simp [hz, hz']), List.filter_nil, List.append_nil]
          exact ⟨by simpa [hz, hz'] using hodd, halt⟩

end Ramulator.Lib
