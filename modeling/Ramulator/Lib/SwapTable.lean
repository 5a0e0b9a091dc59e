/-
# Ramulator.Lib.SwapTable — association maps, and tables of exchanged places.

A hash map is a list of keys with their values, each key once; the order in which a loop visits it is
a parameter. On top of it, places whose contents are exchanged two at a time: `contents` says what each
place holds after a list of exchanges, and a table that records the pairs currently exchanged is
*placed* when it finds the contents of every place.
-/
import Mathlib.Algebra.BigOperators.Group.List.Basic
import Mathlib.Data.List.Nodup
import Mathlib.Logic.Equiv.Basic
import Mathlib.Algebra.Group.End

namespace Ramulator.Lib

/-! ## Association maps -/

section Maps

variable {α β : Type} [BEq α]

/-- `m.erase(k)`. -/
def eraseKey (k : α) (m : List (α × β)) : List (α × β) := m.filter fun e => !(e.1 == k)

/-- `m[k] = v`. -/
def assign (k : α) (v : β) (m : List (α × β)) : List (α × β) := (k, v) :: eraseKey k m

/-- The entries of `m` in the order in which a loop visits them: first the keys of `order`. -/
def visit (order : List α) (m : List (α × β)) : List (α × β) :=
  (order.filterMap fun k => (m.lookup k).map (k, ·)) ++ m.filter fun e => !order.contains e.1

/-- Each key stands once. -/
def KeysNodup (m : List (α × β)) : Prop := (m.map Prod.fst).Nodup

variable [LawfulBEq α] {m : List (α × β)} {k x : α} {v : β}

theorem lookup_eraseKey (k x : α) (m : List (α × β)) :
    (eraseKey k m).lookup x = if x == k then none else m.lookup x := by
  induction m with
  | nil => simp [eraseKey]
  | cons e m ih =>
      obtain ⟨k', v'⟩ := e
      have hcons : eraseKey k ((k', v') :: m) =
          if k' == k then eraseKey k m else (k', v') :: eraseKey k m := by
        unfold eraseKey
        rw [List.filter_cons]
        cases k' == k <;> rfl
      rw [hcons, List.lookup_cons]
      by_cases hk : k' = k
      · subst hk
        rw [if_pos (beq_self_eq_true k'), ih]
        cases x == k' <;> rfl
      · rw [if_neg (by simpa using hk), List.lookup_cons, ih]
        by_cases hx : x = k'
        · subst hx
          rw [beq_self_eq_true, beq_eq_false_iff_ne.mpr hk]
          rfl
        · rw [beq_eq_false_iff_ne.mpr hx]

theorem lookup_assign (k x : α) (v : β) (m : List (α × β)) :
    (assign k v m).lookup x = if x == k then some v else m.lookup x := by
  unfold assign
  rw [List.lookup_cons, lookup_eraseKey]
  cases x == k <;> rfl

theorem mem_of_lookup (h : m.lookup k = some v) : (k, v) ∈ m := by
  obtain ⟨l₁, l₂, rfl, -⟩ := List.lookup_eq_some_iff.mp h
  exact List.mem_append_right _ List.mem_cons_self

theorem KeysNodup.lookup_of_mem (hm : KeysNodup m) (h : (k, v) ∈ m) : m.lookup k = some v := by
  obtain ⟨l₁, l₂, rfl⟩ := List.append_of_mem h
  refine List.lookup_eq_some_iff.mpr ⟨l₁, l₂, rfl, fun e he => ?_⟩
  rw [bne_iff_ne]
  rintro rfl
  unfold KeysNodup at hm
  rw [List.map_append, List.map_cons] at hm
  exact (List.nodup_append.mp hm).2.2 _ (List.mem_map_of_mem he) _ List.mem_cons_self rfl

omit [LawfulBEq α] in
theorem KeysNodup.eraseKey (hm : KeysNodup m) (k : α) : KeysNodup (eraseKey k m) :=
  hm.sublist (List.filter_sublist.map Prod.fst)

theorem KeysNodup.assign (hm : KeysNodup m) (k : α) (v : β) : KeysNodup (assign k v m) := by
  refine List.nodup_cons.mpr ⟨fun hk => ?_, hm.eraseKey k⟩
  obtain ⟨e, he, hek⟩ := List.mem_map.mp hk
  have hne := (List.mem_filter.mp he).2
  rw [show e.1 = k from hek, beq_self_eq_true] at hne
  cases hne

/-- Erasing a key that is not there. -/
theorem eraseKey_of_lookup_none (h : m.lookup k = none) : eraseKey k m = m := by
  refine List.filter_eq_self.mpr fun e he => ?_
  have hne := List.lookup_eq_none_iff.mp h e he
  rw [Bool.not_eq_true', beq_eq_false_iff_ne]
  exact (bne_iff_ne.mp hne).symm

/-- Erasing a key that is there. -/
theorem KeysNodup.length_eraseKey (hm : KeysNodup m) (h : m.lookup k = some v) :
    (Lib.eraseKey k m).length + 1 = m.length := by
  obtain ⟨l₁, l₂, rfl, hl₁⟩ := List.lookup_eq_some_iff.mp h
  unfold KeysNodup at hm
  rw [List.map_append, List.map_cons, List.nodup_append, List.nodup_cons] at hm
  obtain ⟨-, ⟨hl₂, -⟩, -⟩ := hm
  have h₁ : (l₁.filter fun e => !(e.1 == k)) = l₁ := by
    refine List.filter_eq_self.mpr fun e he => ?_
    rw [Bool.not_eq_true', beq_eq_false_iff_ne]
    exact (bne_iff_ne.mp (hl₁ e he)).symm
  have h₂ : (l₂.filter fun e => !(e.1 == k)) = l₂ := by
    refine List.filter_eq_self.mpr fun e he => ?_
    rw [Bool.not_eq_true', beq_eq_false_iff_ne]
    intro hek
    exact hl₂ (List.mem_map.mpr ⟨e, he, hek⟩)
  unfold Lib.eraseKey
  rw [List.filter_append, List.filter_cons, beq_self_eq_true, h₁, h₂]
  simp [Nat.add_assoc]

/-- A loop visits entries of the map. -/
theorem lookup_of_mem_visit (hm : KeysNodup m) {order : List α} {e : α × β}
    (h : e ∈ visit order m) : m.lookup e.1 = some e.2 := by
  rcases List.mem_append.mp h with h | h
  · obtain ⟨k, -, hk⟩ := List.mem_filterMap.mp h
    obtain ⟨v, hv, rfl⟩ := Option.map_eq_some_iff.mp hk
    exact hv
  · exact hm.lookup_of_mem (List.mem_filter.mp h).1

omit [LawfulBEq α] in
/-- Changing every value. -/
theorem lookup_map_value {γ : Type} (f : β → γ) (m : List (α × β)) (k : α) :
    (m.map fun e => (e.1, f e.2)).lookup k = (m.lookup k).map f := by
  induction m with
  | nil => rfl
  | cons e m ih =>
      rw [List.map_cons, List.lookup_cons, List.lookup_cons, ih]
      cases k == e.1 with
      | true => rfl
      | false => rfl

/-- Keeping some of the entries. -/
theorem KeysNodup.lookup_filter (hm : KeysNodup m) (p : α × β → Bool) (k : α) :
    (m.filter p).lookup k = (m.lookup k).filter fun v => p (k, v) := by
  have hfilter : KeysNodup (m.filter p) := hm.sublist (List.filter_sublist.map Prod.fst)
  cases hk : (m.filter p).lookup k with
  | some v =>
      obtain ⟨hmem, hp⟩ := List.mem_filter.mp (mem_of_lookup hk)
      rw [hm.lookup_of_mem hmem, Option.filter_some, if_pos hp]
  | none =>
      cases hv : m.lookup k with
      | none => rfl
      | some v =>
          rw [Option.filter_some]
          split
          · rename_i hp
            rw [hfilter.lookup_of_mem (List.mem_filter.mpr ⟨mem_of_lookup hv, hp⟩)] at hk
            cases hk
          · rfl

/-- A loop visits every entry of the map. -/
theorem mem_visit (order : List α) (h : m.lookup k = some v) : (k, v) ∈ visit order m := by
  unfold visit
  rw [List.mem_append]
  by_cases hk : order.contains k = true
  · left
    rw [List.mem_filterMap]
    exact ⟨k, List.contains_iff_mem.mp hk, by rw [h]; rfl⟩
  · right
    rw [List.mem_filter]
    exact ⟨mem_of_lookup h, by simpa using hk⟩

/-- A loop that visits no entry twice visits the map in some order. -/
theorem KeysNodup.visit_perm (hm : KeysNodup m) {order : List α} (ho : order.Nodup) :
    (visit order m).Perm m := by
  have hnodup : m.Nodup := List.Nodup.of_map Prod.fst hm
  refine (List.perm_ext_iff_of_nodup ?_ hnodup).mpr ?_
  · unfold visit
    refine List.nodup_append.mpr ⟨?_, hnodup.filter _, ?_⟩
    · refine List.Pairwise.filterMap _ ?_ ho
      rintro k k' hne e he e' he' rfl
      obtain ⟨v, -, rfl⟩ := Option.map_eq_some_iff.mp he
      obtain ⟨v', -, heq⟩ := Option.map_eq_some_iff.mp he'
      exact hne (congrArg Prod.fst heq).symm
    · rintro e he e' he' rfl
      obtain ⟨k, hk, hke⟩ := List.mem_filterMap.mp he
      obtain ⟨v, -, rfl⟩ := Option.map_eq_some_iff.mp hke
      have hnot := (List.mem_filter.mp he').2
      rw [List.contains_iff_mem.mpr hk] at hnot
      cases hnot
  · intro e
    constructor
    · exact fun he => mem_of_lookup (lookup_of_mem_visit hm he)
    · exact fun he => mem_visit order (hm.lookup_of_mem he)

theorem KeysNodup.length_assign_of_some (hm : KeysNodup m) {w : β} (h : m.lookup k = some v) :
    (Lib.assign k w m).length = m.length := by
  rw [Lib.assign, List.length_cons, hm.length_eraseKey h]

theorem length_assign_of_none (h : m.lookup k = none) : (assign k v m).length = m.length + 1 := by
  rw [assign, List.length_cons, eraseKey_of_lookup_none h]

end Maps

/-! ## Maps of two keys -/

section Pairs

variable {α β γ : Type} [DecidableEq α] [DecidableEq β]

theorem update_update_self (f : α → β → γ) (a : α) (b : β) (v : γ) :
    Function.update f a (Function.update (f a) b v) a b = v := by
  rw [Function.update_self, Function.update_self]

theorem update_update_of_ne (f : α → β → γ) {a x : α} {b y : β} (h : (x, y) ≠ (a, b)) (v : γ) :
    Function.update f a (Function.update (f a) b v) x y = f x y := by
  by_cases hx : x = a
  · rw [hx, Function.update_self, Function.update_of_ne]
    exact fun hy => h (by rw [hx, hy])
  · rw [Function.update_of_ne hx]

end Pairs

/-! ## Exchanged places -/

section Places

variable {α : Type} [DecidableEq α] {f : α → Option α} {l : List (α × α)} {a b x : α}

/-- What each place holds after the given exchanges, in order: at the start every place holds its own
contents. -/
def contents (l : List (α × α)) : Equiv.Perm α := (l.map fun e => Equiv.swap e.1 e.2).prod

theorem contents_concat (l : List (α × α)) (a b x : α) :
    contents (l ++ [(a, b)]) x = contents l (Equiv.swap a b x) := by
  unfold contents
  rw [List.map_append, List.prod_append]
  simp

/-- Where the table `f` looks for the contents of a place. -/
def partner (f : α → Option α) (a : α) : α := (f a).getD a

/-- The table holds pairs: it is an involution on its places, without fixed points. -/
structure Pairing (f : α → Option α) : Prop where
  symm : ∀ {a b}, f a = some b → f b = some a
  irrefl : ∀ a, f a ≠ some a

/-- The table finds the contents of every place. -/
def Placed (f : α → Option α) (l : List (α × α)) : Prop := ∀ a, contents l (partner f a) = a

/-- The table with one more pair. -/
def addPair (f : α → Option α) (a b x : α) : Option α :=
  if x = b then some a else if x = a then some b else f x

/-- The table without a pair. -/
def dropPair (f : α → Option α) (a b x : α) : Option α := if x = a ∨ x = b then none else f x

theorem Pairing.add (hf : Pairing f) (ha : f a = none) (hb : f b = none) (hab : a ≠ b) :
    Pairing (addPair f a b) := by
  refine ⟨fun {x y} h => ?_, fun x h => ?_⟩
  · unfold addPair at h ⊢
    split_ifs at h with h₁ h₂
    · obtain rfl := Option.some.inj h
      rw [if_neg hab, if_pos rfl, h₁]
    · obtain rfl := Option.some.inj h
      rw [if_pos rfl, h₂]
    · -- the new places are not in the old table
      have hy := hf.symm h
      rw [if_neg, if_neg, hy]
      · rintro rfl
        rw [ha] at hy
        cases hy
      · rintro rfl
        rw [hb] at hy
        cases hy
  · unfold addPair at h
    split_ifs at h with h₁ h₂
    · exact hab ((Option.some.inj h).trans h₁)
    · exact hab (h₂.symm.trans (Option.some.inj h).symm)
    · exact hf.irrefl x h

theorem Pairing.drop (hf : Pairing f) (hab : f a = some b) : Pairing (dropPair f a b) := by
  refine ⟨fun {x y} h => ?_, fun x h => ?_⟩
  · unfold dropPair at h ⊢
    split_ifs at h with hx
    have hy := hf.symm h
    rw [if_neg, hy]
    rintro (rfl | rfl)
    · exact hx (.inr (Option.some.inj (hy.symm.trans hab)))
    · exact hx (.inl (Option.some.inj (hy.symm.trans (hf.symm hab))))
  · unfold dropPair at h
    split_ifs at h
    exact hf.irrefl x h

/-- Exchanging two places that are not in the table, and entering them. -/
theorem Placed.add (h : Placed f l) (hf : Pairing f) (ha : f a = none) (hb : f b = none)
    (hab : a ≠ b) : Placed (addPair f a b) (l ++ [(a, b)]) := by
  intro x
  rw [contents_concat]
  have hswap : Equiv.swap a b (partner (addPair f a b) x) = partner f x := by
    unfold partner addPair
    by_cases hxb : x = b
    · subst hxb
      rw [if_pos rfl, hb]
      exact Equiv.swap_apply_left a x
    · rw [if_neg hxb]
      by_cases hxa : x = a
      · subst hxa
        rw [if_pos rfl, ha]
        exact Equiv.swap_apply_right x b
      · rw [if_neg hxa]
        cases hfx : f x with
        | none => exact Equiv.swap_apply_of_ne_of_ne hxa hxb
        | some y =>
            have hy := hf.symm hfx
            show Equiv.swap a b y = y
            refine Equiv.swap_apply_of_ne_of_ne ?_ ?_
            · rintro rfl
              rw [ha] at hy
              cases hy
            · rintro rfl
              rw [hb] at hy
              cases hy
  rw [hswap, h x]

/-- Exchanging the two places of a pair again, and dropping it. -/
theorem Placed.drop (h : Placed f l) (hf : Pairing f) (hab : f a = some b) :
    Placed (dropPair f a b) (l ++ [(a, b)]) := by
  intro x
  rw [contents_concat]
  have hswap : Equiv.swap a b (partner (dropPair f a b) x) = partner f x := by
    unfold partner dropPair
    by_cases hxa : x = a
    · subst hxa
      rw [if_pos (.inl rfl), hab]
      exact Equiv.swap_apply_left x b
    · by_cases hxb : x = b
      · subst hxb
        rw [if_pos (.inr rfl), hf.symm hab]
        exact Equiv.swap_apply_right a x
      · rw [if_neg (not_or.mpr ⟨hxa, hxb⟩)]
        cases hfx : f x with
        | none => exact Equiv.swap_apply_of_ne_of_ne hxa hxb
        | some y =>
            have hy := hf.symm hfx
            show Equiv.swap a b y = y
            refine Equiv.swap_apply_of_ne_of_ne ?_ ?_
            · rintro rfl
              exact hxb (Option.some.inj (hy.symm.trans hab))
            · rintro rfl
              exact hxa (Option.some.inj (hy.symm.trans (hf.symm hab)))
  rw [hswap, h x]

/-- A placed table finds the contents of a place, and no other place holds them. -/
theorem Placed.eq_symm (h : Placed f l) (a : α) : (contents l).symm a = partner f a := by
  rw [Equiv.symm_apply_eq, h a]

end Places

end Ramulator.Lib
