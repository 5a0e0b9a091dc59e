/-
# Ramulator.Lib.Dict — dictionaries that remember the order in which their keys came.

A dictionary is a list of keys with their values, each key once (`KeysNodup`), oldest key first: giving
a key a new value leaves it in its place, a new key goes to the end. `accumulate` is the loop that
files the items of a list under their keys, the value of a key growing with each of its items; what it
leaves under a key is the same loop over that key's items alone.
-/
import Ramulator.Lib.SwapTable
import Mathlib.Data.List.Induction

namespace Ramulator.Lib

/-- An insertion-ordered dictionary. -/
abbrev Dict (κ α : Type) := List (κ × α)

namespace Dict

variable {κ α β : Type} [BEq κ]

/-- `d[k] = v`. -/
def set (k : κ) (v : α) : Dict κ α → Dict κ α
  | [] => [(k, v)]
  | (k', v') :: d => if k' == k then (k', v) :: d else (k', v') :: set k v d

/-- The keys, oldest first. -/
def keys (d : Dict κ α) : List κ := d.map Prod.fst

/-- A dictionary from its entries, of two with one key the later value. -/
def ofEntries (es : List (κ × α)) : Dict κ α := es.foldl (fun d e => d.set e.1 e.2) []

/-- `for x in xs: d[key(x)] = f(d.get(key(x), first), x)`, from the empty dictionary. -/
def accumulate (key : β → κ) (first : α) (f : α → β → α) (xs : List β) : Dict κ α :=
  xs.foldl (fun d x => d.set (key x) (f ((d.lookup (key x)).getD first) x)) []

variable [LawfulBEq κ] {d : Dict κ α} {k x : κ} {v : α}

theorem lookup_set (k x : κ) (v : α) (d : Dict κ α) :
    (d.set k v).lookup x = if x == k then some v else d.lookup x := by
  induction d with
  | nil =>
      rw [set, List.lookup_cons]
      cases x == k <;> rfl
  | cons e d ih =>
      obtain ⟨k', v'⟩ := e
      rw [set]
      by_cases hk : k' = k
      · subst hk
        rw [if_pos (beq_self_eq_true k'), List.lookup_cons, List.lookup_cons]
        cases x == k' <;> rfl
      · rw [if_neg (by simpa using hk), List.lookup_cons, List.lookup_cons, ih]
        by_cases hx : x = k'
        · subst hx
          rw [beq_self_eq_true, beq_eq_false_iff_ne.mpr hk]
          rfl
        · rw [beq_eq_false_iff_ne.mpr hx]

/-- A key has a value. -/
theorem exists_lookup_of_mem_keys (h : k ∈ d.keys) : ∃ v, d.lookup k = some v := by
  induction d with
  | nil => cases h
  | cons e d ih =>
      rw [List.lookup_cons]
      by_cases hk : k = e.1
      · rw [beq_iff_eq.mpr hk]
        exact ⟨e.2, rfl⟩
      · rw [beq_eq_false_iff_ne.mpr hk]
        exact ih ((List.mem_cons.mp h).resolve_left hk)

theorem mem_keys_set : x ∈ (d.set k v).keys ↔ x = k ∨ x ∈ d.keys := by
  induction d with
  | nil => simp [set, keys]
  | cons e d ih =>
      obtain ⟨k', v'⟩ := e
      rw [set]
      split
      · next hk =>
        obtain rfl := beq_iff_eq.mp hk
        simp [keys]
      · have hcons : ∀ d : Dict κ α, keys ((k', v') :: d) = k' :: keys d := fun _ => rfl
        rw [hcons, hcons, List.mem_cons, ih, List.mem_cons]
        exact or_left_comm

theorem keysNodup_set (hd : KeysNodup d) (k : κ) (v : α) : KeysNodup (d.set k v) := by
  induction d with
  | nil => exact List.nodup_singleton k
  | cons e d ih =>
      obtain ⟨k', v'⟩ := e
      obtain ⟨hfresh, hrest⟩ := List.nodup_cons.mp hd
      rw [set]
      split
      · exact hd
      · next hk =>
        refine List.nodup_cons.mpr ⟨fun hmem => ?_, ih hrest⟩
        rcases mem_keys_set.mp hmem with hkk | hold
        · exact hk (beq_iff_eq.mpr hkk)
        · exact hfresh hold

theorem mem_set {e : κ × α} (h : e ∈ d.set k v) : e = (k, v) ∨ e ∈ d := by
  induction d with
  | nil => exact .inl (List.mem_singleton.mp h)
  | cons e' d ih =>
      obtain ⟨k', v'⟩ := e'
      rw [set] at h
      split at h
      · next hk =>
        obtain rfl := beq_iff_eq.mp hk
        exact (List.mem_cons.mp h).imp id (List.mem_cons_of_mem _)
      · rcases List.mem_cons.mp h with rfl | h
        · exact .inr List.mem_cons_self
        · exact (ih h).imp id (List.mem_cons_of_mem _)

/-- A dictionary holds no entries but those it was made from. -/
theorem mem_of_mem_ofEntries {es : List (κ × α)} {e : κ × α} (h : e ∈ ofEntries es) : e ∈ es := by
  induction es using List.reverseRecOn with
  | nil => exact h
  | append_singleton es e' ih =>
      unfold ofEntries at h
      rw [List.foldl_append] at h
      rcases mem_set h with rfl | hold
      · exact List.mem_append_right _ List.mem_cons_self
      · exact List.mem_append_left _ (ih hold)

/-! ### The loop that files items under keys -/

section Accumulate

variable {key : β → κ} {first : α} {f : α → β → α} {xs : List β}

omit [LawfulBEq κ] in
theorem accumulate_concat (key : β → κ) (first : α) (f : α → β → α) (xs : List β) (x : β) :
    accumulate key first f (xs ++ [x]) = (accumulate key first f xs).set (key x)
      (f (((accumulate key first f xs).lookup (key x)).getD first) x) := by
  unfold accumulate
  rw [List.foldl_append]
  rfl

theorem keysNodup_accumulate (key : β → κ) (first : α) (f : α → β → α) (xs : List β) :
    KeysNodup (accumulate key first f xs) := by
  induction xs using List.reverseRecOn with
  | nil => exact List.nodup_nil
  | append_singleton xs x ih =>
      rw [accumulate_concat]
      exact keysNodup_set ih _ _

/-- What the loop leaves under a key: nothing, or the same loop over the items of that key. -/
theorem lookup_accumulate (key : β → κ) (first : α) (f : α → β → α) (xs : List β) (k : κ) :
    (accumulate key first f xs).lookup k =
      if (xs.filter fun x => key x == k) = [] then none
      else some ((xs.filter fun x => key x == k).foldl f first) := by
  induction xs using List.reverseRecOn with
  | nil => rfl
  | append_singleton xs x ih =>
      rw [accumulate_concat, lookup_set, List.filter_append]
      by_cases hk : key x = k
      · subst hk
        have hone : ([x].filter fun y => key y == key x) = [x] := by simp
        rw [beq_self_eq_true, if_pos rfl, hone, if_neg (List.append_ne_nil_of_right_ne_nil _ (List.cons_ne_nil _ _)),
          List.foldl_append, ih]
        split
        · next hnone => rw [hnone]; rfl
        · rfl
      · have hnone : ([x].filter fun y => key y == k) = [] := by simpa using hk
        rw [beq_eq_false_iff_ne.mpr (Ne.symm hk), hnone, List.append_nil, ← ih]
        rfl

/-- An item has an entry under its key. -/
theorem lookup_accumulate_of_mem {x : β} (hx : x ∈ xs) :
    (accumulate key first f xs).lookup (key x) = some ((xs.filter fun y => key y == key x).foldl f first) := by
  rw [lookup_accumulate, if_neg]
  exact List.ne_nil_of_mem (List.mem_filter.mpr ⟨hx, beq_self_eq_true (key x)⟩)

/-- An entry of the result is the loop over the items of its key, and there is such an item. -/
theorem mem_accumulate {e : κ × α} :
    e ∈ accumulate key first f xs ↔
      (∃ x ∈ xs, key x = e.1) ∧ (xs.filter fun x => key x == e.1).foldl f first = e.2 := by
  obtain ⟨k, v⟩ := e
  have hlookup : (k, v) ∈ accumulate key first f xs ↔ (accumulate key first f xs).lookup k = some v :=
    ⟨(keysNodup_accumulate key first f xs).lookup_of_mem, mem_of_lookup⟩
  have hany : (xs.filter fun x => key x == k) = [] ↔ ¬∃ x ∈ xs, key x = k := by
    simp [List.filter_eq_nil_iff]
  rw [hlookup, lookup_accumulate]
  split
  · next hnil => exact ⟨fun h => (Option.some_ne_none _ h.symm).elim, fun h => (hany.mp hnil h.1).elim⟩
  · next hsome =>
    rw [hany, not_not] at hsome
    exact ⟨fun h => ⟨hsome, Option.some.inj h⟩, fun h => congrArg some h.2⟩

end Accumulate

end Dict

end Ramulator.Lib
