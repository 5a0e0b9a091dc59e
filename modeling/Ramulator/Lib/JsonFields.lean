/-
# Ramulator.Lib.JsonFields — the fields of sorted values, and equality with them.

Sorting the members of the objects of a value keeps every field (`field?_sort`), and the sorted value is equal
to the value (`eq_sort`) if its numbers are finite: what is no number is not equal to itself.

What a reader gives that refuses two members of one name has no two members of one name
(`loads_distinctKeys`).
-/
import Ramulator.Lib.JsonLayout
import Ramulator.Lib.SwapTable

namespace Ramulator.Lib

open FloatFormat

namespace Json

/-! ## Fields -/

theorem lookup_sortMembers (ms : List (String × Json)) (k : String) :
    (sortMembers ms).lookup k = (ms.lookup k).map sort := by
  induction ms with
  | nil => rfl
  | cons m ms ih =>
      obtain ⟨k', v⟩ := m
      rw [sortMembers, List.lookup_cons, List.lookup_cons]
      cases k == k' with
      | true => rfl
      | false => exact ih

theorem keys_sortMembers (ms : List (String × Json)) : (sortMembers ms).map Prod.fst = ms.map Prod.fst := by
  rw [sortMembers_eq_map, List.map_map]
  rfl

/-- In another order there is the same under each name. -/
theorem lookup_perm {ms ns : List (String × Json)} (h : ms.Perm ns) (hd : KeysNodup ms) (k : String) :
    ms.lookup k = ns.lookup k := by
  have hd' : KeysNodup ns := (h.map Prod.fst).nodup_iff.mp hd
  cases hv : ns.lookup k with
  | some v => exact hd.lookup_of_mem (h.mem_iff.mpr (mem_of_lookup hv))
  | none =>
      cases hw : ms.lookup k with
      | none => rfl
      | some w =>
          rw [hd'.lookup_of_mem (h.mem_iff.mp (mem_of_lookup hw))] at hv
          cases hv

/-- The members of the sorted object, by name. -/
theorem lookup_sorted {ms : List (String × Json)} (hd : (ms.map Prod.fst).Nodup) (k : String) :
    ((sortMembers ms).insertionSort MemberLe).lookup k = (ms.lookup k).map sort := by
  rw [← lookup_sortMembers]
  refine (lookup_perm (List.perm_insertionSort MemberLe _).symm ?_ k).symm
  show ((sortMembers ms).map Prod.fst).Nodup
  rw [keys_sortMembers]
  exact hd

theorem field?_sort {v : Json} (hd : DistinctKeys v) (k : String) : (sort v).field? k = (v.field? k).map sort := by
  cases v with
  | obj ms => exact lookup_sorted hd.1 k
  | null => rfl
  | bool b => rfl
  | int n => rfl
  | float x => rfl
  | str s => rfl
  | arr vs => rfl

/-! ## Equality -/

mutual

/-- A value is equal to itself with the members sorted. -/
theorem eq_sort : ∀ {v : Json}, DistinctKeys v → FiniteNumbers v → eq v (sort v) = true
  | .null, _, _ => rfl
  | .bool b, _, _ => by cases b <;> rfl
  | .int n, _, _ => beq_self_eq_true (n : ℚ)
  | .float x, _, h => by
      obtain ⟨y, rfl⟩ := h
      exact beq_self_eq_true y.toRat
  | .str s, _, _ => beq_self_eq_true s
  | .arr _, hd, h => eqItems_sort hd h
  | .obj ms, hd, h => by
      show ((ms.length == ((sortMembers ms).insertionSort MemberLe).length) && _) = true
      rw [List.length_insertionSort, sortMembers_eq_map, List.length_map, beq_self_eq_true, Bool.true_and,
        ← sortMembers_eq_map]
      refine eqMembers_sort hd.2 h fun m hm => ?_
      rw [lookup_sorted hd.1, KeysNodup.lookup_of_mem hd.1 hm]
      rfl

theorem eqItems_sort : ∀ {vs : List Json}, DistinctItems vs → EachItem FiniteFloat vs →
    eqItems vs (sortItems vs) = true
  | [], _, _ => rfl
  | v :: vs, hd, h => by
      rw [sortItems, eqItems, eq_sort hd.1 h.1, eqItems_sort hd.2 h.2]
      rfl

theorem eqMembers_sort : ∀ {ms ns : List (String × Json)}, DistinctMembers ms → EachMember FiniteFloat ms →
    (∀ m ∈ ms, ns.lookup m.1 = some (sort m.2)) → eqMembers ms ns = true
  | [], _, _, _, _ => rfl
  | (k, v) :: ms, ns, hd, h, hlookup => by
      rw [eqMembers, hlookup (k, v) List.mem_cons_self]
      dsimp only
      rw [eq_sort hd.1 h.1, eqMembers_sort hd.2 h.2 fun m hm => hlookup m (List.mem_cons_of_mem _ hm)]
      rfl

end

theorem eqMembers_lookup {ms ns : List (String × Json)} {m : String × Json} (h : eqMembers ms ns = true) (hm : m ∈ ms) :
    ∃ w, ns.lookup m.1 = some w ∧ eq m.2 w = true := by
  induction ms with
  | nil => cases hm
  | cons m' ms ih =>
      rw [eqMembers, Bool.and_eq_true] at h
      rcases List.mem_cons.mp hm with rfl | hm
      · cases hw : ns.lookup m.1 with
        | none =>
            rw [hw] at h
            cases h.1
        | some w =>
            rw [hw] at h
            exact ⟨w, rfl, h.1⟩
      · exact ih h.2 hm

/-- Equal objects have equal fields. -/
theorem eq_field {ms ns : List (String × Json)} {m : String × Json} (h : eq (.obj ms) (.obj ns) = true)
    (hm : m ∈ ms) : ∃ w, ns.lookup m.1 = some w ∧ eq m.2 w = true := by
  rw [eq, Bool.and_eq_true] at h
  exact eqMembers_lookup h.2 hm

/-! ## What is read -/

theorem readScalar_distinctKeys {cs rest : List Char} {v : Json} (h : readScalar cs = some (v, rest)) :
    DistinctKeys v := by
  unfold readScalar at h
  simp only [Option.orElse_eq_some] at h
  rcases h with h | ⟨-, h | ⟨-, h | ⟨-, h | ⟨-, h | ⟨-, h | ⟨-, h⟩⟩⟩⟩⟩⟩
  · cases readWord_eq_some h
    trivial
  · cases readWord_eq_some h
    trivial
  · cases readWord_eq_some h
    trivial
  · cases readWord_eq_some h
    trivial
  · cases readWord_eq_some h
    trivial
  · cases readWord_eq_some h
    trivial
  · unfold readNumberValue at h
    obtain ⟨⟨p, cs'⟩, -, h⟩ := option_bind_eq_some h
    dsimp only at h
    split_ifs at h
    · cases h
      trivial
    · cases h
      trivial

theorem distinctItems_iff {vs : List Json} : DistinctItems vs ↔ ∀ v ∈ vs, DistinctKeys v := by
  induction vs with
  | nil => exact ⟨fun _ => List.forall_mem_nil _, fun _ => trivial⟩
  | cons v vs ih => rw [DistinctItems, ih, List.forall_mem_cons]

theorem loads_distinctKeys {cs : List Char} {v : Json} (h : loads uniqueHook cs = some v) : DistinctKeys v := by
  have hreads : ReadsOnly uniqueHook DistinctKeys := {
    str := fun _ => trivial
    scalar := readScalar_distinctKeys
    arr := fun vs hvs => distinctItems_iff.mpr hvs
    obj := fun {ms ms'} h hms => by
      obtain ⟨rfl, hnodup⟩ := uniqueHook_eq_some h
      exact ⟨hnodup, distinctMembers_iff.mpr hms⟩
  }
  exact hreads.loads h

end Json

end Ramulator.Lib
