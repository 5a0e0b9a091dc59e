/-
# Ramulator.Lib.Join — rows joined on a key, and rows numbered among their like.

`innerJoin` pairs every row of one table with the rows of another that have its key. Where no key comes
twice on either side it is a matching: one pair for each key that both sides have.

`number` gives each row its place among the rows of its key, so that key and number together come once.
-/
import Mathlib.Data.List.Induction
import Mathlib.Data.List.Nodup
import Mathlib.Data.List.Perm.Subperm

namespace Ramulator.Lib

variable {α β κ : Type} [BEq κ]

/-- The pairs of rows with one key, in the order of the left rows. -/
def innerJoin (key : α → κ) (key' : β → κ) (xs : List α) (ys : List β) : List (α × β) :=
  xs.flatMap fun x => (ys.filter fun y => key' y == key x).map (x, ·)

/-- Each row with the number of rows of its key before it. -/
def number (key : α → κ) (xs : List α) : List (α × Nat) :=
  xs.zipIdx.map fun e => (e.1, (xs.take e.2).countP fun x => key x == key e.1)

variable [LawfulBEq κ] {key : α → κ} {key' : β → κ} {xs : List α} {ys : List β}

theorem mem_innerJoin {p : α × β} : p ∈ innerJoin key key' xs ys ↔ p.1 ∈ xs ∧ p.2 ∈ ys ∧ key p.1 = key' p.2 := by
  unfold innerJoin
  rw [List.mem_flatMap]
  constructor
  · rintro ⟨x, hx, hp⟩
    obtain ⟨y, hy, rfl⟩ := List.mem_map.mp hp
    obtain ⟨hy, hkey⟩ := List.mem_filter.mp hy
    exact ⟨hx, hy, (beq_iff_eq.mp hkey).symm⟩
  · rintro ⟨hx, hy, hkey⟩
    exact ⟨p.1, hx, List.mem_map.mpr ⟨p.2, List.mem_filter.mpr ⟨hy, beq_iff_eq.mpr hkey.symm⟩, rfl⟩⟩

/-- The keys of a join are keys of both sides. -/
theorem mem_keys_innerJoin {k : κ} :
    k ∈ (innerJoin key key' xs ys).map (fun p => key p.1) ↔ k ∈ xs.map key ∧ k ∈ ys.map key' := by
  constructor
  · intro hk
    obtain ⟨p, hp, rfl⟩ := List.mem_map.mp hk
    obtain ⟨hx, hy, hkey⟩ := mem_innerJoin.mp hp
    exact ⟨List.mem_map_of_mem hx, List.mem_map.mpr ⟨p.2, hy, hkey.symm⟩⟩
  · rintro ⟨hx, hy⟩
    obtain ⟨x, hmem, rfl⟩ := List.mem_map.mp hx
    obtain ⟨y, hmem', hkey⟩ := List.mem_map.mp hy
    exact List.mem_map.mpr ⟨(x, y), mem_innerJoin.mpr ⟨hmem, hmem', hkey.symm⟩, rfl⟩

/-- Where no key comes twice on either side, none comes twice in the join. -/
theorem nodup_keys_innerJoin (hx : (xs.map key).Nodup) (hy : (ys.map key').Nodup) :
    ((innerJoin key key' xs ys).map fun p => key p.1).Nodup := by
  induction xs with
  | nil => exact List.nodup_nil
  | cons x xs ih =>
      obtain ⟨hfresh, hxs⟩ := List.nodup_cons.mp hx
      have hcons : innerJoin key key' (x :: xs) ys =
          (ys.filter fun y => key' y == key x).map (x, ·) ++ innerJoin key key' xs ys := rfl
      rw [hcons, List.map_append, List.nodup_append]
      refine ⟨?_, ih hxs, ?_⟩
      · -- all rows of one key: there is at most one
        have hsame : ((ys.filter fun y => key' y == key x).map (x, ·)).map (fun p => key p.1) =
            (ys.filter fun y => key' y == key x).map key' := by
          rw [List.map_map]
          refine List.map_congr_left fun y hmem => ?_
          exact (beq_iff_eq.mp (List.mem_filter.mp hmem).2).symm
        rw [hsame]
        exact hy.sublist (List.filter_sublist.map key')
      · rintro k hk _ hk' rfl
        obtain ⟨p, hp, rfl⟩ := List.mem_map.mp hk
        obtain ⟨y, -, rfl⟩ := List.mem_map.mp hp
        exact hfresh (mem_keys_innerJoin.mp hk').1

/-- A matching is no longer than either side. -/
theorem length_innerJoin_le (hx : (xs.map key).Nodup) (hy : (ys.map key').Nodup) :
    (innerJoin key key' xs ys).length ≤ xs.length ∧ (innerJoin key key' xs ys).length ≤ ys.length := by
  have hnodup := nodup_keys_innerJoin hx hy
  constructor
  · have hle := (hnodup.subperm fun k hk => (mem_keys_innerJoin.mp hk).1).length_le
    rwa [List.length_map, List.length_map] at hle
  · have hle := (hnodup.subperm fun k hk => (mem_keys_innerJoin.mp hk).2).length_le
    rwa [List.length_map, List.length_map] at hle

/-! ### Numbers -/

omit [LawfulBEq κ] in
theorem number_concat (key : α → κ) (xs : List α) (x : α) :
    number key (xs ++ [x]) = number key xs ++ [(x, xs.countP fun y => key y == key x)] := by
  unfold number
  rw [List.zipIdx_append, List.map_append]
  congr 1
  · refine List.map_congr_left fun e he => ?_
    have hlt := List.snd_lt_of_mem_zipIdx he
    rw [List.take_append_of_le_length (by omega)]
  · simp

omit [LawfulBEq κ] in
theorem length_number (key : α → κ) (xs : List α) : (number key xs).length = xs.length := by
  unfold number
  rw [List.length_map, List.length_zipIdx]

/-- The numbers of a key are those below the number of its rows. -/
theorem mem_keys_number {k : κ} {i : Nat} :
    (k, i) ∈ (number key xs).map (fun e => (key e.1, e.2)) ↔ i < xs.countP fun x => key x == k := by
  induction xs using List.reverseRecOn with
  | nil => simp [number]
  | append_singleton xs x ih =>
      rw [number_concat, List.map_append, List.mem_append, ih, List.countP_append]
      by_cases hk : key x = k
      · subst hk
        simp only [List.map_cons, List.map_nil, List.mem_singleton, Prod.mk.injEq, true_and, List.countP_cons,
          List.countP_nil, beq_self_eq_true, if_true]
        omega
      · simp [hk, Ne.symm hk]

/-- Key and number together come once. -/
theorem nodup_number (key : α → κ) (xs : List α) : ((number key xs).map fun e => (key e.1, e.2)).Nodup := by
  induction xs using List.reverseRecOn with
  | nil => exact List.nodup_nil
  | append_singleton xs x ih =>
      rw [number_concat, List.map_append, List.map_singleton, List.nodup_append]
      refine ⟨ih, List.nodup_singleton _, ?_⟩
      rintro e he _ hx rfl
      rw [List.mem_singleton.mp hx, mem_keys_number] at he
      exact absurd he (Nat.lt_irrefl _)

/-- A row that has number `i` is the `i`th row of its key. -/
theorem getElem?_of_mem_number {x : α} {i : Nat} (h : (x, i) ∈ number key xs) :
    (xs.filter fun y => key y == key x)[i]? = some x := by
  induction xs using List.reverseRecOn with
  | nil => cases h
  | append_singleton xs z ih =>
      rw [number_concat, List.mem_append, List.mem_singleton] at h
      rw [List.filter_append]
      rcases h with hold | hnew
      · have hi := ih hold
        have hlt : i < (xs.filter fun y => key y == key x).length := by
          by_contra hge
          rw [List.getElem?_eq_none (by omega)] at hi
          cases hi
        rw [List.getElem?_append_left hlt]
        exact hi
      · obtain ⟨rfl, rfl⟩ := Prod.mk.inj hnew
        rw [List.countP_eq_length_filter, List.getElem?_append_right (Nat.le_refl _)]
        simp

/-- The number of a row is its place among the rows of its key. -/
theorem mem_number {x : α} {i : Nat} :
    (x, i) ∈ number key xs ↔ (xs.filter fun y => key y == key x)[i]? = some x := by
  constructor
  · exact getElem?_of_mem_number
  · intro h
    obtain ⟨hlt, -⟩ := List.getElem?_eq_some_iff.mp h
    rw [← List.countP_eq_length_filter] at hlt
    obtain ⟨e, he, hkey⟩ := List.mem_map.mp (mem_keys_number.mpr hlt)
    obtain ⟨hsame, rfl⟩ := Prod.mk.inj hkey
    have hother := getElem?_of_mem_number he
    rw [hsame, h] at hother
    obtain rfl := Option.some.inj hother
    exact he

end Ramulator.Lib
