/-
# Ramulator.Lib.HeavyHitters — bounded tables that never count too little.

A table counts some keys and one spillover counter stands for all the others. A key that is not in the
table takes over the place of an entry whose count is the spillover counter, or else the spillover
counter grows. Every key's count, or the spillover counter for a key that has none, is then at least the
number of times it was seen since its count was last lowered (`Covers`); and while entries are only
replaced, the counts add up to at most what was seen at all (`total`), which bounds the spillover counter.
-/
import Ramulator.Lib.SwapTable
import Mathlib.Algebra.Order.BigOperators.Group.List
import Mathlib.Data.Nat.Cast.Basic
import Mathlib.Algebra.Ring.Int.Defs

namespace Ramulator.Lib

variable {α : Type} [DecidableEq α] {m : List (α × Int)} {spill : Int} {seen : α → Nat} {k r : α} {v : Int}

/-- The count of a key: its own, or the spillover counter. -/
def estimate (m : List (α × Int)) (spill : Int) (k : α) : Int := (m.lookup k).getD spill

/-- Every count is at least the spillover counter and at least how often its key was seen. -/
structure Covers (m : List (α × Int)) (spill : Int) (seen : α → Nat) : Prop where
  keys : KeysNodup m
  floor : ∀ k v, m.lookup k = some v → spill ≤ v
  covered : ∀ k, (seen k : Int) ≤ estimate m spill k

/-- One more sight of a key. -/
def see (k : α) (seen : α → Nat) : α → Nat := Function.update seen k (seen k + 1)

@[simp] theorem see_self (k : α) (seen : α → Nat) : see k seen k = seen k + 1 := Function.update_self ..

theorem see_of_ne {x : α} (h : x ≠ k) (seen : α → Nat) : see k seen x = seen x := Function.update_of_ne h ..

theorem estimate_of_some (h : m.lookup k = some v) : estimate m spill k = v := by
  rw [estimate, h]
  rfl

theorem estimate_of_none (h : m.lookup k = none) : estimate m spill k = spill := by
  rw [estimate, h]
  rfl

theorem estimate_assign (k x : α) (v : Int) (m : List (α × Int)) (spill : Int) :
    estimate (assign k v m) spill x = if x = k then v else estimate m spill x := by
  rw [estimate, lookup_assign]
  by_cases hx : x = k
  · rw [if_pos (by simpa using hx), if_pos hx]
    rfl
  · rw [if_neg (by simpa using hx), if_neg hx]
    rfl

namespace Covers

/-- Giving a key a count that covers it. -/
theorem assign (h : Covers m spill seen) {seen' : α → Nat} (hv : spill ≤ v) (hk : (seen' k : Int) ≤ v)
    (hother : ∀ x, x ≠ k → seen' x = seen x) : Covers (assign k v m) spill seen' := by
  refine ⟨h.keys.assign k v, ?_, ?_⟩
  · intro x w hx
    rw [lookup_assign] at hx
    split at hx
    · rw [← Option.some.inj hx]
      exact hv
    · exact h.floor x w hx
  · intro x
    rw [estimate_assign]
    split
    · rename_i heq
      rw [heq]
      exact hk
    · rename_i hne
      rw [hother x hne]
      exact h.covered x

/-- A key of the table is seen. -/
theorem hit (h : Covers m spill seen) (hk : m.lookup k = some v) :
    Covers (Lib.assign k (v + 1) m) spill (see k seen) := by
  have hfloor := h.floor k v hk
  have hseen := h.covered k
  rw [estimate_of_some hk] at hseen
  apply h.assign
  · omega
  · rw [see_self]
    omega
  · exact fun x hx => see_of_ne hx seen

/-- A new key enters where there is room. -/
theorem enter (h : Covers m spill seen) (hk : m.lookup k = none) :
    Covers (Lib.assign k (spill + 1) m) spill (see k seen) := by
  have hseen := h.covered k
  rw [estimate_of_none hk] at hseen
  apply h.assign
  · omega
  · rw [see_self]
    omega
  · exact fun x hx => see_of_ne hx seen

/-- An entry with no more than the spillover counter can be given up. -/
theorem eraseKey (h : Covers m spill seen) (hr : m.lookup r = some spill) :
    Covers (Lib.eraseKey r m) spill seen := by
  have hlookup : ∀ x, (Lib.eraseKey r m).lookup x = if x = r then none else m.lookup x := by
    intro x
    rw [lookup_eraseKey]
    by_cases hx : x = r
    · rw [if_pos (by simpa using hx), if_pos hx]
    · rw [if_neg (by simpa using hx), if_neg hx]
  refine ⟨h.keys.eraseKey r, ?_, ?_⟩
  · intro x w hx
    rw [hlookup x] at hx
    split at hx
    · cases hx
    · exact h.floor x w hx
  · intro x
    have hseen := h.covered x
    by_cases hx : x = r
    · rw [hx, estimate_of_some hr] at hseen
      rw [hx, estimate_of_none (by rw [hlookup, if_pos rfl])]
      exact hseen
    · rw [estimate, hlookup, if_neg hx]
      exact hseen

/-- No entry can be given up: the spillover counter grows. -/
theorem spillOver (h : Covers m spill seen) (hk : m.lookup k = none) (hfull : ∀ x v, m.lookup x = some v → v ≠ spill) :
    Covers m (spill + 1) (see k seen) := by
  refine ⟨h.keys, ?_, ?_⟩
  · intro x w hx
    have hfloor := h.floor x w hx
    have hne := hfull x w hx
    omega
  · intro x
    have hseen := h.covered x
    cases hx : m.lookup x with
    | some w =>
        have hne : x ≠ k := by
          rintro rfl
          rw [hk] at hx
          cases hx
        rw [estimate_of_some hx] at hseen ⊢
        rw [see_of_ne hne]
        exact hseen
    | none =>
        rw [estimate_of_none hx] at hseen ⊢
        by_cases hxk : x = k
        · rw [hxk] at hseen ⊢
          rw [see_self]
          omega
        · rw [see_of_ne hxk]
          omega

/-- The count of a key that starts again is lowered to the spillover counter. -/
theorem lower (h : Covers m spill seen) (hspill : 0 ≤ spill) :
    Covers (Lib.assign k spill m) spill (Function.update seen k 0) := by
  apply h.assign (Int.le_refl _)
  · rw [Function.update_self]
    exact hspill
  · exact fun x hx => Function.update_of_ne hx ..

/-- The counts of several keys are lowered, one after the other. -/
theorem lowerAll (h : Covers m spill seen) (hspill : 0 ≤ spill) (ks : List α) :
    Covers (ks.foldl (fun m k => Lib.assign k spill m) m) spill fun x => if x ∈ ks then 0 else seen x := by
  induction ks generalizing m seen with
  | nil =>
      simp only [List.not_mem_nil, if_false]
      exact h
  | cons k ks ih =>
      have hrest := ih (h.lower (k := k) hspill)
      have hseen : (fun x => if x ∈ ks then 0 else Function.update seen k 0 x) =
          fun x => if x ∈ k :: ks then 0 else seen x := by
        funext x
        by_cases hx : x = k
        · rw [hx, Function.update_self, if_pos List.mem_cons_self, ite_self]
        · simp only [Function.update_of_ne hx, List.mem_cons, hx, false_or]
      rwa [hseen] at hrest

/-- All counts start again. -/
theorem zero (hkeys : KeysNodup m) : Covers (m.map fun e => (e.1, (0 : Int))) 0 fun _ => 0 := by
  have hlookup : ∀ k v, (m.map fun e => (e.1, (0 : Int))).lookup k = some v → v = 0 := by
    intro k v h
    obtain ⟨e, -, he⟩ := List.mem_map.mp (mem_of_lookup h)
    exact (congrArg Prod.snd he).symm
  refine ⟨?_, ?_, ?_⟩
  · unfold KeysNodup at hkeys ⊢
    rw [List.map_map]
    exact hkeys
  · intro k v h
    rw [hlookup k v h]
  · intro k
    cases h : (m.map fun e => (e.1, (0 : Int))).lookup k with
    | none => rw [estimate_of_none h]; rfl
    | some v => rw [estimate_of_some h, hlookup k v h]; rfl

end Covers

/-- What one sight of a key does to the table and to the spillover counter. -/
inductive Counts (k : α) (m : List (α × Int)) (spill : Int) : List (α × Int) → Int → Prop where
  | hit {v : Int} (hk : m.lookup k = some v) : Counts k m spill (assign k (v + 1) m) spill
  | enter (hk : m.lookup k = none) : Counts k m spill (assign k (spill + 1) m) spill
  | replace {r : α} (hk : m.lookup k = none) (hr : m.lookup r = some spill) :
      Counts k m spill (assign k (spill + 1) (eraseKey r m)) spill
  | spillOver (hk : m.lookup k = none) (hfull : ∀ x v, m.lookup x = some v → v ≠ spill) :
      Counts k m spill m (spill + 1)

theorem lookup_eraseKey_of_none (hk : m.lookup k = none) (r : α) : (eraseKey r m).lookup k = none := by
  rw [lookup_eraseKey, hk, ite_self]

/-- A sight of a key is counted. -/
theorem Covers.counts (h : Covers m spill seen) {m' : List (α × Int)} {spill' : Int}
    (hcounts : Counts k m spill m' spill') : Covers m' spill' (see k seen) := by
  cases hcounts with
  | hit hk => exact h.hit hk
  | enter hk => exact h.enter hk
  | replace hk hr => exact (h.eraseKey hr).enter (lookup_eraseKey_of_none hk _)
  | spillOver hk hfull => exact h.spillOver hk hfull

/-! ## The sum of the counts -/

/-- The counts together. -/
def total (m : List (α × Int)) : Int := (m.map Prod.snd).sum

omit [DecidableEq α] in
theorem total_cons (e : α × Int) (m : List (α × Int)) : total (e :: m) = e.2 + total m := by
  rw [total, List.map_cons, List.sum_cons]
  rfl

theorem total_eraseKey (hm : KeysNodup m) (h : m.lookup k = some v) : total (eraseKey k m) + v = total m := by
  obtain ⟨l₁, l₂, rfl, hl₁⟩ := List.lookup_eq_some_iff.mp h
  have h₁ : eraseKey k l₁ = l₁ := eraseKey_of_lookup_none (List.lookup_eq_none_iff.mpr hl₁)
  have h₂ : eraseKey k l₂ = l₂ := by
    apply eraseKey_of_lookup_none
    rw [List.lookup_eq_none_iff]
    intro e he
    rw [bne_iff_ne]
    rintro rfl
    unfold KeysNodup at hm
    rw [List.map_append, List.map_cons, List.nodup_append, List.nodup_cons] at hm
    exact hm.2.1.1 (List.mem_map.mpr ⟨e, he, rfl⟩)
  have hcons : eraseKey k ((k, v) :: l₂) = l₂ := by
    rw [eraseKey, List.filter_cons, beq_self_eq_true]
    exact h₂
  have happend : eraseKey k (l₁ ++ (k, v) :: l₂) = l₁ ++ l₂ := by
    rw [eraseKey, List.filter_append]
    exact congrArg₂ (· ++ ·) h₁ hcons
  rw [happend]
  simp only [total, List.map_append, List.sum_append, List.map_cons, List.sum_cons]
  omega

theorem total_assign_of_some (hm : KeysNodup m) (h : m.lookup k = some v) (w : Int) :
    total (assign k w m) = total m - v + w := by
  have herase := total_eraseKey hm h
  rw [assign, total_cons]
  dsimp only
  omega

theorem total_assign_of_none (h : m.lookup k = none) (w : Int) : total (assign k w m) = total m + w := by
  rw [assign, total_cons, eraseKey_of_lookup_none h, Int.add_comm]

/-- Replacing an entry, the counts together grow by one. -/
theorem total_replace (hm : KeysNodup m) (hk : m.lookup k = none) (hr : m.lookup r = some spill) :
    total (assign k (spill + 1) (eraseKey r m)) = total m + 1 := by
  have herase := total_eraseKey hm hr
  rw [total_assign_of_none (lookup_eraseKey_of_none hk r)]
  omega

theorem length_replace (hm : KeysNodup m) (hk : m.lookup k = none) (hr : m.lookup r = some v) (w : Int) :
    (assign k w (eraseKey r m)).length = m.length := by
  rw [length_assign_of_none (lookup_eraseKey_of_none hk r), hm.length_eraseKey hr]

/-- Lowering counts of keys of the table leaves its size alone. -/
theorem length_lowerAll (hm : KeysNodup m) {ks : List α} (hks : ∀ k ∈ ks, (m.lookup k).isSome) (w : Int) :
    (ks.foldl (fun m k => assign k w m) m).length = m.length := by
  induction ks generalizing m with
  | nil => rfl
  | cons k ks ih =>
      obtain ⟨v, hv⟩ := Option.isSome_iff_exists.mp (hks k List.mem_cons_self)
      rw [List.foldl_cons, ih (hm.assign k w), hm.length_assign_of_some hv]
      intro x hx
      rw [lookup_assign]
      split
      · rfl
      · exact hks x (List.mem_cons_of_mem _ hx)

/-- The spillover counter is at most an even share of the counts. -/
theorem Covers.spill_le (h : Covers m spill seen) : ((m.length : Int) + 1) * spill ≤ total m + spill := by
  have hshare : (m.map Prod.snd).length • spill ≤ (m.map Prod.snd).sum := by
    apply List.card_nsmul_le_sum
    intro v hv
    obtain ⟨e, he, rfl⟩ := List.mem_map.mp hv
    exact h.floor e.1 e.2 (h.keys.lookup_of_mem he)
  rw [List.length_map, nsmul_eq_mul] at hshare
  rw [Int.add_mul, Int.one_mul]
  exact Int.add_le_add_right hshare spill

end Ramulator.Lib
