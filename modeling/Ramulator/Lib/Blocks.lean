/-
# Ramulator.Lib.Blocks — sequences of blocks that their first element delimits.

A list is cut into blocks: the element that heads a block, and what comes after it, say how much more belongs
to it, or that nothing may begin here. `Head` is such a rule; it looks at nothing beyond the block. Then a list
has at most one division into blocks, `cut` finds it, and blocks may be taken out of a list and others put in
their place.
-/
import Ramulator.Lib.Run

namespace Ramulator.Lib.Blocks

variable {α ε : Type}

/-- How many elements follow the head of a block. -/
structure Head (α ε : Type) where
  rest : α → List α → Except ε Nat
  near : ∀ {x l n}, rest x l = .ok n → n ≤ l.length ∧ ∀ more, rest x (l.take n ++ more) = .ok n

/-- Cut off blocks, so many at most. -/
def cutFrom (head : Head α ε) : Nat → List α → Except ε (List (List α))
  | 0, _ => .ok []
  | _ + 1, [] => .ok []
  | fuel + 1, x :: l =>
      head.rest x l >>= fun n => (cutFrom head fuel (l.drop n)).map fun blocks => (x :: l.take n) :: blocks

/-- A list has no more blocks than elements. -/
def cut (head : Head α ε) (l : List α) : Except ε (List (List α)) := cutFrom head l.length l

def IsBlock (head : Head α ε) (block : List α) : Prop :=
  ∃ x l, block = x :: l ∧ head.rest x l = .ok l.length

variable {head : Head α ε} {l : List α} {blocks : List (List α)}

/-- What is cut are blocks, and together the list. -/
theorem cutFrom_spec {fuel : Nat} (hfuel : l.length ≤ fuel) (h : cutFrom head fuel l = .ok blocks) :
    blocks.flatten = l ∧ ∀ block ∈ blocks, IsBlock head block := by
  induction fuel generalizing l blocks with
  | zero =>
      obtain rfl := List.length_eq_zero_iff.mp (Nat.le_zero.mp hfuel)
      cases h
      exact ⟨rfl, fun block hmem => absurd hmem List.not_mem_nil⟩
  | succ fuel ih =>
      cases l with
      | nil =>
          cases h
          exact ⟨rfl, fun block hmem => absurd hmem List.not_mem_nil⟩
      | cons x l =>
          obtain ⟨n, hn, h⟩ := except_bind_eq_ok.mp h
          obtain ⟨more, hmore, rfl⟩ := except_map_eq_ok.mp h
          obtain ⟨hle, hnear⟩ := head.near hn
          have hshort : (l.drop n).length ≤ fuel := by
            rw [List.length_drop]
            rw [List.length_cons] at hfuel
            omega
          obtain ⟨hflatten, hblocks⟩ := ih hshort hmore
          refine ⟨?_, ?_⟩
          · rw [List.flatten_cons, hflatten, List.cons_append, List.take_append_drop]
          · intro block hmem
            rcases List.mem_cons.mp hmem with rfl | hmem
            · refine ⟨x, l.take n, rfl, ?_⟩
              rw [List.length_take, Nat.min_eq_left hle]
              have hself := hnear []
              rwa [List.append_nil] at hself
            · exact hblocks block hmem

theorem cutFrom_flatten {fuel : Nat} (hblocks : ∀ block ∈ blocks, IsBlock head block)
    (hfuel : blocks.flatten.length ≤ fuel) : cutFrom head fuel blocks.flatten = .ok blocks := by
  induction blocks generalizing fuel with
  | nil => cases fuel <;> rfl
  | cons block blocks ih =>
      obtain ⟨x, l, rfl, hrest⟩ := hblocks block List.mem_cons_self
      rw [List.flatten_cons, List.cons_append] at hfuel ⊢
      rw [List.length_cons, List.length_append] at hfuel
      cases fuel with
      | zero => omega
      | succ fuel =>
          have hnear := (head.near hrest).2 blocks.flatten
          rw [List.take_length] at hnear
          have hmore : cutFrom head fuel blocks.flatten = .ok blocks :=
            ih (fun b hb => hblocks b (List.mem_cons_of_mem _ hb)) (by omega)
          refine except_bind_eq_ok.mpr ⟨_, hnear, except_map_eq_ok.mpr ⟨blocks, ?_, ?_⟩⟩
          · rw [List.drop_left]
            exact hmore
          · rw [List.take_left]

/-- A list has one division into blocks, if any. -/
theorem cut_eq_ok_iff :
    cut head l = .ok blocks ↔ blocks.flatten = l ∧ ∀ block ∈ blocks, IsBlock head block := by
  constructor
  · exact cutFrom_spec (Nat.le_refl _)
  · rintro ⟨rfl, hblocks⟩
    exact cutFrom_flatten hblocks (Nat.le_refl _)

/-- Where blocks are taken out and one is put in, the others stay as they were. -/
theorem cut_replace {block : List α} (h : cut head l = .ok blocks) (hblock : IsBlock head block) (i j : Nat) :
    cut head ((blocks.take i).flatten ++ block ++ (blocks.drop j).flatten) =
      .ok (blocks.take i ++ block :: blocks.drop j) := by
  obtain ⟨-, hblocks⟩ := cut_eq_ok_iff.mp h
  refine cut_eq_ok_iff.mpr ⟨?_, ?_⟩
  · rw [List.flatten_append, List.flatten_cons, List.append_assoc]
  · intro b hb
    rcases List.mem_append.mp hb with hb | hb
    · exact hblocks b (List.mem_of_mem_take hb)
    · rcases List.mem_cons.mp hb with rfl | hb
      · exact hblock
      · exact hblocks b (List.mem_of_mem_drop hb)

end Ramulator.Lib.Blocks
