/-
# Ramulator.Frontend.SimpleO3Sets — the sets of the SimpleO3 cache and its MSHRs.

Every line of a set lies where its address says, no two lines of a set have the same tag, and the lines
that are not ready are those for which there is an MSHR. The operations on a set are removal of a line
that is ready, insertion of one, writing to one, and the arrival of a line that was waited for; hits,
misses and evictions are made of these.
-/
import Ramulator.Frontend.SimpleO3LLC
import Mathlib.Data.List.Nodup

namespace Ramulator.Frontend.O3

open Ramulator.Lib

/-! ## Addresses -/

namespace LLCConfig

/-- Two addresses are in one line if they agree in index and tag. -/
theorem align_eq_iff (cfg : LLCConfig) (a b : Int) :
    cfg.align a = cfg.align b ↔ cfg.getIndex a = cfg.getIndex b ∧ cfg.getTag a = cfg.getTag b := by
  have htag : ∀ x, cfg.getTag x = (x >>> cfg.lineBits) / 2 ^ cfg.setBits := by
    intro x
    unfold getTag
    rw [Nat.add_comm, Int.shiftRight_add, Int.shiftRight_eq_div_pow]
    norm_cast
  have hline : cfg.align a = cfg.align b ↔ a >>> cfg.lineBits = b >>> cfg.lineBits := by
    unfold align
    have hpos : (2 ^ cfg.lineBits : Int) ≠ 0 := pow_ne_zero _ two_ne_zero
    exact mul_left_inj' hpos
  rw [hline, htag, htag]
  unfold getIndex
  constructor
  · intro h
    rw [h]
    exact ⟨rfl, rfl⟩
  · rintro ⟨hindex, hquot⟩
    calc a >>> cfg.lineBits
        = 2 ^ cfg.setBits * (a >>> cfg.lineBits / 2 ^ cfg.setBits) + a >>> cfg.lineBits % 2 ^ cfg.setBits :=
          (Int.mul_ediv_add_emod _ _).symm
      _ = 2 ^ cfg.setBits * (b >>> cfg.lineBits / 2 ^ cfg.setBits) + b >>> cfg.lineBits % 2 ^ cfg.setBits := by
          rw [hindex, hquot]
      _ = b >>> cfg.lineBits := Int.mul_ediv_add_emod _ _

end LLCConfig

/-! ## One set -/

/-- The lines of the set of an index, given the next number of a line. -/
structure SetShape (cfg : LLCConfig) (next : Nat) (index : Int) (set : List Line) : Prop where
  placed : ∀ l ∈ set, cfg.getIndex l.addr = index ∧ l.tag = cfg.getTag l.addr
  tags : (set.map (·.tag)).Nodup
  nodes : (set.map (·.node)).Nodup
  ways : set.length ≤ cfg.associativity
  fresh : ∀ l ∈ set, l.node < next

/-- Writing to lines, without moving them. -/
theorem SetShape.map {cfg : LLCConfig} {next : Nat} {index : Int} {set : List Line} {f : Line → Line}
    (h : SetShape cfg next index set)
    (hf : ∀ l, (f l).node = l.node ∧ (f l).addr = l.addr ∧ (f l).tag = l.tag) :
    SetShape cfg next index (set.map f) where
  placed := by
    intro l hl
    obtain ⟨l₀, hl₀, rfl⟩ := List.mem_map.mp hl
    rw [(hf l₀).2.1, (hf l₀).2.2]
    exact h.placed l₀ hl₀
  tags := by
    rw [List.map_map]
    exact (congrArg List.Nodup (List.map_congr_left fun l _ => (hf l).2.2)).mpr h.tags
  nodes := by
    rw [List.map_map]
    exact (congrArg List.Nodup (List.map_congr_left fun l _ => (hf l).1)).mpr h.nodes
  ways := by
    rw [List.length_map]
    exact h.ways
  fresh := by
    intro l hl
    obtain ⟨l₀, hl₀, rfl⟩ := List.mem_map.mp hl
    rw [(hf l₀).1]
    exact h.fresh l₀ hl₀

/-- The lines that are not ready are those with an MSHR. -/
structure SetOk (cfg : LLCConfig) (mshrs : List (Int × Nat)) (next : Nat) (index : Int)
    (set : List Line) : Prop extends SetShape cfg next index set where
  waiting : ∀ m : Int × Nat, m ∈ mshrs ∧ cfg.getIndex m.1 = index ↔
    ∃ l ∈ set, l.addr = m.1 ∧ l.node = m.2 ∧ l.ready = false

namespace SetOk

variable {cfg : LLCConfig} {mshrs : List (Int × Nat)} {next : Nat} {index : Int} {set : List Line}

theorem eq_of_node {l l' : Line} (h : SetOk cfg mshrs next index set) (hl : l ∈ set) (hl' : l' ∈ set)
    (heq : l.node = l'.node) : l = l' := List.inj_on_of_nodup_map h.nodes hl hl' heq

/-- A line that is ready leaves. -/
theorem remove {line : Line} (h : SetOk cfg mshrs next index set) (hline : line ∈ set)
    (hready : line.ready = true) : SetOk cfg mshrs next index (set.filter (·.node ≠ line.node)) where
  placed := fun l hl => h.placed l (List.mem_of_mem_filter hl)
  tags := h.tags.sublist (List.filter_sublist.map _)
  nodes := h.nodes.sublist (List.filter_sublist.map _)
  ways := (List.length_filter_le _ _).trans h.ways
  fresh := fun l hl => h.fresh l (List.mem_of_mem_filter hl)
  waiting := by
    intro m
    rw [h.waiting m]
    constructor
    · rintro ⟨l, hl, haddr, hnode, hno⟩
      refine ⟨l, List.mem_filter.mpr ⟨hl, ?_⟩, haddr, hnode, hno⟩
      -- the line that leaves is ready, this one is not
      refine decide_eq_true fun heq => ?_
      rw [h.eq_of_node hl hline heq, hready] at hno
      cases hno
    · rintro ⟨l, hl, hrest⟩
      exact ⟨l, List.mem_of_mem_filter hl, hrest⟩

theorem length_remove_lt {line : Line} (h : SetOk cfg mshrs next index set) (hline : line ∈ set) :
    (set.filter (·.node ≠ line.node)).length < cfg.associativity := by
  refine lt_of_lt_of_le (List.length_filter_lt_length_iff_exists.mpr ⟨line, hline, ?_⟩) h.ways
  simp

/-- The tag of a line that has left is not in the set. -/
theorem tag_not_mem_remove {line : Line} (h : SetOk cfg mshrs next index set) (hline : line ∈ set) :
    ∀ l ∈ set.filter (·.node ≠ line.node), l.tag ≠ line.tag := by
  intro l hl heq
  obtain ⟨hmem, hne⟩ := List.mem_filter.mp hl
  have hsame := List.inj_on_of_nodup_map h.tags hmem hline heq
  exact of_decide_eq_true hne (congrArg Line.node hsame)

/-- A new line, ready or waited for, if its tag is not there. -/
theorem insert {addr : Int} {dirty : Bool} (ready : Bool)
    (h : SetOk cfg mshrs next (cfg.getIndex addr) set)
    (hroom : set.length < cfg.associativity) (htag : ∀ l ∈ set, l.tag ≠ cfg.getTag addr) :
    SetOk cfg (if ready then mshrs else mshrs ++ [(addr, next)]) (next + 1) (cfg.getIndex addr)
      (set ++ [⟨next, addr, cfg.getTag addr, dirty, ready⟩]) where
  placed := by
    intro l hl
    rcases List.mem_append.mp hl with hl | hl
    · exact h.placed l hl
    · rw [List.mem_singleton.mp hl]
      exact ⟨rfl, rfl⟩
  tags := by
    rw [List.map_append]
    refine List.nodup_append'.mpr ⟨h.tags, List.nodup_singleton _, ?_⟩
    intro t ht ht'
    obtain ⟨l, hl, rfl⟩ := List.mem_map.mp ht
    exact htag l hl (List.mem_singleton.mp ht')
  nodes := by
    rw [List.map_append]
    refine List.nodup_append'.mpr ⟨h.nodes, List.nodup_singleton _, ?_⟩
    intro n hn hn'
    obtain ⟨l, hl, rfl⟩ := List.mem_map.mp hn
    exact absurd (List.mem_singleton.mp hn') (h.fresh l hl).ne
  ways := by
    rw [List.length_append]
    exact hroom
  fresh := by
    intro l hl
    rcases List.mem_append.mp hl with hl | hl
    · exact (h.fresh l hl).trans (Nat.lt_succ_self next)
    · rw [List.mem_singleton.mp hl]
      exact Nat.lt_succ_self next
  waiting := by
    intro m
    have hold := h.waiting m
    cases ready with
    | true =>
        rw [if_pos rfl, hold]
        constructor
        · rintro ⟨l, hl, hrest⟩
          exact ⟨l, List.mem_append_left _ hl, hrest⟩
        · rintro ⟨l, hl, haddr, hnode, hno⟩
          rcases List.mem_append.mp hl with hl | hl
          · exact ⟨l, hl, haddr, hnode, hno⟩
          · rw [List.mem_singleton.mp hl] at hno
            cases hno
    | false =>
        rw [if_neg Bool.false_ne_true]
        constructor
        · rintro ⟨hm, hindex⟩
          rcases List.mem_append.mp hm with hm | hm
          · obtain ⟨l, hl, hrest⟩ := hold.mp ⟨hm, hindex⟩
            exact ⟨l, List.mem_append_left _ hl, hrest⟩
          · rw [List.mem_singleton.mp hm]
            exact ⟨_, List.mem_append_right _ (List.mem_singleton_self _), rfl, rfl, rfl⟩
        · rintro ⟨l, hl, haddr, hnode, hno⟩
          rcases List.mem_append.mp hl with hl | hl
          · obtain ⟨hm, hindex⟩ := hold.mpr ⟨l, hl, haddr, hnode, hno⟩
            exact ⟨List.mem_append_left _ hm, hindex⟩
          · rw [List.mem_singleton.mp hl] at haddr hnode
            have hm : m = (addr, next) := Prod.ext haddr.symm hnode.symm
            rw [hm]
            exact ⟨List.mem_append_right _ (List.mem_singleton_self _), rfl⟩

/-- A line that was waited for arrives. -/
theorem fill {m : Int × Nat} (h : SetOk cfg mshrs next (cfg.getIndex m.1) set) (hm : m ∈ mshrs)
    (hnodup : mshrs.Nodup) :
    SetOk cfg (mshrs.erase m) next (cfg.getIndex m.1)
      (set.map fun l => if l.node = m.2 then { l with ready := true } else l) where
  toSetShape := h.toSetShape.map fun l => by split_ifs <;> exact ⟨rfl, rfl, rfl⟩
  waiting := by
    intro m'
    rw [hnodup.mem_erase_iff]
    constructor
    · rintro ⟨⟨hne, hm'⟩, hindex⟩
      obtain ⟨l, hl, haddr, hnode, hno⟩ := (h.waiting m').mp ⟨hm', hindex⟩
      have hother : l.node ≠ m.2 := by
        intro heq
        obtain ⟨l', hl', haddr', hnode', -⟩ := (h.waiting m).mp ⟨hm, rfl⟩
        have hsame := h.eq_of_node hl hl' (heq.trans hnode'.symm)
        subst hsame
        exact hne (Prod.ext (haddr.symm.trans haddr') (hnode.symm.trans hnode'))
      refine ⟨l, List.mem_map.mpr ⟨l, hl, if_neg hother⟩, haddr, hnode, hno⟩
    · rintro ⟨l, hl, haddr, hnode, hno⟩
      obtain ⟨l₀, hl₀, rfl⟩ := List.mem_map.mp hl
      by_cases hsame : l₀.node = m.2
      · rw [if_pos hsame] at hno
        cases hno
      · rw [if_neg hsame] at haddr hnode hno
        obtain ⟨hm', hindex⟩ := (h.waiting m').mpr ⟨l₀, hl₀, haddr, hnode, hno⟩
        refine ⟨⟨fun heq => hsame ?_, hm'⟩, hindex⟩
        rw [hnode, heq]

/-- Writing a dirty bit. -/
theorem mark {node : Nat} {dirty : Line → Bool} (h : SetOk cfg mshrs next index set) :
    SetOk cfg mshrs next index
      (set.map fun l => if l.node = node then { l with dirty := dirty l } else l) where
  toSetShape := h.toSetShape.map fun l => by split_ifs <;> exact ⟨rfl, rfl, rfl⟩
  waiting := by
    intro m
    rw [h.waiting m]
    constructor
    · rintro ⟨l, hl, hrest⟩
      refine ⟨_, List.mem_map_of_mem hl, ?_⟩
      split_ifs <;> exact hrest
    · rintro ⟨l, hl, hrest⟩
      obtain ⟨l₀, hl₀, rfl⟩ := List.mem_map.mp hl
      refine ⟨l₀, hl₀, ?_⟩
      split_ifs at hrest <;> exact hrest

/-- The other sets do not see a new MSHR. -/
theorem pushOther {m : Int × Nat} (h : SetOk cfg mshrs next index set)
    (hother : cfg.getIndex m.1 ≠ index) : SetOk cfg (mshrs ++ [m]) (next + 1) index set where
  toSetShape := { h.toSetShape with fresh := fun l hl => (h.fresh l hl).trans (Nat.lt_succ_self next) }
  waiting := by
    intro m'
    rw [← h.waiting m', List.mem_append, List.mem_singleton]
    constructor
    · rintro ⟨hm | rfl, hindex⟩
      · exact ⟨hm, hindex⟩
      · exact absurd hindex hother
    · rintro ⟨hm, hindex⟩
      exact ⟨.inl hm, hindex⟩

/-- Nor that one of another set is free. -/
theorem eraseOther {m : Int × Nat} (h : SetOk cfg mshrs next index set)
    (hother : cfg.getIndex m.1 ≠ index) : SetOk cfg (mshrs.erase m) next index set where
  toSetShape := h.toSetShape
  waiting := by
    intro m'
    rw [← h.waiting m']
    constructor
    · rintro ⟨hm, hindex⟩
      exact ⟨List.mem_of_mem_erase hm, hindex⟩
    · rintro ⟨hm, hindex⟩
      have hne : m' ≠ m := fun heq => hother (heq ▸ hindex)
      exact ⟨(List.mem_erase_of_ne hne).mpr hm, hindex⟩

theorem next_succ (h : SetOk cfg mshrs next index set) : SetOk cfg mshrs (next + 1) index set where
  toSetShape := { h.toSetShape with fresh := fun l hl => (h.fresh l hl).trans (Nat.lt_succ_self next) }
  waiting := h.waiting

end SetOk

/-! ## All sets -/

/-- The sets and the MSHRs. There is at most one MSHR for a line. -/
structure SetsOk (cfg : LLCConfig) (sets : Int → List Line) (next : Nat) (mshrs : List (Int × Nat)) :
    Prop where
  set : ∀ index, SetOk cfg mshrs next index (sets index)
  aligned : (mshrs.map fun m => cfg.align m.1).Nodup

namespace SetsOk

variable {cfg : LLCConfig} {sets : Int → List Line} {mshrs mshrs' : List (Int × Nat)} {next next' : Nat}

theorem update {index : Int} {set : List Line} (hothers : ∀ i ≠ index, SetOk cfg mshrs' next' i (sets i))
    (hset : SetOk cfg mshrs' next' index set) (i : Int) :
    SetOk cfg mshrs' next' i (Function.update sets index set i) := by
  by_cases hi : i = index
  · subst hi
    rw [Function.update_self]
    exact hset
  · rw [Function.update_of_ne hi]
    exact hothers i hi

theorem nodup (h : SetsOk cfg sets next mshrs) : mshrs.Nodup := List.Nodup.of_map _ h.aligned

/-- MSHRs of one line are the same. -/
theorem eq_of_align {m m' : Int × Nat} (h : SetsOk cfg sets next mshrs) (hm : m ∈ mshrs)
    (hm' : m' ∈ mshrs) (heq : cfg.align m.1 = cfg.align m'.1) : m = m' :=
  List.inj_on_of_nodup_map h.aligned hm hm' heq

theorem remove {index : Int} {line : Line} (h : SetsOk cfg sets next mshrs) (hline : line ∈ sets index)
    (hready : line.ready = true) :
    SetsOk cfg (Function.update sets index ((sets index).filter (·.node ≠ line.node))) next mshrs :=
  ⟨update (fun i _ => h.set i) ((h.set index).remove hline hready), h.aligned⟩

/-- A hit: the line is taken out and put in again at the end. -/
theorem hit {addr : Int} {line : Line} (dirty : Bool) (h : SetsOk cfg sets next mshrs)
    (hline : line ∈ sets (cfg.getIndex addr)) (hready : line.ready = true)
    (htag : line.tag = cfg.getTag addr) :
    SetsOk cfg (Function.update sets (cfg.getIndex addr)
      ((sets (cfg.getIndex addr)).filter (·.node ≠ line.node) ++
        [⟨next, addr, cfg.getTag addr, dirty, true⟩])) (next + 1) mshrs := by
  have hset := h.set (cfg.getIndex addr)
  refine ⟨update (fun i _ => (h.set i).next_succ) ?_, h.aligned⟩
  refine (hset.remove hline hready).insert true (hset.length_remove_lt hline) ?_
  rw [← htag]
  exact hset.tag_not_mem_remove hline

/-- A miss: a line without data and an MSHR for it. -/
theorem miss {addr : Int} {dirty : Bool} (h : SetsOk cfg sets next mshrs)
    (hroom : (sets (cfg.getIndex addr)).length < cfg.associativity)
    (htag : ∀ l ∈ sets (cfg.getIndex addr), l.tag ≠ cfg.getTag addr)
    (hnew : ∀ m ∈ mshrs, cfg.align m.1 ≠ cfg.align addr) :
    SetsOk cfg (Function.update sets (cfg.getIndex addr)
      (sets (cfg.getIndex addr) ++ [⟨next, addr, cfg.getTag addr, dirty, false⟩])) (next + 1)
      (mshrs ++ [(addr, next)]) := by
  refine ⟨update (fun i hi => (h.set i).pushOther hi.symm) ?_, ?_⟩
  · exact (h.set (cfg.getIndex addr)).insert false hroom htag
  · rw [List.map_append]
    refine List.nodup_append'.mpr ⟨h.aligned, List.nodup_singleton _, ?_⟩
    intro a ha ha'
    obtain ⟨m, hm, rfl⟩ := List.mem_map.mp ha
    exact hnew m hm (List.mem_singleton.mp ha')

theorem fill {m : Int × Nat} (h : SetsOk cfg sets next mshrs) (hm : m ∈ mshrs) :
    SetsOk cfg (Function.update sets (cfg.getIndex m.1)
      ((sets (cfg.getIndex m.1)).map fun l => if l.node = m.2 then { l with ready := true } else l)) next
      (mshrs.erase m) := by
  refine ⟨update (fun i hi => (h.set i).eraseOther hi.symm) ((h.set _).fill hm h.nodup), ?_⟩
  exact h.aligned.sublist (List.erase_sublist.map _)

theorem mark {index : Int} {node : Nat} {dirty : Line → Bool} (h : SetsOk cfg sets next mshrs) :
    SetsOk cfg (Function.update sets index
      ((sets index).map fun l => if l.node = node then { l with dirty := dirty l } else l)) next mshrs :=
  ⟨update (fun i _ => h.set i) (h.set index).mark, h.aligned⟩

/-- A request that misses the set and every MSHR is for a line that is not there. -/
theorem tag_of_miss {addr : Int} (h : SetsOk cfg sets next mshrs)
    (hset : LLC.checkSetHit cfg addr (sets (cfg.getIndex addr)) = none)
    (hmshr : ∀ m ∈ mshrs, cfg.align m.1 ≠ cfg.align addr) :
    ∀ l ∈ sets (cfg.getIndex addr), l.tag ≠ cfg.getTag addr := by
  intro l hl htag
  have hok := h.set (cfg.getIndex addr)
  -- the line that the search finds is the only one with this tag
  have hready : l.ready = false := by
    unfold LLC.checkSetHit at hset
    cases hfind : (sets (cfg.getIndex addr)).find? (·.tag = cfg.getTag addr) with
    | none =>
        have hno := List.find?_eq_none.mp hfind l hl
        exact absurd (decide_eq_true htag) hno
    | some l' =>
        have htag' : l'.tag = cfg.getTag addr := by simpa using List.find?_some hfind
        have hsame := List.inj_on_of_nodup_map hok.tags (List.mem_of_find?_eq_some hfind) hl
          (htag'.trans htag.symm)
        rw [hfind, hsame] at hset
        cases hr : l.ready with
        | false => rfl
        | true => simp [Option.filter, hr] at hset
  obtain ⟨hm, -⟩ := (hok.waiting (l.addr, l.node)).mpr ⟨l, hl, rfl, rfl, hready⟩
  refine hmshr _ hm ((cfg.align_eq_iff _ _).mpr ⟨(hok.placed l hl).1, ?_⟩)
  exact (hok.placed l hl).2.symm.trans htag

end SetsOk

end Ramulator.Frontend.O3
