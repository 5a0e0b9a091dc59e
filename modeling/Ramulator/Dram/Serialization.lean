/-
# Ramulator.Dram.Serialization — which declarations the serialized constraints mean.

The device takes an entry for the product of its two lists of ids. `Serialized` says that this is what
was declared: the entries of a declaration impose on each of its pairs the latency of that pair and no
larger one, and the entries of a bus keep its commands apart.

* The ids of a latency are collected over pairs, so the product may hold a pair of a smaller latency. It
  does exactly when two preceding commands differ in length by as much as two following ones,
  `expand_imposes_iff`.
* Commands of one bus never overlap, whatever their lengths, `noOverlap_of_busConstraints`.
-/
import Ramulator.Dram.Declaration

namespace Ramulator.Dram

open Ramulator.Lib

namespace DRAMStandard

/-! ## What the device reads -/

/-- The latency that a constraint declares for a pair. The nominal one is counted from the last cycle of
a command, the device counts from the first. -/
def required (cls : DRAMStandard) (tc : TimingConstraint) (nominal : ℚ) (p f : String) : ℚ :=
  if tc.sharedWindow then nominal - (cls.cycles f - 1)
  else nominal + (cls.cycles p - 1) - (cls.cycles f - 1)

/-- The entries of a constraint are of its level and kind, and they impose on each of its pairs the
declared latency and no larger one. -/
def Imposes (cls : DRAMStandard) (timing : Dict String ℚ) (tc : TimingConstraint) (entries : List Entry) : Prop :=
  ∃ nominal level, cls.evalExpr tc.latency timing = .ok nominal ∧
    item (indices cls.levels.keys) tc.level = .ok level ∧
    (∀ e ∈ entries, e.level = level ∧ e.window.getD 1 = tc.window ∧ e.sibling.getD false = tc.sibling ∧
      e.historyGroup.isSome = tc.sharedWindow) ∧
    ∀ p ∈ tc.preceding, ∀ f ∈ tc.following, ∀ i j,
      item (indices cls.commands) p = .ok i → item (indices cls.commands) f = .ok j →
      (∃ e ∈ entries, e.Names i j ∧ e.latency = cls.required tc nominal p f) ∧
      ∀ e ∈ entries, e.Names i j → e.latency ≤ cls.required tc nominal p f

/-- No two preceding commands differ in length by as much as two following ones, or the length of the
preceding commands does not count. -/
def Unmixed (cls : DRAMStandard) (tc : TimingConstraint) : Prop :=
  tc.sharedWindow = true ∨
    ∀ p ∈ tc.preceding, ∀ p' ∈ tc.preceding, ∀ f ∈ tc.following, ∀ f' ∈ tc.following,
      cls.cycles p < cls.cycles p' → cls.cycles p' - cls.cycles p ≠ cls.cycles f' - cls.cycles f

/-- Issued commands with their first ticks, oldest first, that keep the plain channel-wide entries. -/
def Spaced (cls : DRAMStandard) (entries : List Entry) (log : List (Int × String)) : Prop :=
  log.Pairwise fun a b => ∀ i j, item (indices cls.commands) a.2 = .ok i → item (indices cls.commands) b.2 = .ok j →
    ∀ e ∈ entries, e.level = 0 → e.window.getD 1 = 1 → e.sibling.getD false = false → e.historyGroup = none →
      e.Names i j → a.1 + e.latency ≤ b.1

/-- At most one command of `bus` starts in a tick. -/
def OneAtATime (bus : List String) (log : List (Int × String)) : Prop :=
  log.Pairwise fun a b => a.2 ∈ bus → b.2 ∈ bus → a.1 < b.1

/-- A command of `bus` starts when the one before is through. -/
def NoOverlap (cls : DRAMStandard) (bus : List String) (log : List (Int × String)) : Prop :=
  log.Pairwise fun a b => a.2 ∈ bus → b.2 ∈ bus → a.1 + cls.cycles a.2 ≤ b.1

/-- The configuration holds what is declared: the entries of each constraint impose it, and they keep the
commands of each bus apart. -/
def Serialized (cls : DRAMStandard) (timing : Dict String ℚ) (config : DRAMConfig) : Prop :=
  ∃ ticks bus parts, cls.tickTimings timing = .ok ticks ∧ cls.busConstraints = .ok bus ∧
    cls.expandAll ticks 0 cls.timingConstraints = .ok parts ∧
    config.timingConstraints = bus ++ parts.flatten ∧
    List.Forall₂ (cls.Imposes ticks) cls.timingConstraints parts ∧
    ∀ b ∈ cls.buses, ∀ log, cls.Spaced config.timingConstraints log → OneAtATime b log → cls.NoOverlap b log

/-! ## Ids -/

section Ids

variable {names : List String} {name name' : String} {i : Nat}

theorem raiseIf_eq_ok {c : Prop} [Decidable c] {e : DeclarationError} : raiseIf c e = .ok () ↔ ¬ c := by
  unfold raiseIf
  split <;> simp [*]

theorem item_eq_ok {α : Type} {d : Dict String α} {key : String} {v : α} :
    item d key = .ok v ↔ d.lookup key = some v := by
  unfold item
  cases d.lookup key <;> simp

/-- The id of a name is a place where the name stands. -/
theorem getElem?_of_item (h : item (indices names) name = .ok i) : names[i]? = some name := by
  have hmem := mem_of_lookup (item_eq_ok.mp h)
  obtain ⟨⟨x, hx, hname⟩, hfold⟩ := Dict.mem_accumulate.mp hmem
  set own := names.zipIdx.filter fun x => x.1 == name
  have hown : x ∈ own := List.mem_filter.mpr ⟨hx, beq_iff_eq.mpr hname⟩
  obtain ⟨l, y, hl⟩ : ∃ l y, own = l ++ [y] :=
    (List.eq_nil_or_concat' own).resolve_left (List.ne_nil_of_mem hown)
  have hy : y ∈ own := by
    rw [hl]
    exact List.mem_append_right _ List.mem_cons_self
  obtain ⟨hzip, hyname⟩ := List.mem_filter.mp hy
  have hlast : y.2 = i := by
    rw [hl, List.foldl_append] at hfold
    exact hfold
  rw [← hlast, ← beq_iff_eq.mp hyname]
  exact List.mk_mem_zipIdx_iff_getElem?.mp hzip

/-- Two names have different ids. -/
theorem item_inj (h : item (indices names) name = .ok i) (h' : item (indices names) name' = .ok i) :
    name = name' := by
  have hname := getElem?_of_item h
  rw [getElem?_of_item h'] at hname
  exact (Option.some.inj hname).symm

end Ids

/-! ## The entries of one constraint -/

section Constraint

variable {cls : DRAMStandard} {timing : Dict String ℚ} {tc : TimingConstraint} {nominal : ℚ} {group : Nat}
  {ps : List (ℚ × Nat × Nat)} {entries : List Entry} {p f : String} {i j : Nat}

theorem mem_addId {ids : List Nat} {x : Nat} : x ∈ addId ids i ↔ x ∈ ids ∨ x = i := by
  unfold addId
  split
  · next hi => exact ⟨.inl, fun h => h.elim id fun h => h ▸ hi⟩
  · rw [List.mem_append, List.mem_singleton]

/-- The ids of a group are those of its pairs. -/
theorem mem_foldl_addId (xs : List (ℚ × Nat × Nat)) :
    let ids := xs.foldl (fun (ids : List Nat × List Nat) x => (addId ids.1 x.2.1, addId ids.2 x.2.2)) ([], [])
    (i ∈ ids.1 ↔ ∃ x ∈ xs, x.2.1 = i) ∧ (j ∈ ids.2 ↔ ∃ x ∈ xs, x.2.2 = j) := by
  induction xs using List.reverseRecOn with
  | nil => simp
  | append_singleton xs x ih =>
      have hsnoc : ∀ P : ℚ × Nat × Nat → Prop, (∃ y ∈ xs ++ [x], P y) ↔ (∃ y ∈ xs, P y) ∨ P x := by
        intro P
        simp only [List.mem_append, List.mem_singleton, or_and_right, exists_or, exists_eq_left]
      rw [List.foldl_append, hsnoc, hsnoc, ← ih.1, ← ih.2, eq_comm (b := i), eq_comm (b := j)]
      exact ⟨mem_addId, mem_addId⟩

/-- An entry names the ids that occur on either side of the pairs of its latency. -/
theorem mem_latGroups {e : ℚ × List Nat × List Nat} (he : e ∈ latGroups ps) :
    (i ∈ e.2.1 ↔ ∃ x ∈ ps, x.1 = e.1 ∧ x.2.1 = i) ∧ (j ∈ e.2.2 ↔ ∃ x ∈ ps, x.1 = e.1 ∧ x.2.2 = j) := by
  obtain ⟨-, hfold⟩ := Dict.mem_accumulate.mp he
  have hids := mem_foldl_addId (i := i) (j := j) (ps.filter fun x => x.1 == e.1)
  rw [hfold] at hids
  simpa only [List.mem_filter, beq_iff_eq, and_assoc] using hids

theorem exists_latGroup {x : ℚ × Nat × Nat} (hx : x ∈ ps) : ∃ ids, (x.1, ids) ∈ latGroups ps :=
  ⟨_, mem_of_lookup (Dict.lookup_accumulate_of_mem hx)⟩

/-- The pairs of a constraint. -/
theorem mem_pairs (h : cls.pairs tc nominal = .ok ps) {x : ℚ × Nat × Nat} :
    x ∈ ps ↔ ∃ p ∈ tc.preceding, ∃ f ∈ tc.following, item (indices cls.commands) p = .ok x.2.1 ∧
      item (indices cls.commands) f = .ok x.2.2 ∧ cls.adjusted tc nominal p f = x.1 := by
  unfold pairs at h
  rw [mem_of_mapM h]
  constructor
  · rintro ⟨⟨p, f⟩, hpf, hx⟩
    obtain ⟨p', hp, hf⟩ := List.mem_flatMap.mp hpf
    obtain ⟨f', hf', heq⟩ := List.mem_map.mp hf
    obtain ⟨rfl, rfl⟩ := Prod.mk.inj heq
    obtain ⟨i, hi, hx⟩ := except_bind_eq_ok.mp hx
    obtain ⟨j, hj, hx⟩ := except_bind_eq_ok.mp hx
    cases hx
    exact ⟨p', hp, f', hf', hi, hj, rfl⟩
  · rintro ⟨p, hp, f, hf, hi, hj, hlat⟩
    obtain ⟨lat, i, j⟩ := x
    refine ⟨(p, f), List.mem_flatMap.mpr ⟨p, hp, List.mem_map_of_mem hf⟩, ?_⟩
    refine except_bind_eq_ok.mpr ⟨i, hi, except_bind_eq_ok.mpr ⟨j, hj, ?_⟩⟩
    rw [hlat]
    rfl

/-- The entry of a latency names a pair when either command has that latency with some command of the
other side. -/
theorem exists_entry_iff (h : cls.pairs tc nominal = .ok ps) (hp : p ∈ tc.preceding) (hf : f ∈ tc.following)
    (hi : item (indices cls.commands) p = .ok i) (hj : item (indices cls.commands) f = .ok j) (level group : Nat)
    (lat : ℚ) :
    (∃ e ∈ (latGroups ps).map fun g => entryOf tc level group g.1 g.2, e.Names i j ∧ e.latency = lat) ↔
      (∃ f' ∈ tc.following, (∃ j', item (indices cls.commands) f' = .ok j') ∧ cls.adjusted tc nominal p f' = lat) ∧
        ∃ p' ∈ tc.preceding, (∃ i', item (indices cls.commands) p' = .ok i') ∧ cls.adjusted tc nominal p' f = lat := by
  constructor
  · rintro ⟨e, he, ⟨hei, hej⟩, rfl⟩
    obtain ⟨g, hg, rfl⟩ := List.mem_map.mp he
    have hej : j ∈ g.2.2 := (List.mem_insertionSort _).mp hej
    obtain ⟨x, hx, hlat, hxi⟩ := ((mem_latGroups hg (j := j)).1).mp hei
    obtain ⟨y, hy, hlat', hyj⟩ := ((mem_latGroups hg (i := i)).2).mp hej
    obtain ⟨p₁, -, f₁, hf₁, hi₁, hj₁, hadj₁⟩ := (mem_pairs h).mp hx
    obtain ⟨p₂, hp₂, f₂, -, hi₂, hj₂, hadj₂⟩ := (mem_pairs h).mp hy
    rw [hxi] at hi₁
    rw [hyj] at hj₂
    obtain rfl := item_inj hi hi₁
    obtain rfl := item_inj hj hj₂
    exact ⟨⟨f₁, hf₁, ⟨_, hj₁⟩, hadj₁.trans hlat⟩, p₂, hp₂, ⟨_, hi₂⟩, hadj₂.trans hlat'⟩
  · rintro ⟨⟨f', hf', ⟨j', hj'⟩, hadj⟩, p', hp', ⟨i', hi'⟩, hadj'⟩
    have hx : (lat, i, j') ∈ ps := (mem_pairs h).mpr ⟨p, hp, f', hf', hi, hj', hadj⟩
    have hy : (lat, i', j) ∈ ps := (mem_pairs h).mpr ⟨p', hp', f, hf, hi', hj, hadj'⟩
    obtain ⟨ids, hg⟩ := exists_latGroup hx
    refine ⟨_, List.mem_map_of_mem hg, ⟨?_, ?_⟩, rfl⟩
    · exact ((mem_latGroups hg (j := j)).1).mpr ⟨_, hx, rfl, rfl⟩
    · exact (List.mem_insertionSort _).mpr (((mem_latGroups hg (i := i)).2).mpr ⟨_, hy, rfl, rfl⟩)

/-- What the code computes for a pair is what is declared for it. -/
theorem adjusted_eq_required (p f : String) : cls.adjusted tc nominal p f = cls.required tc nominal p f := by
  unfold adjusted required
  dsimp only
  rw [Int.cast_sub, Int.cast_sub, Int.cast_one]

theorem required_of_not_shared (h : ¬ tc.sharedWindow = true) (p f : String) :
    cls.required tc nominal p f = nominal + (cls.cycles p - 1) - (cls.cycles f - 1) := if_neg h

theorem required_of_shared (h : tc.sharedWindow = true) (p f : String) :
    cls.required tc nominal p f = nominal - (cls.cycles f - 1) := if_pos h

theorem entryOf_kind (tc : TimingConstraint) (level group : Nat) (lat : ℚ) (ids : List Nat × List Nat) :
    (entryOf tc level group lat ids).level = level ∧
      (entryOf tc level group lat ids).window.getD 1 = tc.window ∧
      (entryOf tc level group lat ids).sibling.getD false = tc.sibling ∧
      (entryOf tc level group lat ids).historyGroup.isSome = tc.sharedWindow := by
  refine ⟨rfl, ?_, ?_, ?_⟩
  · unfold entryOf
    dsimp only
    split
    · rfl
    · next h => exact (not_ne_iff.mp fun hw => h (.inl hw)).symm
  · unfold entryOf
    dsimp only
    split
    · rfl
    · next h => exact (Bool.not_eq_true _ ▸ fun hs => h (.inl hs) : tc.sibling = false).symm
  · unfold entryOf
    cases tc.sharedWindow <;> rfl

/-- **The entries of a constraint impose it exactly when its lengths are not mixed.** -/
theorem expand_imposes_iff (h : cls.expand timing group tc = .ok entries) :
    cls.Imposes timing tc entries ↔ cls.Unmixed tc := by
  obtain ⟨nominal, hnominal, h⟩ := except_bind_eq_ok.mp h
  obtain ⟨level, hlevel, h⟩ := except_bind_eq_ok.mp h
  obtain ⟨ps, hps, h⟩ := except_bind_eq_ok.mp h
  cases h
  have hids : ∀ p ∈ tc.preceding, ∀ f ∈ tc.following, (∃ i, item (indices cls.commands) p = .ok i) ∧
      ∃ j, item (indices cls.commands) f = .ok j := by
    intro p hp f hf
    obtain ⟨⟨lat, i, j⟩, -, hx⟩ := exists_of_mem_left (mapM_ok.mp hps)
      (List.mem_flatMap.mpr ⟨p, hp, List.mem_map_of_mem hf⟩)
    obtain ⟨i, hi, hx⟩ := except_bind_eq_ok.mp hx
    obtain ⟨j, hj, -⟩ := except_bind_eq_ok.mp hx
    exact ⟨⟨i, hi⟩, j, hj⟩
  constructor
  · rintro ⟨nominal', level', hnominal', -, -, himposes⟩
    obtain rfl := Except.ok.inj (hnominal.symm.trans hnominal')
    unfold Unmixed
    rw [or_iff_not_imp_left]
    intro hshared p hp p' hp' f hf f' hf' hlt hdiff
    obtain ⟨⟨i, hi⟩, j, hj⟩ := hids p hp f' hf'
    -- the short preceding and the long following command both have the latency of equal offsets
    have hsame : cls.required tc nominal p' f' = cls.required tc nominal p f := by
      have hcast : (cls.cycles p' - cls.cycles p : ℚ) = cls.cycles f' - cls.cycles f := by exact_mod_cast hdiff
      rw [required_of_not_shared hshared, required_of_not_shared hshared]
      linarith
    obtain ⟨e, he, hnames, hlat⟩ := (exists_entry_iff hps hp hf' hi hj level group
      (cls.required tc nominal p f)).mpr
      ⟨⟨f, hf, (hids p hp f hf).2, adjusted_eq_required p f⟩,
        p', hp', (hids p' hp' f' hf').1, (adjusted_eq_required p' f').trans hsame⟩
    have hle := (himposes p hp f' hf' i j hi hj).2 e he hnames
    have hcast : (cls.cycles p : ℚ) < cls.cycles p' := by exact_mod_cast hlt
    have hdiff : (cls.cycles p' - cls.cycles p : ℚ) = cls.cycles f' - cls.cycles f := by exact_mod_cast hdiff
    rw [hlat, required_of_not_shared hshared, required_of_not_shared hshared] at hle
    linarith
  · intro hunmixed
    refine ⟨nominal, level, hnominal, hlevel, ?_, ?_⟩
    · intro e he
      obtain ⟨g, -, rfl⟩ := List.mem_map.mp he
      exact entryOf_kind tc level group g.1 g.2
    · intro p hp f hf i j hi hj
      refine ⟨(exists_entry_iff hps hp hf hi hj level group _).mpr
        ⟨⟨f, hf, ⟨j, hj⟩, adjusted_eq_required p f⟩, p, hp, ⟨i, hi⟩, adjusted_eq_required p f⟩, ?_⟩
      intro e he hnames
      obtain ⟨⟨f', hf', -, hadj⟩, p', hp', -, hadj'⟩ :=
        (exists_entry_iff hps hp hf hi hj level group e.latency).mp ⟨e, he, hnames, rfl⟩
      rw [adjusted_eq_required] at hadj hadj'
      by_cases hshared : tc.sharedWindow = true
      · -- the latency belongs to the following command alone
        rw [← hadj', required_of_shared hshared, required_of_shared hshared]
      · have hlengths := hunmixed.resolve_left hshared p hp p' hp' f' hf' f hf
        rw [required_of_not_shared hshared] at hadj hadj' ⊢
        by_contra hlt
        have hlonger : (cls.cycles p : ℚ) < cls.cycles p' := by linarith
        have hdiff : (cls.cycles p' - cls.cycles p : ℚ) = cls.cycles f - cls.cycles f' := by linarith
        exact hlengths (by exact_mod_cast hlonger) (by exact_mod_cast hdiff)

end Constraint

/-! ## All constraints -/

section All

variable {cls : DRAMStandard} {timing ticks : Dict String ℚ} {tcs : List TimingConstraint} {group : Nat}
  {parts : List (List Entry)} {entries bus : List Entry} {b : List String} {p f : String}
  {log : List (Int × String)}

theorem expandAll_forall₂ (h : cls.expandAll timing group tcs = .ok parts) :
    List.Forall₂ (fun tc entries => ∃ g, cls.expand timing g tc = .ok entries) tcs parts := by
  induction tcs generalizing group parts with
  | nil =>
      cases h
      exact .nil
  | cons tc tcs ih =>
      obtain ⟨entries, hentries, h⟩ := except_bind_eq_ok.mp h
      obtain ⟨rest, hrest, h⟩ := except_bind_eq_ok.mp h
      cases h
      exact .cons ⟨group, hentries⟩ (ih hrest)

/-- The parts impose their constraints exactly when none of the constraints is mixed. -/
theorem forall₂_imposes_iff (h : cls.expandAll timing group tcs = .ok parts) :
    List.Forall₂ (cls.Imposes timing) tcs parts ↔ ∀ tc ∈ tcs, cls.Unmixed tc := by
  have hparts := expandAll_forall₂ h
  clear h
  induction hparts with
  | nil => exact ⟨fun _ _ htc => absurd htc List.not_mem_nil, fun _ => .nil⟩
  | @cons tc entries tcs parts hentries _ ih =>
      obtain ⟨g, hg⟩ := hentries
      rw [List.forall₂_cons, List.forall_mem_cons]
      exact and_congr (expand_imposes_iff hg) ih

/-! ## Buses -/

theorem foldl_snoc {α : Type} (l : List α) : l.foldl (fun xs x => xs ++ [x]) [] = l := by
  induction l using List.reverseRecOn with
  | nil => rfl
  | append_singleton l x ih =>
      rw [List.foldl_append, ih]
      rfl

/-- A command of more or less than one tick has an entry that holds back every command of its bus. -/
theorem exists_busEntry (h : cls.busEntries b = .ok entries) (hp : p ∈ b) (hf : f ∈ b) (hp1 : cls.cycles p ≠ 1) :
    ∃ i j, item (indices cls.commands) p = .ok i ∧ item (indices cls.commands) f = .ok j ∧
      ∃ e ∈ entries, e.level = 0 ∧ e.window = none ∧ e.sibling = none ∧ e.historyGroup = none ∧
        e.Names i j ∧ e.latency = cls.cycles p := by
  obtain ⟨all, hall, h⟩ := except_bind_eq_ok.mp h
  obtain ⟨j, hj, hfj⟩ := exists_of_mem_left (mapM_ok.mp hall) hf
  have hgroup : (cls.cycles p, b.filter fun q => cls.cycles q == cls.cycles p) ∈ cls.cycleGroups b := by
    have hlookup : (cls.cycleGroups b).lookup (cls.cycles p) = some _ := Dict.lookup_accumulate_of_mem hp
    rw [foldl_snoc] at hlookup
    exact mem_of_lookup hlookup
  obtain ⟨e, he, hentry⟩ := exists_of_mem_left (mapM_ok.mp h)
    (List.mem_filter.mpr ⟨hgroup, decide_eq_true hp1⟩)
  obtain ⟨pIds, hpIds, hentry⟩ := except_bind_eq_ok.mp hentry
  obtain ⟨i, hi, hpi⟩ := exists_of_mem_left (mapM_ok.mp hpIds)
    (List.mem_filter.mpr ⟨hp, beq_self_eq_true (cls.cycles p)⟩)
  cases hentry
  exact ⟨i, j, hpi, hfj, _, he, rfl, rfl, rfl, rfl, ⟨hi, (List.mem_insertionSort _).mpr hj⟩, rfl⟩

/-- **Commands of one bus never overlap.** -/
theorem noOverlap_of_busConstraints (h : cls.busConstraints = .ok bus) (hb : b ∈ cls.buses)
    (hentries : ∀ e ∈ bus, e ∈ entries) (hspaced : cls.Spaced entries log) (hone : OneAtATime b log) :
    cls.NoOverlap b log := by
  obtain ⟨parts, hparts, rfl⟩ := except_map_eq_ok.mp h
  obtain ⟨own, hown, hbus⟩ := exists_of_mem_left (mapM_ok.mp hparts) hb
  refine (hspaced.and hone).imp ?_
  rintro ⟨t, p⟩ ⟨t', f⟩ ⟨hspace, hlt⟩ hp hf
  by_cases hp1 : cls.cycles p = 1
  · -- one tick: the next command is a tick later
    have hlt := hlt hp hf
    dsimp only at hlt ⊢
    omega
  · obtain ⟨i, j, hi, hj, e, he, hlevel, hwindow, hsibling, hgroup, hnames, hlatency⟩ :=
      exists_busEntry hbus hp hf hp1
    have hle := hspace i j hi hj e (hentries e (List.mem_flatten.mpr ⟨own, hown, he⟩)) hlevel
      (by rw [hwindow]; rfl) (by rw [hsibling]; rfl) hgroup hnames
    rw [hlatency] at hle
    exact_mod_cast hle

/-! ## The configuration -/

/-- The parts of a configuration that the constraints come from. -/
theorem toConfig_eq_ok {orgPreset : String} {org : Dict String Int} {config : DRAMConfig}
    (h : cls.toConfig orgPreset org timing = .ok config) :
    ∃ ticks bus parts, cls.tickTimings timing = .ok ticks ∧ cls.busConstraints = .ok bus ∧
      cls.expandAll ticks 0 cls.timingConstraints = .ok parts ∧
      config.timingConstraints = bus ++ parts.flatten := by
  obtain ⟨-, -, h⟩ := except_bind_eq_ok.mp h
  obtain ⟨-, -, h⟩ := except_bind_eq_ok.mp h
  obtain ⟨ticks, hticks, h⟩ := except_bind_eq_ok.mp h
  obtain ⟨parts, hparts, h⟩ := except_bind_eq_ok.mp h
  obtain ⟨bus, hbus, h⟩ := except_bind_eq_ok.mp h
  obtain ⟨counts, -, h⟩ := except_bind_eq_ok.mp h
  obtain ⟨dq, -, h⟩ := except_bind_eq_ok.mp h
  obtain ⟨timings, -, h⟩ := except_bind_eq_ok.mp h
  obtain ⟨width, -, h⟩ := except_bind_eq_ok.mp h
  obtain ⟨latency, -, h⟩ := except_bind_eq_ok.mp h
  cases h
  exact ⟨ticks, bus, parts, hticks, hbus, hparts, rfl⟩

/-- **A configuration means what was declared exactly when no constraint mixes its lengths.** The
buses are kept free in any case. -/
theorem serialized_iff_unmixed {orgPreset : String} {org : Dict String Int} {config : DRAMConfig}
    (h : cls.toConfig orgPreset org timing = .ok config) :
    cls.Serialized timing config ↔ ∀ tc ∈ cls.timingConstraints, cls.Unmixed tc := by
  obtain ⟨ticks, bus, parts, hticks, hbus, hparts, hconfig⟩ := toConfig_eq_ok h
  constructor
  · rintro ⟨ticks', -, parts', hticks', -, hparts', -, himposes, -⟩
    exact (forall₂_imposes_iff hparts').mp himposes
  · intro hunmixed
    refine ⟨ticks, bus, parts, hticks, hbus, hparts, hconfig, (forall₂_imposes_iff hparts).mpr hunmixed, ?_⟩
    intro b hb log hspaced hone
    refine noOverlap_of_busConstraints hbus hb (fun e he => ?_) hspaced hone
    rw [hconfig]
    exact List.mem_append_left _ he

end All

/-- A standard whose activations and writes take two cycles. -/
def twoCycleWrites : DRAMStandard where
  name := "TwoCycleWrites"
  levels := [("Channel", "N_A")]
  commands := ["PRE", "ACT", "RD", "WR"]
  states := ["N_A"]
  timingParams := []
  supportedRequests := [("Read", "RD"), ("Write", "WR")]
  timingConstraints := [⟨"Channel", ["PRE", "ACT"], ["RD", "WR"], "5", 1, false, false⟩]
  commandCycles := [("ACT", 2), ("WR", 2)]
  readLatency := "5"
  evalExpr := fun _ _ => .ok 5

/-- Its organization. -/
def wholeChannel : Dict String Int := [("channel_width", 64), ("dq", 8)]

/-- Its configuration: one entry for the bus, three for the constraint. -/
def twoCycleConfig : DRAMConfig where
  impl := "TwoCycleWrites"
  dq := 8
  count := [1]
  timing := []
  commandCycles := [1, 2, 1, 2]
  channelWidth := 64
  readLatency := 5
  timingConstraints :=
    [{ level := 0, preceding := [1, 3], following := [0, 1, 2, 3], latency := 2 },
      { level := 0, preceding := [0, 1], following := [2, 3], latency := 5 },
      { level := 0, preceding := [0], following := [3], latency := 4 },
      { level := 0, preceding := [1], following := [2], latency := 6 }]
  dataPayloadBytes := none

theorem toConfig_twoCycleWrites : twoCycleWrites.toConfig "small" wholeChannel [] = .ok twoCycleConfig := by
  decide +kernel

theorem serialized_iff_unmixed_small :
    twoCycleWrites.Serialized [] twoCycleConfig ↔
      ∀ tc ∈ twoCycleWrites.timingConstraints, twoCycleWrites.Unmixed tc :=
  serialized_iff_unmixed toConfig_twoCycleWrites

/-- A write after a precharge has to wait for the latency of a read. -/
theorem not_serialized_twoCycleWrites :
    twoCycleWrites.validate = .ok () ∧ twoCycleWrites.toConfig "small" wholeChannel [] = .ok twoCycleConfig ∧
      ¬ twoCycleWrites.Serialized [] twoCycleConfig := by
  refine ⟨by decide +kernel, toConfig_twoCycleWrites, ?_⟩
  rintro ⟨ticks, -, parts, -, -, hparts, -, himposes, -⟩
  have hunmixed := (forall₂_imposes_iff hparts).mp himposes _ List.mem_cons_self
  rcases hunmixed with hshared | hlengths
  · cases hshared
  · exact hlengths "PRE" (by decide) "ACT" (by decide) "RD" (by decide) "WR" (by decide)
      (by decide +kernel) (by decide +kernel)

end DRAMStandard

end Ramulator.Dram
