/-
# Ramulator.Lib.FileTree — directories and files.

A path is a list of parts from the last one up, so that the parent of a path is its tail and what lies under a
directory has the directory as a suffix. A tree of files says what there is at each path; the parent of what
there is is a directory, and the root is one.

`makeDirs`, as `mkdir(parents=True, exist_ok=True)`, makes what is missing of a path when no file stands in its
way (`makeDirs_spec`). `Populated` says that a directory holds given files and the directories on the way to
them and nothing else; `Populated.add` says what adding a file keeps.
-/
import Ramulator.Lib.Fallible
import Mathlib.Data.List.Infix
import Mathlib.Logic.Function.Basic

namespace Ramulator.Lib

/-- A name within a directory. -/
abbrev Part := List Char

/-- A path, from its last part up. -/
abbrev FilePath := List Part

inductive FileNode where
  | dir
  | file (content : List UInt8) (executable : Bool)
  deriving DecidableEq

inductive FileError where
  | exists
  | notFound
  | notADirectory
  | isADirectory
  deriving DecidableEq

/-- What there is at each path. -/
structure FileTree where
  node : FilePath → Option FileNode
  root : node [] = some .dir
  parent : ∀ {part path}, node (part :: path) ≠ none → node path = some .dir

namespace FileTree

/-! ## Changes of a tree -/

/-- Something at a path whose parent is a directory, where no directory is. -/
def put (t : FileTree) (part : Part) (path : FilePath) (n : FileNode) (hparent : t.node path = some .dir)
    (hfree : t.node (part :: path) ≠ some .dir) : FileTree where
  node := Function.update t.node (part :: path) (some n)
  root := by
    rw [Function.update_of_ne (List.cons_ne_nil part path).symm]
    exact t.root
  parent := by
    intro part' path' h
    have hkept : t.node path' = some .dir := by
      by_cases heq : part' :: path' = part :: path
      · rw [(List.cons.inj heq).2]
        exact hparent
      · rw [Function.update_of_ne heq] at h
        exact t.parent h
    have hne : path' ≠ part :: path := fun heq => hfree (heq ▸ hkept)
    rw [Function.update_of_ne hne]
    exact hkept

/-- What is put there, and nothing else, changes. -/
@[simp] theorem put_node (t : FileTree) {part : Part} {path : FilePath} {n : FileNode}
    (hparent : t.node path = some .dir) (hfree : t.node (part :: path) ≠ some .dir) :
    (t.put part path n hparent hfree).node = Function.update t.node (part :: path) (some n) := rfl

/-- Something new at a path: its parent must be a directory, and nothing may be there. -/
def add (n : FileNode) : FilePath → FileTree → Except FileError FileTree
  | [], _ => .error .exists
  | part :: path, t =>
      if hparent : t.node path = some .dir then
        if hfree : t.node (part :: path) = none then
          .ok (t.put part path n hparent (by rw [hfree]; exact Option.some_ne_none _ |>.symm))
        else .error .exists
      else if t.node path = none then .error .notFound
      else .error .notADirectory

/-- `mkdir`, of one directory. -/
def makeDir : FilePath → FileTree → Except FileError FileTree := add .dir

/-- `mkdir(parents=True, exist_ok=True)`. -/
def makeDirs : FilePath → FileTree → Except FileError FileTree
  | [], t => .ok t
  | part :: path, t =>
      match makeDir (part :: path) t with
      | .ok t => .ok t
      | .error .notFound => do
          let t ← makeDirs path t
          makeDir (part :: path) t
      | .error e => if t.node (part :: path) = some .dir then .ok t else .error e

/-- `open("xb")`: a file that was not there, and is empty. -/
def openNew : FilePath → FileTree → Except FileError FileTree := add (.file [] false)

/-- Change a file. -/
def modify (f : FileNode → FileNode) : FilePath → FileTree → FileTree
  | [], t => t
  | part :: path, t =>
      match h : t.node (part :: path) with
      | some (.file content executable) =>
          t.put part path (f (.file content executable)) (t.parent (by rw [h]; exact Option.some_ne_none _))
            (by rw [h]; exact fun heq => by cases heq)
      | _ => t

/-- `write` to an open file. -/
def write (content : List UInt8) : FilePath → FileTree → FileTree :=
  modify fun
    | .file _ executable => .file content executable
    | .dir => .dir

/-- `chmod`: whether a file is executable. -/
def chmod (executable : Bool) : FilePath → FileTree → FileTree :=
  modify fun
    | .file content _ => .file content executable
    | .dir => .dir

/-! ### What each change does -/

variable {t t' : FileTree} {part : Part} {path dest : FilePath} {n : FileNode}

/-- The path to a directory is of directories. -/
theorem dir_of_suffix {q : FilePath} (hq : q <:+ path) (h : t.node path = some .dir) : t.node q = some .dir := by
  induction path with
  | nil => rwa [List.suffix_nil.mp hq]
  | cons part path ih =>
      rcases List.suffix_cons_iff.mp hq with rfl | hq
      · exact h
      · exact ih hq (t.parent (by rw [h]; exact Option.some_ne_none _))

theorem add_spec (hparent : t.node path = some .dir) (hfree : t.node (part :: path) = none) :
    ∃ t', add n (part :: path) t = .ok t' ∧ t'.node = Function.update t.node (part :: path) (some n) := by
  unfold add
  dsimp only
  rw [dif_pos hparent, dif_pos hfree]
  exact ⟨_, rfl, rfl⟩

/-- A path is not under itself. -/
theorem not_suffix_cons (part : Part) (path : FilePath) : ¬ part :: path <:+ path := fun h => by
  have hlength := h.length_le
  rw [List.length_cons] at hlength
  omega

/-- Where no file stands in the way, the path is made, and nothing else changes. The induction follows the
path up, as the calls do. -/
theorem makeDirs_spec (h : ∀ q, q <:+ path → ∀ content executable, t.node q ≠ some (.file content executable)) :
    ∃ t', makeDirs path t = .ok t' ∧ ∀ q, t'.node q = if q <:+ path then some .dir else t.node q := by
  induction path with
  | nil =>
      refine ⟨t, rfl, fun q => ?_⟩
      split_ifs with hq
      · rw [List.suffix_nil.mp hq]
        exact t.root
      · rfl
  | cons part path ih =>
      have hpath : ∀ q, q <:+ path → ∀ content executable, t.node q ≠ some (.file content executable) :=
        fun q hq => h q (hq.trans (List.suffix_cons part path))
      have hself := h (part :: path) (List.suffix_refl _)
      cases hparent : t.node path with
      | none =>
          have hfree : t.node (part :: path) = none := by
            by_contra hne
            rw [t.parent hne] at hparent
            cases hparent
          obtain ⟨t₁, hmake, hnode⟩ := ih hpath
          have hparent₁ : t₁.node path = some .dir := by rw [hnode, if_pos (List.suffix_refl _)]
          have hfree₁ : t₁.node (part :: path) = none := by rw [hnode, if_neg (not_suffix_cons part path), hfree]
          obtain ⟨t₂, hadd, hnode₂⟩ := add_spec (n := .dir) hparent₁ hfree₁
          refine ⟨t₂, ?_, fun q => ?_⟩
          · -- the first attempt fails, the parents are made, and the second one succeeds
            have hmissing : makeDir (part :: path) t = .error .notFound := by
              show (if hparent : t.node path = some .dir then _ else _) = _
              rw [dif_neg (by rw [hparent]; exact fun heq => by cases heq), if_pos hparent]
            unfold makeDirs
            rw [hmissing]
            show (makeDirs path t >>= makeDir (part :: path)) = _
            rw [hmake]
            exact hadd
          · rw [hnode₂, Function.update_apply, hnode]
            by_cases hq : q = part :: path
            · rw [if_pos hq, if_pos (by rw [hq])]
            · rw [if_neg hq]
              exact if_congr (by rw [List.suffix_cons_iff, or_iff_right hq]) rfl rfl
      | some node =>
          cases node with
          | file content executable => exact absurd hparent (hpath path (List.suffix_refl _) content executable)
          | dir =>
              have hdirs {q : FilePath} (hq : q <:+ path) : t.node q = some .dir := dir_of_suffix hq hparent
              cases hnode : t.node (part :: path) with
              | none =>
                  obtain ⟨t', hadd, hnode'⟩ := add_spec (n := .dir) hparent hnode
                  refine ⟨t', ?_, fun q => ?_⟩
                  · unfold makeDirs
                    rw [show makeDir (part :: path) t = .ok t' from hadd]
                  · rw [hnode', Function.update_apply]
                    by_cases hq : q = part :: path
                    · rw [if_pos hq, if_pos (by rw [hq])]
                    · rw [if_neg hq]
                      split_ifs with hsuffix
                      · exact hdirs ((List.suffix_cons_iff.mp hsuffix).resolve_left hq)
                      · rfl
              | some node =>
                  cases node with
                  | file content executable => exact absurd hnode (hself content executable)
                  | dir =>
                      refine ⟨t, ?_, fun q => ?_⟩
                      · -- the attempt fails as the directory is there, which is no error
                        have hthere : makeDir (part :: path) t = .error .exists := by
                          show (if hparent : t.node path = some .dir then _ else _) = _
                          rw [dif_pos hparent, dif_neg (by rw [hnode]; exact Option.some_ne_none _)]
                        unfold makeDirs
                        rw [hthere]
                        exact if_pos hnode
                      · split_ifs with hq
                        · exact dir_of_suffix hq hnode
                        · rfl

theorem add_eq_ok (h : add n path t = .ok t') :
    t.node path.tail = some .dir ∧ t.node path = none ∧ t'.node = Function.update t.node path (some n) := by
  cases path with
  | nil => cases h
  | cons part path =>
      unfold add at h
      dsimp only at h
      split_ifs at h with hparent hfree
      cases h
      exact ⟨hparent, hfree, rfl⟩

/-- What is made of a path are directories, where there were none or nothing; the induction follows the path up,
as the calls do. -/
theorem makeDirs_eq_ok (h : makeDirs path t = .ok t') :
    (∀ q, q <:+ path → t.node q = none ∨ t.node q = some .dir) ∧
      ∀ q, t'.node q = if q <:+ path then some .dir else t.node q := by
  induction path generalizing t' with
  | nil =>
      cases h
      refine ⟨fun q hq => .inr (by rw [List.suffix_nil.mp hq]; exact t.root), fun q => ?_⟩
      split_ifs with hq
      · rw [List.suffix_nil.mp hq]
        exact t.root
      · rfl
  | cons part path ih =>
      unfold makeDirs at h
      split at h
      · -- only the last directory was missing
        rename_i t₁ hmake
        cases h
        obtain ⟨hparent, hfree, hnode⟩ := add_eq_ok hmake
        refine ⟨fun q hq => ?_, fun q => ?_⟩
        · rcases List.suffix_cons_iff.mp hq with rfl | hq
          · exact .inl hfree
          · exact .inr (dir_of_suffix hq hparent)
        · rw [hnode, Function.update_apply]
          by_cases hq : q = part :: path
          · rw [if_pos hq, if_pos (by rw [hq])]
          · rw [if_neg hq]
            split_ifs with hsuffix
            · exact dir_of_suffix ((List.suffix_cons_iff.mp hsuffix).resolve_left hq) hparent
            · rfl
      · obtain ⟨t₁, hdirs, hmake⟩ := except_bind_eq_ok.mp h
        obtain ⟨hway, hnode₁⟩ := ih hdirs
        obtain ⟨-, hfree, hnode⟩ := add_eq_ok hmake
        rw [hnode₁, if_neg (not_suffix_cons part path)] at hfree
        refine ⟨fun q hq => ?_, fun q => ?_⟩
        · rcases List.suffix_cons_iff.mp hq with rfl | hq
          · exact .inl hfree
          · exact hway q hq
        · rw [hnode, Function.update_apply, hnode₁]
          by_cases hq : q = part :: path
          · rw [if_pos hq, if_pos (by rw [hq])]
          · rw [if_neg hq]
            exact if_congr (by rw [List.suffix_cons_iff, or_iff_right hq]) rfl rfl
      · split_ifs at h with hdir
        cases h
        refine ⟨fun q hq => .inr (dir_of_suffix hq hdir), fun q => ?_⟩
        split_ifs with hq
        · exact dir_of_suffix hq hdir
        · rfl

/-- Making directories makes no files. -/
theorem makeDirs_files (h : makeDirs path t = .ok t') (p : FilePath) (content : List UInt8) (executable : Bool) :
    t'.node p = some (.file content executable) ↔ t.node p = some (.file content executable) := by
  obtain ⟨hway, hnode⟩ := makeDirs_eq_ok h
  rw [hnode]
  split_ifs with hp
  · refine iff_of_false (fun heq => by cases heq) fun hfile => ?_
    rcases hway p hp with hnone | hdir
    · rw [hfile] at hnone
      cases hnone
    · rw [hfile] at hdir
      cases hdir
  · exact Iff.rfl

theorem modify_node {f : FileNode → FileNode} {content : List UInt8} {executable : Bool}
    (h : t.node path = some (.file content executable)) :
    (modify f path t).node = Function.update t.node path (some (f (.file content executable))) := by
  cases path with
  | nil =>
      rw [t.root] at h
      cases h
  | cons part path =>
      rw [modify]
      split
      · rename_i content' executable' hnode
        rw [h] at hnode
        cases hnode
        rfl
      · rename_i hnone
        exact absurd h (hnone content executable)

/-! ## Names of paths -/

/-- The parts of a name. -/
def parts (name : List Char) : List Part := name.splitOn '/'

/-- One part further: `.` stays, and `..` goes up. -/
def enter (path : FilePath) (part : Part) : FilePath :=
  if part = [] ∨ part = ['.'] then path else if part = ['.', '.'] then path.tail else part :: path

/-- `path / name`: what begins with a slash begins at the root. -/
def join (path : FilePath) (name : List Char) : FilePath :=
  (parts name).foldl enter (if name.head? = some '/' then [] else path)

/-- A part that goes into a directory. -/
def PlainPart (part : Part) : Prop := part ≠ [] ∧ part ≠ ['.'] ∧ part ≠ ['.', '.']

theorem foldl_enter {ps : List Part} (h : ∀ p ∈ ps, PlainPart p) (path : FilePath) :
    ps.foldl enter path = ps.reverse ++ path := by
  induction ps generalizing path with
  | nil => rfl
  | cons p ps ih =>
      obtain ⟨hempty, hdot, hup⟩ := h p List.mem_cons_self
      have henter : enter path p = p :: path := by
        unfold enter
        rw [if_neg (not_or.mpr ⟨hempty, hdot⟩), if_neg hup]
      rw [List.foldl_cons, henter, ih fun q hq => h q (List.mem_cons_of_mem _ hq), List.reverse_cons,
        List.append_assoc, List.singleton_append]

theorem join_eq {name : List Char} (h : ∀ p ∈ parts name, PlainPart p) :
    join path name = (parts name).reverse ++ path := by
  have hrelative : name.head? ≠ some '/' := by
    intro hslash
    obtain ⟨cs, rfl⟩ := List.head?_eq_some_iff.mp hslash
    have hempty : ([] : Part) ∈ parts ('/' :: cs) := by
      unfold parts
      rw [List.splitOn_cons_eq_if_modifyHead, if_pos (beq_self_eq_true '/')]
      exact List.mem_cons_self
    exact (h [] hempty).1 rfl
  unfold join
  rw [if_neg hrelative, foldl_enter h]

theorem parts_injective : Function.Injective parts := fun a b h => by
  have hjoin (cs : List Char) : ['/'].intercalate (parts cs) = cs := List.intercalate_splitOn '/'
  rw [← hjoin a, h, hjoin b]

theorem parts_ne_nil (name : List Char) : parts name ≠ [] := List.splitOn_ne_nil '/' name

/-! ## A directory with given files -/

/-- A directory that was new in `t₀` holds files at paths below it, the directories on the way to them, and
nothing else; outside of it nothing has changed. -/
structure Populated (t₀ : FileTree) (dest : FilePath) (files : List (FilePath × FileNode)) (t : FileTree) : Prop where
  file : ∀ f ∈ files, t.node (f.1 ++ dest) = some f.2
  dir : ∀ q, (q = [] ∨ ∃ f ∈ files, q <:+ f.1 ∧ q ≠ f.1) → t.node (q ++ dest) = some .dir
  nothing : ∀ q, q ≠ [] → (∀ f ∈ files, ¬q <:+ f.1) → t.node (q ++ dest) = none
  outside : ∀ p, ¬dest <:+ p → t.node p = t₀.node p

/-- A new directory holds nothing. -/
theorem makeDir_populated (hparent : t.node path = some .dir) (hfree : t.node (part :: path) = none) :
    ∃ t', makeDir (part :: path) t = .ok t' ∧ Populated t (part :: path) [] t' := by
  obtain ⟨t', hmake, hnode⟩ := add_spec (n := .dir) hparent hfree
  refine ⟨t', hmake, List.forall_mem_nil _, ?_, ?_, ?_⟩
  · rintro q (rfl | ⟨f, hf, -⟩)
    · rw [hnode, List.nil_append, Function.update_self]
    · cases hf
  · intro q hq _
    have hne : q ++ part :: path ≠ part :: path := fun h => hq (List.append_left_eq_self.mp h)
    rw [hnode, Function.update_of_ne hne]
    -- something under the directory would have made it one before
    by_contra hthere
    obtain ⟨part', q', rfl⟩ := List.exists_cons_of_ne_nil hq
    have hdir := dir_of_suffix (List.suffix_append q' (part :: path)) (t.parent hthere)
    rw [hfree] at hdir
    cases hdir
  · intro p hp
    have hne : p ≠ part :: path := fun h => hp (h ▸ List.suffix_refl _)
    rw [hnode, Function.update_of_ne hne]

variable {t₀ : FileTree} {files : List (FilePath × FileNode)}

theorem suffix_append_cases {p q : FilePath} (h : p <:+ q ++ dest) :
    p <:+ dest ∨ ∃ q', p = q' ++ dest ∧ q' <:+ q := by
  rcases List.suffix_or_suffix_of_suffix h (List.suffix_append q dest) with hp | ⟨q', rfl⟩
  · exact .inl hp
  · exact .inr ⟨q', rfl, List.suffix_append_self_iff.mp h⟩

/-- On the way to a path below the directory there is no file, if none of the files is on it. -/
theorem Populated.way (h : Populated t₀ dest files t) {q : FilePath} (hway : ∀ f ∈ files, ¬f.1 <:+ q) :
    ∀ p, p <:+ q ++ dest → ∀ content executable, t.node p ≠ some (.file content executable) := by
  intro p hp content executable hfile
  rcases suffix_append_cases hp with hp | ⟨q', rfl, hq'⟩
  · have hdir := dir_of_suffix hp (h.dir [] (.inl rfl))
    rw [hfile] at hdir
    cases hdir
  · by_cases hbelow : q' = [] ∨ ∃ f ∈ files, q' <:+ f.1 ∧ q' ≠ f.1
    · rw [h.dir q' hbelow] at hfile
      cases hfile
    · rw [not_or] at hbelow
      have hnone := h.nothing q' hbelow.1 fun f hf hsuffix =>
        hbelow.2 ⟨f, hf, hsuffix, fun heq => hway f hf (heq ▸ hq')⟩
      rw [hnone] at hfile
      cases hfile

/-- What there is with one more file, which is on no way to another file and has none on its way. -/
theorem Populated.put (h : Populated t₀ dest files t) {t' : FileTree} {q : FilePath}
    (hfresh : ∀ f ∈ files, ¬part :: q <:+ f.1) (hway : ∀ f ∈ files, ¬f.1 <:+ part :: q)
    (hnode : ∀ p, t'.node p = if p = part :: q ++ dest then some n else
      if p <:+ q ++ dest then some .dir else t.node p) :
    Populated t₀ dest (files ++ [(part :: q, n)]) t' := by
  refine ⟨?_, ?_, ?_, ?_⟩
  · intro f hf
    rcases List.mem_append.mp hf with hf | hf
    · have hne : f.1 ++ dest ≠ part :: q ++ dest := fun heq =>
        hway f hf (by rw [List.append_cancel_right heq])
      have hnot : ¬f.1 ++ dest <:+ q ++ dest := fun hsuffix =>
        hway f hf ((List.suffix_append_self_iff.mp hsuffix).trans (List.suffix_cons part q))
      rw [hnode, if_neg hne, if_neg hnot]
      exact h.file f hf
    · rw [List.mem_singleton.mp hf, hnode]
      exact if_pos rfl
  · intro r hr
    have hne : r ++ dest ≠ part :: q ++ dest := by
      intro heq
      obtain rfl := List.append_cancel_right heq
      rcases hr with hnil | ⟨f, hf, hsuffix, hne⟩
      · cases hnil
      · rcases List.mem_append.mp hf with hf | hf
        · exact hfresh f hf hsuffix
        · rw [List.mem_singleton.mp hf] at hne
          exact hne rfl
    rw [hnode, if_neg hne]
    split_ifs with hway₁
    · rfl
    · refine h.dir r ?_
      rcases hr with rfl | ⟨f, hf, hsuffix, hne⟩
      · exact .inl rfl
      · rcases List.mem_append.mp hf with hf | hf
        · exact .inr ⟨f, hf, hsuffix, hne⟩
        · rw [List.mem_singleton.mp hf] at hsuffix hne
          have hbelow := (List.suffix_cons_iff.mp hsuffix).resolve_left hne
          exact absurd (List.suffix_append_self_iff.mpr hbelow) hway₁
  · intro r hr hnone
    have hnew : ¬r <:+ part :: q := hnone _ (List.mem_append_right _ List.mem_cons_self)
    have hne : r ++ dest ≠ part :: q ++ dest := fun heq => hnew (by rw [List.append_cancel_right heq])
    have hnot : ¬r ++ dest <:+ q ++ dest := fun hsuffix =>
      hnew ((List.suffix_append_self_iff.mp hsuffix).trans (List.suffix_cons part q))
    rw [hnode, if_neg hne, if_neg hnot]
    exact h.nothing r hr fun f hf => hnone f (List.mem_append_left _ hf)
  · intro p hp
    have hne : p ≠ part :: q ++ dest := fun heq => hp (heq ▸ List.suffix_append _ dest)
    rw [hnode, if_neg hne]
    split_ifs with hsuffix
    · -- a directory above, which was one before
      rcases suffix_append_cases hsuffix with habove | ⟨q', rfl, -⟩
      · rw [← h.outside p hp]
        exact (dir_of_suffix habove (h.dir [] (.inl rfl))).symm
      · exact absurd (List.suffix_append q' dest) hp
    · exact h.outside p hp

theorem openNew_write (hparent : t.node path = some .dir) (hfree : t.node (part :: path) = none)
    (content : List UInt8) :
    ∃ t', openNew (part :: path) t = .ok t' ∧
      (write content (part :: path) t').node =
        Function.update t.node (part :: path) (some (.file content false)) := by
  obtain ⟨t', hopen, hnode⟩ := add_spec (n := .file [] false) hparent hfree
  have hempty : t'.node (part :: path) = some (.file [] false) := by
    rw [hnode]
    exact Function.update_self ..
  refine ⟨t', hopen, ?_⟩
  rw [show (write content (part :: path) t').node = Function.update t'.node (part :: path)
    (some (.file content false)) from modify_node hempty, hnode]
  exact Function.update_idem ..

/-- The calls that add a file below the directory. -/
theorem Populated.add (h : Populated t₀ dest files t) {q : FilePath} (hfresh : ∀ f ∈ files, ¬part :: q <:+ f.1)
    (hway : ∀ f ∈ files, ¬f.1 <:+ part :: q) (content : List UInt8) (executable : Bool) :
    ∃ t₁ t₂, makeDirs (q ++ dest) t = .ok t₁ ∧ openNew (part :: q ++ dest) t₁ = .ok t₂ ∧
      Populated t₀ dest (files ++ [(part :: q, .file content executable)])
        (chmod executable (part :: q ++ dest) (write content (part :: q ++ dest) t₂)) := by
  have hway' : ∀ f ∈ files, ¬f.1 <:+ q := fun f hf hsuffix => hway f hf (hsuffix.trans (List.suffix_cons part q))
  obtain ⟨t₁, hmake, hnode₁⟩ := makeDirs_spec (h.way hway')
  have hparent : t₁.node (q ++ dest) = some .dir := by rw [hnode₁, if_pos (List.suffix_refl _)]
  have hfree : t₁.node (part :: (q ++ dest)) = none := by
    rw [hnode₁, if_neg (not_suffix_cons part (q ++ dest))]
    exact h.nothing (part :: q) (List.cons_ne_nil _ _) hfresh
  obtain ⟨t₂, hopen, hwritten⟩ := openNew_write hparent hfree content
  have hfile : (write content (part :: (q ++ dest)) t₂).node (part :: (q ++ dest)) =
      some (.file content false) := by
    rw [hwritten]
    exact Function.update_self ..
  have hmode : (chmod executable (part :: (q ++ dest)) (write content (part :: (q ++ dest)) t₂)).node =
      Function.update (write content (part :: (q ++ dest)) t₂).node (part :: (q ++ dest))
        (some (.file content executable)) := modify_node hfile
  refine ⟨t₁, t₂, hmake, hopen, h.put hfresh hway fun p => ?_⟩
  rw [List.cons_append, hmode, hwritten, Function.update_idem, Function.update_apply, hnode₁]

/-- The calls that add a file in the directory itself. -/
theorem Populated.addHere (h : Populated t₀ dest files t) (hfresh : ∀ f ∈ files, ¬[part] <:+ f.1)
    (hway : ∀ f ∈ files, ¬f.1 <:+ [part]) (content : List UInt8) :
    ∃ t', openNew (part :: dest) t = .ok t' ∧
      Populated t₀ dest (files ++ [([part], .file content false)]) (write content (part :: dest) t') := by
  have hdest : t.node dest = some .dir := h.dir [] (.inl rfl)
  obtain ⟨t', hopen, hwritten⟩ :=
    openNew_write hdest (h.nothing [part] (List.cons_ne_nil _ _) hfresh) content
  refine ⟨t', hopen, h.put hfresh hway fun p => ?_⟩
  rw [hwritten, Function.update_apply, List.singleton_append, List.nil_append]
  split_ifs with hp hsuffix
  · rfl
  · exact dir_of_suffix hsuffix hdest
  · rfl

/-- The calls that add a file below the directory, of which the mode is left as it is. -/
theorem Populated.addFile (h : Populated t₀ dest files t) {q : FilePath} (hfresh : ∀ f ∈ files, ¬part :: q <:+ f.1)
    (hway : ∀ f ∈ files, ¬f.1 <:+ part :: q) (content : List UInt8) :
    ∃ t₁ t₂, makeDirs (q ++ dest) t = .ok t₁ ∧ openNew (part :: (q ++ dest)) t₁ = .ok t₂ ∧
      Populated t₀ dest (files ++ [(part :: q, .file content false)]) (write content (part :: (q ++ dest)) t₂) := by
  have hway' : ∀ f ∈ files, ¬f.1 <:+ q := fun f hf hsuffix => hway f hf (hsuffix.trans (List.suffix_cons part q))
  obtain ⟨t₁, hmake, hnode₁⟩ := makeDirs_spec (h.way hway')
  have hparent : t₁.node (q ++ dest) = some .dir := by rw [hnode₁, if_pos (List.suffix_refl _)]
  have hfree : t₁.node (part :: (q ++ dest)) = none := by
    rw [hnode₁, if_neg (not_suffix_cons part (q ++ dest))]
    exact h.nothing (part :: q) (List.cons_ne_nil _ _) hfresh
  obtain ⟨t₂, hopen, hwritten⟩ := openNew_write hparent hfree content
  refine ⟨t₁, t₂, hmake, hopen, h.put hfresh hway fun p => ?_⟩
  rw [List.cons_append, hwritten, Function.update_apply, hnode₁]

end FileTree

end Ramulator.Lib
