/-
# Ramulator.ChiaLoop.CandidateStore — the store of candidates over whole runs.

Agents submit candidates at the same time, and any of them may stop in the middle of it. `StoreStep` has the steps
of `snapshot` one by one: objects are published in turn, the manifest last, with anything between them that other
calls do or that happens outside of the store. Then the manifest is the commit marker that the source calls it: a
candidate can be read back if and only if some call has published all of it, and what is read back, then and at any
later time, is what that call was given.
-/
import Ramulator.ChiaLoop.SnapshotFiles
import Ramulator.ChiaLoop.ArchiveBundles
import Ramulator.Lib.Publish

namespace Ramulator.ChiaLoop.Snapshots

open Ramulator.Lib Publish
open Archive (Bytes IsDigest SafeName below encodeText target NewDirectory)

/-! ## Submissions -/

/-- What `snapshot` publishes: the files that it has read in a workspace, their manifest, and its text. -/
structure Submission (tools : Tools) where
  contract : ModelFiles
  files : Files
  manifest : Json
  text : Bytes
  read_eq : ∃ draft workspace maximumBytes, readFiles draft workspace true contract.paths maximumBytes = .ok files
  manifest_eq : Snapshots.manifest tools files contract = .ok manifest
  text_eq : canonicalBytes manifest = .ok text

variable {tools : Tools} {tree tree' : FileTree} {store workspace : FilePath}

namespace Submission

variable (sub : Submission tools)

def candidateId : String := tools.sha256 sub.text

/-- The directory of a candidate, below the store. -/
def home : FilePath := [sub.candidateId.toList]

/-- The objects in the order in which they are published, by their places below the store. -/
def objects : List (FilePath × Bytes) :=
  sub.files.map (fun f => (below f.1 ++ sub.home, f.2)) ++ [(manifestName.toList :: sub.home, sub.text)]

theorem names_eq : sub.files.map Prod.fst = sub.contract.paths := by
  obtain ⟨_, _, _, hread⟩ := sub.read_eq
  exact (readFiles_spec hread).1

theorem nodup : (sub.files.map Prod.fst).Nodup := sub.names_eq ▸ sub.contract.nodup

theorem mem_paths {f : String × Bytes} (hf : f ∈ sub.files) : f.1 ∈ sub.contract.paths :=
  sub.names_eq ▸ List.mem_map_of_mem hf

theorem safe {f : String × Bytes} (hf : f ∈ sub.files) : SafeName f.1 := ModelFiles.safe (sub.mem_paths hf)

theorem distinctKeys : sub.manifest.DistinctKeys := distinctKeys_manifest sub.manifest_eq sub.nodup

end Submission

theorem not_slash_of_isDigest {id : String} (h : IsDigest id) : FileTree.parts id.toList = [id.toList] := by
  have hslash : ∀ c ∈ id.toList, c ≠ '/' := by
    rintro c hc rfl
    rcases h.2 '/' hc with hdigit | hletter
    · cases hdigit
    · exact absurd hletter (by decide)
  exact List.splitOnP_eq_singleton fun c hc => beq_eq_false_iff_ne.mpr (hslash c hc)

theorem target_digest {id : String} (h : IsDigest id) : target store id = id.toList :: store := by
  have hparts := not_slash_of_isDigest h
  have hplain : ∀ p ∈ FileTree.parts id.toList, FileTree.PlainPart p := by
    intro p hp
    rw [hparts] at hp
    rw [List.mem_singleton.mp hp]
    have hlength := h.1
    refine ⟨?_, ?_, ?_⟩ <;>
      intro heq <;>
        rw [heq] at hlength <;>
          cases hlength
  unfold target
  rw [FileTree.join_eq hplain, hparts]
  rfl

theorem safeName_manifest : SafeName manifestName := by decide

theorem below_manifest : below manifestName = [manifestName.toList] := by decide

/-! ## Reading back -/

/-- All objects of a submission are in the store. -/
def Submission.Published (sub : Submission tools) (store : FilePath) (tree : FileTree) : Prop :=
  ∀ o ∈ sub.objects, ∃ x, tree.node (o.1 ++ store) = some (.file o.2 x)

variable {sub : Submission tools}

theorem Submission.Published.file (h : sub.Published store tree) {f : String × Bytes} (hf : f ∈ sub.files) :
    ∃ x, tree.node (below f.1 ++ sub.candidateId.toList :: store) = some (.file f.2 x) := by
  obtain ⟨x, hx⟩ := h _ (List.mem_append_left _ (List.mem_map_of_mem hf))
  rw [List.append_assoc] at hx
  exact ⟨x, hx⟩

theorem Submission.Published.marker (h : sub.Published store tree) :
    ∃ x, tree.node (manifestName.toList :: sub.candidateId.toList :: store) = some (.file sub.text x) :=
  h _ (List.mem_append_right _ List.mem_cons_self)

/-- A submission all of which is there is read back, for its contract and within the bounds, and for no other. -/
theorem verifySnapshot_iff (htools : tools.Faithful) (hpublished : sub.Published store tree) {contract : ModelFiles}
    (hcontract : tools.sha256 contract.identityBytes = tools.sha256 sub.contract.identityBytes →
      contract = sub.contract) {maximumBytes : Nat} {record : Record} :
    verifySnapshot tools (entries tree) store sub.candidateId contract maximumBytes = .ok record ↔
      contract = sub.contract ∧ 0 < maximumBytes ∧ totalBytes sub.files ≤ maximumBytes ∧
        sub.text.length ≤ manifestGuard contract maximumBytes ∧ record = ⟨sub.candidateId, sub.manifest.sort⟩ := by
  have hdigest : IsDigest sub.candidateId := htools.isDigest sub.text
  obtain ⟨x, hmarker⟩ := hpublished.marker
  have hmarker : ∃ x, tree.node (below manifestName ++ sub.candidateId.toList :: store) = some (.file sub.text x) := by
    rw [below_manifest]
    exact ⟨x, hmarker⟩
  have hread (bytes : Nat) (raw : Bytes) : readFile (entries tree) (target store sub.candidateId) manifestName bytes
      false = .ok raw ↔ raw = sub.text ∧ raw.length ≤ bytes := by
    rw [target_digest hdigest, readFile_entries safeName_manifest]
    refine and_congr_left fun _ => ?_
    obtain ⟨x, hmarker⟩ := hmarker
    constructor
    · rintro ⟨x', hx'⟩
      rw [hmarker] at hx'
      cases hx'
      rfl
    · rintro rfl
      exact ⟨x, hmarker⟩
  have hfiles (read : Files) : readFiles (entries tree) (target store sub.candidateId) false sub.contract.paths
      maximumBytes = .ok read ↔ read = sub.files ∧ totalBytes sub.files ≤ maximumBytes := by
    rw [target_digest hdigest, ← sub.names_eq]
    exact readFiles_entries (fun f hf => sub.safe hf) fun f hf => hpublished.file hf
  have hdecode := decode_canonicalBytes htools sub.text_eq sub.distinctKeys
  have hsorted : canonicalBytes sub.manifest.sort = .ok sub.text := (canonicalBytes_sort _).trans sub.text_eq
  unfold verifySnapshot
  constructor
  · intro h
    obtain ⟨_, -, h⟩ := except_bind_eq_ok.mp h
    obtain ⟨_, hpositive, h⟩ := except_bind_eq_ok.mp h
    obtain ⟨raw, hraw, h⟩ := except_bind_eq_ok.mp h
    obtain ⟨rfl, hguard⟩ := (hread _ _).mp hraw
    rw [hdecode] at h
    obtain ⟨_, -, h⟩ := except_bind_eq_ok.mp h
    obtain ⟨text, -, h⟩ := except_bind_eq_ok.mp h
    obtain ⟨_, -, h⟩ := except_bind_eq_ok.mp h
    obtain ⟨files, hfilesRead, h⟩ := except_bind_eq_ok.mp h
    obtain ⟨actual, hactual, h⟩ := except_bind_eq_ok.mp h
    obtain ⟨_, hequal, h⟩ := except_bind_eq_ok.mp h
    cases h
    rw [throwIf_eq_ok, Bool.not_eq_false] at hequal
    -- the manifests have the same contract
    obtain rfl : contract = sub.contract := by
      refine hcontract ?_
      obtain ⟨parameters, source, configuration, -, rfl⟩ := manifest_eq_ok hactual
      have hfield := contract_of_manifest sub.manifest_eq sub.nodup
      cases hm : sub.manifest.sort with
      | obj ms =>
          rw [hm] at hequal hfield
          have hmem : ("contract_sha256", Json.str (tools.sha256 contract.identityBytes)) ∈
              [("schema_version", Json.int 1), ("contract_sha256", .str (tools.sha256 contract.identityBytes)),
                ("source_sha256", .str source), ("configuration_sha256", .str configuration),
                ("parameters", .obj parameters), ("files", .obj (inventory tools files))] :=
            List.mem_cons_of_mem _ List.mem_cons_self
          obtain ⟨w, hw, heq⟩ := Json.eq_field hequal hmem
          obtain rfl := Option.some.inj (hw.symm.trans hfield)
          exact beq_iff_eq.mp heq
      | null => rw [hm] at hfield; cases hfield
      | bool _ => rw [hm] at hfield; cases hfield
      | int _ => rw [hm] at hfield; cases hfield
      | float _ => rw [hm] at hfield; cases hfield
      | str _ => rw [hm] at hfield; cases hfield
      | arr _ => rw [hm] at hfield; cases hfield
    rw [throwIf_eq_ok] at hpositive
    exact ⟨rfl, Nat.pos_of_ne_zero hpositive, ((hfiles files).mp hfilesRead).2, hguard, rfl⟩
  · rintro ⟨rfl, hpositive, htotal, hguard, rfl⟩
    refine except_bind_eq_ok.mpr ⟨(), throwIf_eq_ok.mpr (not_not.mpr hdigest), ?_⟩
    refine except_bind_eq_ok.mpr ⟨(), throwIf_eq_ok.mpr hpositive.ne', ?_⟩
    refine except_bind_eq_ok.mpr ⟨sub.text, (hread _ _).mpr ⟨rfl, hguard⟩, ?_⟩
    rw [hdecode]
    refine except_bind_eq_ok.mpr ⟨(), throwIf_eq_ok.mpr (not_not.mpr rfl), ?_⟩
    refine except_bind_eq_ok.mpr ⟨sub.text, hsorted, ?_⟩
    refine except_bind_eq_ok.mpr ⟨(), throwIf_eq_ok.mpr (not_not.mpr rfl), ?_⟩
    refine except_bind_eq_ok.mpr ⟨sub.files, (hfiles _).mpr ⟨rfl, htotal⟩, ?_⟩
    refine except_bind_eq_ok.mpr ⟨sub.manifest, sub.manifest_eq, ?_⟩
    have hequal := Json.eq_sort sub.distinctKeys (finiteNumbers_of_canonicalBytes sub.text_eq)
    exact except_bind_eq_ok.mpr ⟨(), throwIf_eq_ok.mpr (by rw [hequal]; exact Bool.noConfusion), rfl⟩

/-! ## New workspaces -/

variable {tree₀ : FileTree} {files : List (FilePath × FileNode)}

theorem makeNewDirs_populated (h : NewDirectory tree workspace) :
    ∃ tree', makeNewDirs workspace tree = .ok tree' ∧ tree.Populated workspace [] tree' := by
  cases workspace with
  | nil =>
      have hfree := h.free
      rw [tree.root] at hfree
      cases hfree
  | cons part path =>
      have hparent : tree.node path = some .dir := h.parent
      obtain ⟨tree', hmake, hpopulated⟩ := FileTree.makeDir_populated hparent h.free
      refine ⟨tree', ?_, hpopulated⟩
      unfold makeNewDirs
      dsimp only
      rw [hmake]

/-- What was there before is not in the new workspace, and stays. -/
theorem kept_of_populated (hnew : NewDirectory tree₀ workspace) (h : tree₀.Populated workspace files tree)
    {path : FilePath} (hthere : tree₀.node path ≠ none) : tree.node path = tree₀.node path := by
  refine h.outside path fun hsuffix => ?_
  obtain ⟨front, rfl⟩ := hsuffix
  induction front with
  | nil => exact hthere hnew.free
  | cons part front ih =>
      have hdir : tree₀.node (front ++ workspace) = some .dir := tree₀.parent hthere
      exact ih (by rw [hdir]; exact Option.some_ne_none _)

/-- The file of a candidate, below the new workspace. -/
def draftFile (f : String × Bytes) : FilePath × FileNode := (below f.1, .file f.2 false)

/-- One file is copied, if it is on no way to another file and has none on its way. -/
theorem materializeFile_populated (htools : tools.Faithful) (hpublished : sub.Published store tree₀)
    (hnew : NewDirectory tree₀ workspace) (h : tree₀.Populated workspace files tree) {f : String × Bytes}
    (hf : f ∈ sub.files) {maximumBytes : Nat} (hlength : f.2.length ≤ maximumBytes)
    (hfresh : ∀ g ∈ files, ¬below f.1 <:+ g.1) (hway : ∀ g ∈ files, ¬g.1 <:+ below f.1) :
    ∃ tree', materializeFile tools (target store sub.candidateId) workspace maximumBytes sub.manifest.sort tree f.1 =
      .ok tree' ∧ tree₀.Populated workspace (files ++ [draftFile f]) tree' := by
  have hsafe := sub.safe hf
  obtain ⟨part, q, hbelow⟩ := List.exists_cons_of_ne_nil (Archive.below_ne_nil f.1)
  rw [hbelow] at hfresh hway
  obtain ⟨t₁, t₂, hmake, hopen, hadd⟩ := h.addFile hfresh hway f.2
  have hread : readFile (entries tree) (target store sub.candidateId) f.1 maximumBytes false = .ok f.2 := by
    obtain ⟨x, hx⟩ := hpublished.file hf
    have hdigest : IsDigest sub.candidateId := htools.isDigest sub.text
    rw [target_digest hdigest, readFile_entries hsafe]
    refine ⟨⟨x, ?_⟩, hlength⟩
    rw [kept_of_populated hnew h (by rw [hx]; exact Option.some_ne_none _)]
    exact hx
  have hdigest : ((sub.manifest.sort.field? "files").bind (·.field? f.1)).bind (·.field? "sha256") =
      some (.str (tools.sha256 f.2)) := by
    rw [record_of_manifest sub.manifest_eq sub.nodup hf]
    exact sha256_fileRecord f.2
  have htarget : target workspace f.1 = part :: (q ++ workspace) := by
    rw [Archive.target_eq hsafe, hbelow, List.cons_append]
  refine ⟨t₂.write f.2 (part :: (q ++ workspace)), ?_, ?_⟩
  · unfold materializeFile
    refine except_bind_eq_ok.mpr ⟨f.2, hread, ?_⟩
    rw [hdigest]
    refine except_bind_eq_ok.mpr ⟨(), throwIf_eq_ok.mpr ?_, ?_⟩
    · rw [Bool.not_eq_false]
      exact beq_self_eq_true (tools.sha256 f.2)
    · rw [htarget]
      refine except_bind_eq_ok.mpr ⟨t₁, except_mapError_eq_ok.mpr hmake, ?_⟩
      exact except_bind_eq_ok.mpr ⟨t₂, except_mapError_eq_ok.mpr hopen, rfl⟩
  · unfold draftFile
    rw [hbelow]
    exact hadd

/-- The loop over the files. -/
theorem materializeFiles_populated (htools : tools.Faithful) (hpublished : sub.Published store tree₀)
    (hnew : NewDirectory tree₀ workspace) (h : tree₀.Populated workspace files tree) {fs : Files}
    (hfs : ∀ f ∈ fs, f ∈ sub.files) (hnodup : (fs.map Prod.fst).Nodup) {maximumBytes : Nat}
    (hlength : ∀ f ∈ fs, f.2.length ≤ maximumBytes)
    (hfiles : ∀ f ∈ fs, ∀ g ∈ files, ¬below f.1 <:+ g.1 ∧ ¬g.1 <:+ below f.1) :
    ∃ tree', (fs.map Prod.fst).foldlM
        (materializeFile tools (target store sub.candidateId) workspace maximumBytes sub.manifest.sort) tree =
      .ok tree' ∧ tree₀.Populated workspace (files ++ fs.map draftFile) tree' := by
  induction fs generalizing files tree with
  | nil => exact ⟨tree, rfl, by rw [List.map_nil, List.append_nil]; exact h⟩
  | cons f fs ih =>
      rw [List.map_cons] at hnodup ⊢
      obtain ⟨hnot, hnodup⟩ := List.nodup_cons.mp hnodup
      have hf := hfs f List.mem_cons_self
      have hapart := hfiles f List.mem_cons_self
      obtain ⟨tree₁, hfile, h₁⟩ := materializeFile_populated htools hpublished hnew h hf
        (hlength f List.mem_cons_self) (fun g hg => (hapart g hg).1) (fun g hg => (hapart g hg).2)
      have hrest : ∀ f' ∈ fs, ∀ g ∈ files ++ [draftFile f], ¬below f'.1 <:+ g.1 ∧ ¬g.1 <:+ below f'.1 := by
        intro f' hf' g hg
        rcases List.mem_append.mp hg with hg | hg
        · exact hfiles f' (List.mem_cons_of_mem _ hf') g hg
        · rw [List.mem_singleton.mp hg]
          have hpath := sub.mem_paths hf
          have hpath' := sub.mem_paths (hfs f' (List.mem_cons_of_mem _ hf'))
          have hne : f'.1 ≠ f.1 := fun heq => hnot (heq ▸ List.mem_map_of_mem hf')
          exact ⟨ModelFiles.apart hpath' hpath hne, ModelFiles.apart hpath hpath' hne.symm⟩
      obtain ⟨tree', hfold, h'⟩ := ih h₁ (fun g hg => hfs g (List.mem_cons_of_mem _ hg)) hnodup
        (fun g hg => hlength g (List.mem_cons_of_mem _ hg)) hrest
      refine ⟨tree', ?_, ?_⟩
      · rw [List.foldlM_cons, hfile]
        exact hfold
      · rw [List.append_assoc, List.singleton_append] at h'
        exact h'

theorem length_le_totalBytes {fs : Files} {f : String × Bytes} (hf : f ∈ fs) : f.2.length ≤ totalBytes fs :=
  List.single_le_sum (fun _ _ => Nat.zero_le _) _ (List.mem_map_of_mem hf)

/-- A candidate that is read back is copied: the new workspace has its files and nothing else. -/
theorem materialize_eq_ok (htools : tools.Faithful) (hpublished : sub.Published store tree)
    (hnew : NewDirectory tree workspace) {maximumBytes : Nat} (htotal : totalBytes sub.files ≤ maximumBytes)
    (hverify : verifySnapshot tools (entries tree) store sub.candidateId sub.contract maximumBytes =
      .ok ⟨sub.candidateId, sub.manifest.sort⟩) :
    ∃ tree', materialize tools store sub.candidateId workspace sub.contract maximumBytes tree =
        .ok (⟨sub.candidateId, sub.manifest.sort⟩, tree') ∧
      tree.Populated workspace (sub.files.map draftFile) tree' := by
  obtain ⟨tree₁, hmake, h₁⟩ := makeNewDirs_populated hnew
  obtain ⟨tree₂, hfold, h₂⟩ := materializeFiles_populated htools hpublished hnew h₁ (fun _ hf => hf) sub.nodup
    (fun f hf => Nat.le_trans (length_le_totalBytes hf) htotal) fun _ _ => List.forall_mem_nil _
  refine ⟨tree₂, ?_, h₂⟩
  unfold materialize
  refine except_bind_eq_ok.mpr ⟨_, hverify, ?_⟩
  refine except_bind_eq_ok.mpr ⟨tree₁, except_mapError_eq_ok.mpr hmake, ?_⟩
  rw [← sub.names_eq]
  exact except_bind_eq_ok.mpr ⟨tree₂, hfold, rfl⟩

/-! ## The steps of any number of calls -/

/-- One step: a call begins to publish a submission for a contract that is granted, or publishes its next object; a
call makes directories; or something happens outside of the store. A call that fails or is cut off takes no more
steps. -/
inductive StoreStep (tools : Tools) (grants : Set ModelFiles) (store : FilePath) :
    System FileTree FilePath Bytes → Publish.Event FilePath Bytes → System FileTree FilePath Bytes → Prop
  | begin {s : System FileTree FilePath Bytes} (sub : Submission tools) (h : sub.contract ∈ grants) :
      StoreStep tools grants store s (.begin sub.objects) { s with writers := s.writers ++ [⟨[], sub.objects⟩] }
  | turn {s : System FileTree FilePath Bytes} {i : Nat} {written left : List (FilePath × Bytes)} {path : FilePath}
      {data : Bytes} {tree : FileTree} (hi : s.writers[i]? = some ⟨written, (path, data) :: left⟩)
      (h : publishBytes (path ++ store) data s.store = .ok tree) :
      StoreStep tools grants store s (.turn i) ⟨tree, s.writers.set i ⟨written ++ [(path, data)], left⟩⟩
  | directories {s : System FileTree FilePath Bytes} {path : FilePath} {tree : FileTree}
      (h : s.store.makeDirs path = .ok tree) : StoreStep tools grants store s .unseen { s with store := tree }
  | elsewhere {s : System FileTree FilePath Bytes} {tree : FileTree}
      (h : ∀ path, tree.node (path ++ store) = s.store.node (path ++ store)) :
      StoreStep tools grants store s .unseen { s with store := tree }

/-- The object at a place below the store. -/
def object (store : FilePath) (tree : FileTree) (path : FilePath) : Option Bytes :=
  match tree.node (path ++ store) with
  | some (.file content _) => some content
  | _ => none

theorem object_eq_some {path : FilePath} {data : Bytes} :
    object store tree path = some data ↔ ∃ x, tree.node (path ++ store) = some (.file data x) := by
  unfold object
  cases tree.node (path ++ store) with
  | none => simp
  | some n => cases n <;> simp

theorem writes_of_publishBytes {path : FilePath} {data : Bytes} (h : publishBytes (path ++ store) data tree = .ok tree') :
    Writes (object store) path data tree tree' := by
  obtain ⟨hwritten, hkept, honly⟩ := publishBytes_eq_ok h
  refine ⟨object_eq_some.mpr hwritten, fun p v hv => ?_, fun p v hv => ?_⟩
  · obtain ⟨x, hx⟩ := object_eq_some.mp hv
    exact object_eq_some.mpr ⟨x, hkept _ _ _ hx⟩
  · obtain ⟨x, hx⟩ := object_eq_some.mp hv
    rcases honly _ _ _ hx with hold | ⟨hpath, rfl⟩
    · exact .inl (object_eq_some.mpr ⟨x, hold⟩)
    · exact .inr ⟨List.append_cancel_right hpath, rfl⟩

variable {grants : Set ModelFiles}

/-- What calls may begin to publish. -/
def Accepted (tools : Tools) (grants : Set ModelFiles) (objects : List (FilePath × Bytes)) : Prop :=
  ∃ sub : Submission tools, sub.contract ∈ grants ∧ objects = sub.objects

/-- The calls are writers of objects that are written once. -/
theorem StoreStep.publish {s s' : System FileTree FilePath Bytes} {e : Publish.Event FilePath Bytes}
    (h : StoreStep tools grants store s e s') : Step (object store) (Accepted tools grants) s e s' := by
  cases h with
  | begin sub hgrant => exact .begin ⟨sub, hgrant, rfl⟩
  | turn hi hpublish => exact .turn hi (writes_of_publishBytes hpublish)
  | directories hmake =>
      refine .unseen fun path => Option.ext fun data => ?_
      rw [object_eq_some, object_eq_some]
      exact exists_congr fun x => FileTree.makeDirs_files hmake _ _ _
  | elsewhere hsame =>
      refine .unseen fun path => ?_
      unfold object
      rw [hsame]

theorem publish_of_run {s s' : System FileTree FilePath Bytes} (h : Reachable s (StoreStep tools grants store) s') :
    Reachable s (Step (object store) (Accepted tools grants)) s' :=
  h.mono fun _ _ _ hstep => hstep.publish

theorem published_of_objects (h : ∀ o ∈ sub.objects, object store tree o.1 = some o.2) : sub.Published store tree :=
  fun o ho => object_eq_some.mp (h o ho)

theorem Submission.Published.of_run {s s' : System FileTree FilePath Bytes} (h : sub.Published store s.store)
    (hs : Reachable s (StoreStep tools grants store) s') : sub.Published store s'.store := fun o ho =>
  object_eq_some.mp (kept_of_run (publish_of_run hs) _ _ (object_eq_some.mpr (h o ho)))

/-! ### The manifest is the marker -/

/-- Where manifests are. -/
def IsManifest (path : FilePath) : Prop := ∃ id : String, path = [manifestName.toList, id.toList]

theorem endsWithManifest (sub : Submission tools) : EndsWithMarker IsManifest sub.objects := by
  refine ⟨_, _, rfl, ⟨sub.candidateId, rfl⟩, ?_⟩
  rintro o ho ⟨id, hid⟩
  obtain ⟨f, hf, rfl⟩ := List.mem_map.mp ho
  -- a file with this place has the name of the manifest
  have hbelow : below f.1 ++ [sub.candidateId.toList] = [manifestName.toList] ++ [id.toList] := hid
  have hname := (List.append_inj' hbelow rfl).1
  rw [← below_manifest] at hname
  exact (ModelFiles.check (sub.mem_paths hf)).2.1 (Archive.below_injective hname)

theorem getLast?_objects (sub : Submission tools) :
    sub.objects.getLast? = some (manifestName.toList :: sub.home, sub.text) := List.getLast?_concat ..

/-- In a run that begins with an empty store, a candidate that is read back has been published to the end. -/
theorem published_of_verifySnapshot {tree₀ : FileTree}
    (hempty : ∀ path, object store tree₀ path = none) {s : System FileTree FilePath Bytes}
    (hs : Reachable ⟨tree₀, []⟩ (StoreStep tools grants store) s) {candidateId : String} {contract : ModelFiles}
    {maximumBytes : Nat} {record : Record}
    (h : verifySnapshot tools (entries s.store) store candidateId contract maximumBytes = .ok record) :
    ∃ sub : Submission tools, sub.contract ∈ grants ∧ sub.candidateId = candidateId ∧
      (⟨sub.objects, []⟩ : Publish.Writer FilePath Bytes) ∈ s.writers ∧ sub.Published store s.store := by
  unfold verifySnapshot at h
  obtain ⟨_, hdigest, h⟩ := except_bind_eq_ok.mp h
  obtain ⟨_, -, h⟩ := except_bind_eq_ok.mp h
  obtain ⟨raw, hraw, -⟩ := except_bind_eq_ok.mp h
  rw [throwIf_eq_ok, not_not] at hdigest
  rw [target_digest hdigest, readFile_entries safeName_manifest, below_manifest] at hraw
  have hmarker : object store s.store [manifestName.toList, candidateId.toList] = some raw :=
    object_eq_some.mpr hraw.1
  have hmanifest : IsManifest [manifestName.toList, candidateId.toList] := ⟨candidateId, rfl⟩
  have hends : ∀ objects, Accepted tools grants objects → EndsWithMarker IsManifest objects := by
    rintro _ ⟨sub, -, rfl⟩
    exact endsWithManifest sub
  obtain ⟨_, ⟨sub, hgrant, rfl⟩, hwriter, hlast, hthere⟩ :=
    complete_of_marker hempty hends (publish_of_run hs) hmanifest hmarker
  rw [getLast?_objects] at hlast
  obtain ⟨hpath, -⟩ := Prod.mk.inj (Option.some.inj hlast)
  refine ⟨sub, hgrant, ?_, hwriter, published_of_objects hthere⟩
  exact String.toList_inj.mp (List.cons.inj (List.cons.inj hpath).2).1

/-! ### A call is a run -/

/-- Publishing in turn is a run of turns. -/
theorem run_of_publish {objects written left : List (FilePath × Bytes)} (writers : List (Publish.Writer FilePath Bytes))
    (h : objects.foldlM (fun tree o => publishBytes (o.1 ++ store) o.2 tree) tree = .ok tree')
    {s : System FileTree FilePath Bytes}
    (hs : Reachable s (StoreStep tools grants store) ⟨tree, writers ++ [⟨written, objects ++ left⟩]⟩) :
    Reachable s (StoreStep tools grants store) ⟨tree', writers ++ [⟨written ++ objects, left⟩]⟩ := by
  induction objects generalizing tree written with
  | nil =>
      cases h
      rw [List.append_nil]
      exact hs
  | cons o objects ih =>
      rw [List.foldlM_cons] at h
      obtain ⟨tree₁, hpublish, h⟩ := except_bind_eq_ok.mp h
      have hi : (writers ++ [(⟨written, (o.1, o.2) :: (objects ++ left)⟩ : Publish.Writer FilePath Bytes)])[writers.length]? =
          some ⟨written, (o.1, o.2) :: (objects ++ left)⟩ := List.getElem?_concat_length
      have hnext := hs.step (.turn writers.length) (.turn hi hpublish)
      rw [List.set_append_right _ _ (Nat.le_refl _), Nat.sub_self] at hnext
      have hrun := ih h hnext
      rw [List.append_assoc, List.singleton_append] at hrun
      exact hrun

/-- A call that returns has published a submission, and does so in a run. -/
theorem snapshot_eq_ok (htools : tools.Faithful) {draft : Entries} {contract : ModelFiles} {maximumBytes : Nat}
    {record : Record}
    (h : snapshot tools draft workspace store contract maximumBytes tree = .ok (record, tree')) :
    ∃ sub : Submission tools, sub.contract = contract ∧
      readFiles draft workspace true contract.paths maximumBytes = .ok sub.files ∧
      record = ⟨sub.candidateId, sub.manifest⟩ ∧ sub.Published store tree' ∧
      ∀ grants : Set ModelFiles, contract ∈ grants → ∀ writers,
        Reachable ⟨tree, writers⟩ (StoreStep tools grants store) ⟨tree', writers ++ [⟨sub.objects, []⟩]⟩ := by
  unfold snapshot at h
  obtain ⟨_, -, h⟩ := except_bind_eq_ok.mp h
  obtain ⟨files, hread, h⟩ := except_bind_eq_ok.mp h
  obtain ⟨m, hmanifest, h⟩ := except_bind_eq_ok.mp h
  obtain ⟨candidateId, hid, h⟩ := except_bind_eq_ok.mp h
  obtain ⟨tree₁, hmake, h⟩ := except_bind_eq_ok.mp h
  obtain ⟨tree₂, hfiles, h⟩ := except_bind_eq_ok.mp h
  obtain ⟨text, htext, h⟩ := except_bind_eq_ok.mp h
  obtain ⟨tree₃, hlast, h⟩ := except_bind_eq_ok.mp h
  cases h
  let sub : Submission tools := ⟨contract, files, m, text, ⟨_, _, _, hread⟩, hmanifest, htext⟩
  obtain rfl : candidateId = sub.candidateId := by
    obtain ⟨text', htext', hdigest⟩ := except_map_eq_ok.mp hid
    rw [htext] at htext'
    cases htext'
    exact hdigest.symm
  have hdigest : IsDigest sub.candidateId := htools.isDigest text
  have hplace : ∀ name, SafeName name →
      target (target store sub.candidateId) name = (below name ++ sub.home) ++ store := by
    intro name hname
    rw [Archive.target_eq hname, target_digest hdigest, List.append_assoc]
    rfl
  -- the loop over the files, and the manifest, are one loop over the objects
  have hobjects : sub.objects.foldlM (fun tree o => publishBytes (o.1 ++ store) o.2 tree) tree₁ = .ok tree' := by
    unfold Submission.objects
    rw [List.foldlM_append, List.foldlM_map]
    have hsame : sub.files.foldlM (fun tree f => publishBytes ((below f.1 ++ sub.home) ++ store) f.2 tree) tree₁ =
        .ok tree₂ := by
      rw [← hfiles]
      refine foldlM_congr fun t f hf => ?_
      rw [hplace f.1 (sub.safe hf)]
    refine except_bind_eq_ok.mpr ⟨tree₂, hsame, ?_⟩
    rw [hplace manifestName safeName_manifest, below_manifest] at hlast
    exact except_bind_eq_ok.mpr ⟨tree', hlast, rfl⟩
  have hpublished : sub.Published store tree' :=
    foldlM_each (P := fun (o : FilePath × Bytes) (t : FileTree) => ∃ x, t.node (o.1 ++ store) = some (.file o.2 x))
      (fun t o t' _ ht => (publishBytes_eq_ok ht).1)
      (fun b t o t' ⟨x, hx⟩ ht => ⟨x, (publishBytes_eq_ok ht).2.1 _ _ _ hx⟩) hobjects
  refine ⟨sub, rfl, hread, rfl, hpublished, fun grants hgrant writers => ?_⟩
  have hbegin : Reachable ⟨tree, writers⟩ (StoreStep tools grants store) ⟨tree, writers ++ [⟨[], sub.objects⟩]⟩ :=
    Reachable.start.step (.begin sub.objects) (.begin sub hgrant)
  have hdirs : Reachable ⟨tree, writers⟩ (StoreStep tools grants store) ⟨tree₁, writers ++ [⟨[], sub.objects⟩]⟩ :=
    hbegin.step .unseen (.directories (except_mapError_eq_ok.mp hmake))
  rw [← List.append_nil sub.objects] at hdirs
  exact run_of_publish writers hobjects hdirs

/-! ### A small store -/

/-- The sources `A` and `B`. -/
def sourceA : Bytes := [65]

def sourceB : Bytes := [66]

/-- A digest by its value. -/
def hexDigest (n : Nat) : String := String.ofList ((List.range 64).map fun i => Nat.digitChar (n / 16 ^ (63 - i) % 16))

theorem isDigest_hexDigest (n : Nat) : IsDigest (hexDigest n) := by
  have hdigit : ∀ d < 16, ∀ c, c = Nat.digitChar d → c.isDigit ∨ 'a' ≤ c ∧ c ≤ 'f' := by
    rintro d hd _ rfl
    revert d
    decide
  unfold hexDigest IsDigest
  rw [String.toList_ofList]
  refine ⟨by rw [List.length_map, List.length_range], fun c hc => ?_⟩
  obtain ⟨i, -, rfl⟩ := List.mem_map.mp hc
  exact hdigit _ (Nat.mod_lt _ (by decide)) _ rfl

/-- The digests of the sources, of their records and of their manifests. -/
def digestsA : Nat × Nat × Nat :=
  (0x559aead08264d5795d3909718cdd05abd49572e84fe55590eef31a88a08fdffd,
    0xde515f2d91585bad79e606d2863f937d66e6273237adc32cf9fbc25b4f66aa47,
    0xbed42be801f2581b98e91b357d2ee1576351fccd47b223d02290c89eea09bb2f)

def digestsB : Nat × Nat × Nat :=
  (0xdf7e70e5021544f4834bbee64a9e3789febc4be81470df629cad6ddb03320a5c,
    0x737dd0f8387f7f46c2db8a41f27eeb9460d14d4bbf772a2d3f5059e26a77cf5a,
    0x1d333926feb0fb2450a53f5669e8e427eabe0f977bb345525bf729ac10c0da61)

/-- The digests of what is hashed of the two sources: themselves, the parameters, the contract, the records
and the manifests. Of two of these that are as long as each other, the one with the digest of `A` in it has a
`5` where that begins. Anything else has the digest of no bytes. -/
def smallDigest (data : Bytes) : Nat :=
  match data.length with
  | 1 => if data = sourceA then digestsA.1 else digestsB.1
  | 2 => 0x44136fa355b3678a1146ad16f7e8649e94fb4fc21fe77e8310c060f61caaff8a
  | 56 => 0x3332e5680354ff1a95f468fe0e8e1b972c46f278feae5d53ebe40f7a9accfb2c
  | 101 => if data[34]? = some 53 then digestsA.2.1 else digestsB.2.1
  | 510 => if data[218]? = some 53 then digestsA.2.2 else digestsB.2.2
  | _ => 0xe3b0c44298fc1c149afbf4c8996fb92427ae41e4649b934ca495991b7852b855

def smallTools : Tools where
  sha256 data := hexDigest (smallDigest data)
  decode bytes := some (bytes.map fun b => Char.ofNat b.toNat)

theorem smallTools_faithful : smallTools.Faithful where
  isDigest data := isDigest_hexDigest _
  decode_ascii text h := by
    refine congrArg some ?_
    induction text with
    | nil => rfl
    | cons c text ih =>
        unfold encodeText at ih ⊢
        rw [List.flatMap_cons, List.map_append, Archive.utf8EncodeChar_ascii (h c List.mem_cons_self),
          ih fun d hd => h d (List.mem_cons_of_mem _ hd), List.singleton_append]

theorem smallContract_valid : checkFiles ["model.cpp"] "parameters.json" = .ok () := by decide +kernel

def smallContract : ModelFiles := ⟨["model.cpp"], "parameters.json", smallContract_valid⟩

def smallFiles (source : Bytes) : Files := [("model.cpp", source), ("parameters.json", [123, 125])]

def smallDraft (source : Bytes) : Entries := fun path =>
  if path = [] then some .dir
  else if path = ["model.cpp".toList] then some (.regular source 1)
  else if path = ["parameters.json".toList] then some (.regular [123, 125] 1)
  else none

theorem smallTree_empty (path : FilePath) : object ["store".toList] Archive.smallTree path = none := by
  unfold object Archive.smallTree
  dsimp only
  rw [if_neg (List.append_ne_nil_of_right_ne_nil _ (List.cons_ne_nil _ _))]

/-- What is computed, if it is. -/
def valueD {α : Type} (d : α) : Except Error α → α
  | .ok a => a
  | .error _ => d

/-- The manifest of a source. -/
def smallText (source : Bytes) : Bytes :=
  valueD [] (manifest smallTools (smallFiles source) smallContract >>= canonicalBytes)

def smallId (source : Bytes) : String := hexDigest (if source = sourceA then digestsA.2.2 else digestsB.2.2)

/-- The objects of a source. -/
def smallObjects (source : Bytes) : List (FilePath × Bytes) :=
  (smallFiles source).map (fun f => (below f.1 ++ [(smallId source).toList], f.2)) ++
    [([manifestName.toList, (smallId source).toList], smallText source)]

/-- The submission of a source. -/
structure IsSmall (source : Bytes) (sub : Submission smallTools) : Prop where
  contract : sub.contract = smallContract
  files : sub.files = smallFiles source
  length : sub.text.length = 510
  candidateId : sub.candidateId = smallId source
  objects : sub.objects = smallObjects source

theorem exists_submission {source : Bytes}
    (hread : readFiles (smallDraft source) [] true smallContract.paths 100 = .ok (smallFiles source))
    (hmanifest : (manifest smallTools (smallFiles source) smallContract >>= canonicalBytes).map
      (fun text => (text.length, smallTools.sha256 text)) = .ok (510, smallId source)) :
    ∃ sub : Submission smallTools, IsSmall source sub := by
  obtain ⟨text, htext, hboth⟩ := except_map_eq_ok.mp hmanifest
  obtain ⟨hlength, hid⟩ := Prod.mk.inj hboth
  have hsame : smallText source = text := by
    unfold smallText
    rw [htext]
    rfl
  obtain ⟨m, hm, htext⟩ := except_bind_eq_ok.mp htext
  refine ⟨⟨smallContract, smallFiles source, m, text, ⟨_, _, _, hread⟩, hm, htext⟩, rfl, rfl, hlength, hid, ?_⟩
  unfold Submission.objects Submission.home Submission.candidateId smallObjects
  rw [hid, hsame]

theorem exists_submissionA : ∃ sub : Submission smallTools, IsSmall sourceA sub :=
  exists_submission (by decide +kernel) (by decide +kernel)

theorem exists_submissionB : ∃ sub : Submission smallTools, IsSmall sourceB sub :=
  exists_submission (by decide +kernel) (by decide +kernel)

/-- The next object of a call is published. -/
def turn (store : FilePath) (s : System FileTree FilePath Bytes) (i : Nat) :
    Except Error (System FileTree FilePath Bytes) :=
  match s.writers[i]? with
  | some ⟨written, (path, data) :: left⟩ =>
      (publishBytes (path ++ store) data s.store).map fun tree =>
        ⟨tree, s.writers.set i ⟨written ++ [(path, data)], left⟩⟩
  | _ => .error (.file .notFound)

theorem run_of_turns {s₀ s s' : System FileTree FilePath Bytes} {order : List Nat}
    (h : order.foldlM (turn store) s = .ok s') (hs : Reachable s₀ (StoreStep tools grants store) s) :
    Reachable s₀ (StoreStep tools grants store) s' := by
  induction order generalizing s with
  | nil =>
      cases h
      exact hs
  | cons i order ih =>
      rw [List.foldlM_cons] at h
      obtain ⟨s₁, hturn, h⟩ := except_bind_eq_ok.mp h
      refine ih h ?_
      unfold turn at hturn
      split at hturn
      · rename_i written path data left hi
        obtain ⟨tree, hpublish, rfl⟩ := except_map_eq_ok.mp hturn
        exact hs.step (.turn i) (.turn hi hpublish)
      · cases hturn

/-- A turn takes an object from those that are left. -/
theorem objects_turn {s s' : System FileTree FilePath Bytes} {i : Nat} (h : turn store s i = .ok s') :
    s'.writers.map (fun w => w.written ++ w.left) = s.writers.map fun w => w.written ++ w.left := by
  unfold turn at h
  split at h
  · rename_i written path data left hi
    obtain ⟨tree, -, rfl⟩ := except_map_eq_ok.mp h
    obtain ⟨hlt, hget⟩ := List.getElem?_eq_some_iff.mp hi
    have hsame : written ++ [(path, data)] ++ left =
        (s.writers.map fun w => w.written ++ w.left).get ⟨i, by rw [List.length_map]; exact hlt⟩ := by
      rw [List.get_eq_getElem, List.getElem_map, hget, List.append_assoc, List.singleton_append]
    rw [List.map_set, hsame]
    exact List.set_getElem_self _
  · cases h

theorem objects_turns {s s' : System FileTree FilePath Bytes} {order : List Nat}
    (h : order.foldlM (turn store) s = .ok s') :
    s'.writers.map (fun w => w.written ++ w.left) = s.writers.map fun w => w.written ++ w.left := by
  induction order generalizing s with
  | nil =>
      cases h
      rfl
  | cons i order ih =>
      rw [List.foldlM_cons] at h
      obtain ⟨s₁, hturn, h⟩ := except_bind_eq_ok.mp h
      exact (ih h).trans (objects_turn hturn)

/-! ## What the store is for -/

theorem eq_of_sha256 (htools : tools.Faithful) (hsha : Set.InjOn tools.sha256 (ModelFiles.identityBytes '' grants))
    {contract contract' : ModelFiles} (hc : contract ∈ grants) (hc' : contract' ∈ grants)
    (h : tools.sha256 contract.identityBytes = tools.sha256 contract'.identityBytes) : contract = contract' :=
  ModelFiles.identityBytes_injective htools (hsha (Set.mem_image_of_mem _ hc) (Set.mem_image_of_mem _ hc') h)

/-- Whatever calls have begun, in whatever order they have taken their steps, and wherever any of them has stopped: a
candidate is read back if and only if a call has published it to the end, for the same contract, and its files and
its manifest are within the bounds of the reader. What is read is what that call has recorded. -/
theorem read_back_iff_published (htools : tools.Faithful)
    (hsha : Set.InjOn tools.sha256 (ModelFiles.identityBytes '' grants)) {tree₀ : FileTree}
    (hempty : ∀ path, object store tree₀ path = none) {s : System FileTree FilePath Bytes}
    (hs : Reachable ⟨tree₀, []⟩ (StoreStep tools grants store) s) {contract : ModelFiles} (hcontract : contract ∈ grants)
    (candidateId : String) (maximumBytes : Nat) (record : Record) :
    verifySnapshot tools (entries s.store) store candidateId contract maximumBytes = .ok record ↔
      ∃ sub : Submission tools, sub.contract = contract ∧ sub.candidateId = candidateId ∧
        (⟨sub.objects, []⟩ : Publish.Writer FilePath Bytes) ∈ s.writers ∧ 0 < maximumBytes ∧
        totalBytes sub.files ≤ maximumBytes ∧ sub.text.length ≤ manifestGuard contract maximumBytes ∧
        record = ⟨candidateId, sub.manifest.sort⟩ := by
  constructor
  · intro h
    obtain ⟨sub, hgrant, rfl, hwriter, hpublished⟩ := published_of_verifySnapshot hempty hs h
    obtain ⟨rfl, hpositive, htotal, hguard, hrecord⟩ :=
      (verifySnapshot_iff htools hpublished (eq_of_sha256 htools hsha hcontract hgrant)).mp h
    exact ⟨sub, rfl, rfl, hwriter, hpositive, htotal, hguard, hrecord⟩
  · rintro ⟨sub, rfl, rfl, hwriter, hpositive, htotal, hguard, hrecord⟩
    have hpublished : sub.Published store s.store :=
      published_of_objects ((faithful_of_run hempty (publish_of_run hs)).there _ hwriter)
    exact (verifySnapshot_iff htools hpublished fun _ => rfl).mpr ⟨rfl, hpositive, htotal, hguard, hrecord⟩

/-- The calls for two sources take turns, and the first one stops before its manifest: only the second source
can be read back. -/
theorem read_back_iff_published_small : ∃ (s : System FileTree FilePath Bytes) (m : Json),
    Reachable ⟨Archive.smallTree, []⟩ (StoreStep smallTools {smallContract} ["store".toList]) s ∧
      s.writers.map (fun w => (w.written.length, w.left.length)) = [(2, 1), (3, 0)] ∧
      verifySnapshot smallTools (entries s.store) ["store".toList] (smallId sourceB) smallContract 100 =
        .ok ⟨smallId sourceB, m⟩ ∧
      ∀ record, verifySnapshot smallTools (entries s.store) ["store".toList] (smallId sourceA) smallContract 100 ≠
        .ok record := by
  obtain ⟨a, ha⟩ := exists_submissionA
  obtain ⟨b, hb⟩ := exists_submissionB
  have hinj : Set.InjOn smallTools.sha256 (ModelFiles.identityBytes '' {smallContract}) := by
    rw [Set.image_singleton]
    exact Set.injOn_singleton _ _
  have hturns : ([0, 1, 1, 0, 1].foldlM (turn ["store".toList])
      ⟨Archive.smallTree, [⟨[], smallObjects sourceA⟩, ⟨[], smallObjects sourceB⟩]⟩).map
        (fun s => s.writers.map fun w => (w.written.length, w.left.length)) = .ok [(2, 1), (3, 0)] := by
    decide +kernel
  obtain ⟨s, hrun, hlengths⟩ := except_map_eq_ok.mp hturns
  have hbegun : Reachable ⟨Archive.smallTree, []⟩ (StoreStep smallTools {smallContract} ["store".toList])
      ⟨Archive.smallTree, [⟨[], smallObjects sourceA⟩, ⟨[], smallObjects sourceB⟩]⟩ := by
    rw [← ha.objects, ← hb.objects]
    exact (Reachable.start.step (.begin a.objects) (.begin a ha.contract)).step (.begin b.objects) (.begin b hb.contract)
  have hs := run_of_turns hrun hbegun
  -- the second call is the one that is done
  obtain ⟨w, hwriters, hleft⟩ : ∃ w : Publish.Writer FilePath Bytes, s.writers = [w, ⟨smallObjects sourceB, []⟩] ∧
      w.left.length = 1 := by
    obtain ⟨w, ws, hw, hcounts, hrest⟩ := List.map_eq_cons_iff.mp hlengths
    obtain ⟨⟨written, left⟩, ws, rfl, hcounts', hnil⟩ := List.map_eq_cons_iff.mp hrest
    obtain rfl := List.map_eq_nil_iff.mp hnil
    obtain rfl : left = [] := List.length_eq_zero_iff.mp (congrArg Prod.snd hcounts')
    have hobjects := objects_turns hrun
    rw [hw] at hobjects
    obtain ⟨-, hobjects⟩ := List.cons.inj hobjects
    obtain rfl : written = smallObjects sourceB := by
      simpa using (List.cons.inj hobjects).1
    exact ⟨w, hw, congrArg Prod.snd hcounts⟩
  have hread := read_back_iff_published smallTools_faithful hinj smallTree_empty hs rfl
  refine ⟨s, b.manifest.sort, hs, hlengths, ?_, fun record h => ?_⟩
  · refine (hread (smallId sourceB) 100 _).mpr ⟨b, hb.contract, hb.candidateId, ?_, by decide, ?_, ?_, rfl⟩
    · rw [hb.objects, hwriters]
      exact List.mem_cons_of_mem _ List.mem_cons_self
    · rw [hb.files]
      decide
    · rw [hb.length]
      decide
  · -- the call that is done has published another candidate
    obtain ⟨sub, -, hid, hwriter, -⟩ := (hread (smallId sourceA) 100 record).mp h
    rw [hwriters, List.mem_cons, List.mem_singleton] at hwriter
    rcases hwriter with hwriter | hwriter
    · rw [← hwriter] at hleft
      cases hleft
    · have hlast := getLast?_objects sub
      rw [(Publish.Writer.mk.inj hwriter).1] at hlast
      have hhome : [manifestName.toList, (smallId sourceB).toList] = manifestName.toList :: sub.home :=
        congrArg Prod.fst (Option.some.inj ((List.getLast?_concat ..).symm.trans hlast))
      have hother : sub.candidateId = smallId sourceB :=
        (String.toList_inj.mp (List.cons.inj (List.cons.inj hhome).2).1).symm
      rw [hid] at hother
      exact absurd hother (by decide)

/-- From when a call has returned, and whatever happens in the store and outside of it: a new workspace is made of
the candidate whenever files and manifest are within the bounds, and then it has, to the byte, the files that the call
read in the workspace of the agent, and nothing else. -/
theorem returned_materializes (htools : tools.Faithful) {draft : Entries} {agent : FilePath} {contract : ModelFiles}
    {maximumBytes : Nat} {record : Record} (hgrant : contract ∈ grants)
    (h : snapshot tools draft agent store contract maximumBytes tree = .ok (record, tree'))
    {writers : List (Publish.Writer FilePath Bytes)} {s : System FileTree FilePath Bytes}
    (hs : Reachable ⟨tree', writers⟩ (StoreStep tools grants store) s) (hnew : NewDirectory s.store workspace)
    (bytes : Nat) :
    ∃ files text, readFiles draft agent true contract.paths maximumBytes = .ok files ∧
      canonicalBytes record.manifest = .ok text ∧
      ((∃ result, materialize tools store record.candidateId workspace contract bytes s.store = .ok result) ↔
        0 < bytes ∧ totalBytes files ≤ bytes ∧ text.length ≤ manifestGuard contract bytes) ∧
      ∀ result made, materialize tools store record.candidateId workspace contract bytes s.store = .ok (result, made) →
        result = ⟨record.candidateId, record.manifest.sort⟩ ∧
          s.store.Populated workspace (files.map draftFile) made := by
  obtain ⟨sub, rfl, hread, rfl, hpublished, -⟩ := snapshot_eq_ok htools h
  have hlater : sub.Published store s.store := hpublished.of_run hs
  have hverify (r : Record) : verifySnapshot tools (entries s.store) store sub.candidateId sub.contract bytes = .ok r ↔
      sub.contract = sub.contract ∧ 0 < bytes ∧ totalBytes sub.files ≤ bytes ∧
        sub.text.length ≤ manifestGuard sub.contract bytes ∧ r = ⟨sub.candidateId, sub.manifest.sort⟩ :=
    verifySnapshot_iff htools hlater fun _ => rfl
  have hmade : ∀ result made, materialize tools store sub.candidateId workspace sub.contract bytes s.store =
      .ok (result, made) → (0 < bytes ∧ totalBytes sub.files ≤ bytes ∧
        sub.text.length ≤ manifestGuard sub.contract bytes) ∧ result = ⟨sub.candidateId, sub.manifest.sort⟩ ∧
          s.store.Populated workspace (sub.files.map draftFile) made := by
    intro result made hresult
    obtain ⟨record, hrecord, -⟩ := except_bind_eq_ok.mp (id hresult)
    obtain ⟨-, hpositive, htotal, hguard, rfl⟩ := (hverify record).mp hrecord
    obtain ⟨made', hmade', hpopulated⟩ := materialize_eq_ok htools hlater hnew htotal hrecord
    rw [hmade'] at hresult
    cases hresult
    exact ⟨⟨hpositive, htotal, hguard⟩, rfl, hpopulated⟩
  refine ⟨sub.files, sub.text, hread, sub.text_eq, ⟨?_, ?_⟩, fun result made hresult => (hmade result made hresult).2⟩
  · rintro ⟨⟨result, made⟩, hresult⟩
    exact (hmade result made hresult).1
  · rintro ⟨hpositive, htotal, hguard⟩
    obtain ⟨made, hresult, -⟩ := materialize_eq_ok htools hlater hnew htotal
      ((hverify _).mpr ⟨rfl, hpositive, htotal, hguard, rfl⟩)
    exact ⟨_, hresult⟩

/-- The candidate goes to a new workspace, after another call has published part of its own. -/
theorem returned_materializes_small : ∃ (record : Record) (s : System FileTree FilePath Bytes) (made : FileTree),
    s.writers.map (fun w => (w.written.length, w.left.length)) = [(2, 1)] ∧
      materialize smallTools ["store".toList] record.candidateId ["new".toList] smallContract 100 s.store =
        .ok (⟨record.candidateId, record.manifest.sort⟩, made) ∧
      made.node ["model.cpp".toList, "new".toList] = some (.file sourceA false) := by
  obtain ⟨b, hb⟩ := exists_submissionB
  have hsmall : ((snapshot smallTools (smallDraft sourceA) [] ["store".toList] smallContract 100 Archive.smallTree).bind fun r =>
      (canonicalBytes r.1.manifest).bind fun text =>
        ([0, 0].foldlM (turn ["store".toList]) ⟨r.2, [⟨[], smallObjects sourceB⟩]⟩).map fun s =>
          (decide (text.length ≤ manifestGuard smallContract 100 ∧ s.store.node ["new".toList] = none),
            s.writers.map fun w => (w.written.length, w.left.length))) = .ok (true, [(2, 1)]) := by decide +kernel
  obtain ⟨⟨record, tree⟩, hcall, hmore⟩ := except_bind_eq_ok.mp hsmall
  obtain ⟨text, htext, hmore⟩ := except_bind_eq_ok.mp hmore
  obtain ⟨s, hrun, hmore⟩ := except_map_eq_ok.mp hmore
  obtain ⟨hguard, hfree⟩ := of_decide_eq_true (congrArg Prod.fst hmore)
  have hbegun : Reachable ⟨tree, []⟩ (StoreStep smallTools {smallContract} ["store".toList])
      ⟨tree, [⟨[], smallObjects sourceB⟩]⟩ := by
    rw [← hb.objects]
    exact Reachable.start.step (.begin b.objects) (.begin b hb.contract)
  have hnew : NewDirectory s.store ["new".toList] := ⟨s.store.root, hfree⟩
  obtain ⟨files, text', hread, htext', hmaterialize, hresult⟩ :=
    returned_materializes smallTools_faithful (Set.mem_singleton smallContract) hcall (run_of_turns hrun hbegun) hnew 100
  obtain rfl : text = text' := Except.ok.inj (htext.symm.trans htext')
  obtain rfl : files = smallFiles sourceA := Except.ok.inj (hread.symm.trans (by decide +kernel))
  obtain ⟨⟨result, made⟩, hmade⟩ := hmaterialize.mpr ⟨by decide, by decide, hguard⟩
  obtain ⟨rfl, hpopulated⟩ := hresult result made hmade
  exact ⟨record, s, made, congrArg Prod.snd hmore, hmade, hpopulated.file _ List.mem_cons_self⟩

/-- The bytes that are hashed for a submission. -/
def Submission.hashed (sub : Submission tools) : Set Bytes :=
  {data | data = sub.text ∨ data = sub.contract.identityBytes ∨ ∃ f ∈ sub.files, data = f.2}

/-- Files with the same names, in the same order, are the same if those of one name are. -/
theorem files_ext {fs gs : Files} (hnames : fs.map Prod.fst = gs.map Prod.fst)
    (h : ∀ f ∈ fs, ∀ g ∈ gs, f.1 = g.1 → f.2 = g.2) : fs = gs := by
  induction fs generalizing gs with
  | nil => exact (List.map_eq_nil_iff.mp hnames.symm).symm
  | cons f fs ih =>
      cases gs with
      | nil => cases hnames
      | cons g gs =>
          rw [List.map_cons, List.map_cons] at hnames
          obtain ⟨hname, hnames⟩ := List.cons.inj hnames
          have hdata := h f List.mem_cons_self g List.mem_cons_self hname
          rw [Prod.ext hname hdata, ih hnames fun f' hf' g' hg' =>
            h f' (List.mem_cons_of_mem _ hf') g' (List.mem_cons_of_mem _ hg')]

/-- Where the hashed bytes have different digests, submissions have one identity if and only if they are the same
files for the same contract. -/
theorem candidateId_eq_iff (htools : tools.Faithful) (sub sub' : Submission tools)
    (hsha : Set.InjOn tools.sha256 (sub.hashed ∪ sub'.hashed)) :
    sub.candidateId = sub'.candidateId ↔ sub.contract = sub'.contract ∧ sub.files = sub'.files := by
  constructor
  · intro h
    have htext : sub.text = sub'.text := hsha (.inl (.inl rfl)) (.inr (.inl rfl)) h
    have hsort : sub.manifest.sort = sub'.manifest.sort :=
      sort_of_canonicalBytes htools sub.text_eq (htext ▸ sub'.text_eq) sub.distinctKeys sub'.distinctKeys
    have hcontract : sub.contract = sub'.contract := by
      have hfield := contract_of_manifest sub.manifest_eq sub.nodup
      rw [hsort, contract_of_manifest sub'.manifest_eq sub'.nodup] at hfield
      have hdigest := Json.str.inj (Option.some.inj hfield)
      exact ModelFiles.identityBytes_injective htools
        (hsha (.inl (.inr (.inl rfl))) (.inr (.inr (.inl rfl))) hdigest.symm)
    refine ⟨hcontract, files_ext (by rw [sub.names_eq, sub'.names_eq, hcontract]) fun f hf g hg hname => ?_⟩
    -- the records of a name are the same, and with them the digests
    have hrecord := record_of_manifest sub.manifest_eq sub.nodup hf
    rw [hsort, hname, record_of_manifest sub'.manifest_eq sub'.nodup hg] at hrecord
    have hfield : (fileRecord tools f.2).sort.field? "sha256" = some (.str (tools.sha256 f.2)) := sha256_fileRecord f.2
    rw [← Option.some.inj hrecord, sha256_fileRecord] at hfield
    have hdigest := Json.str.inj (Option.some.inj hfield)
    exact (hsha (.inr (.inr (.inr ⟨g, hg, rfl⟩))) (.inl (.inr (.inr ⟨f, hf, rfl⟩))) hdigest).symm
  · rintro ⟨hcontract, hfiles⟩
    have hmanifest := sub.manifest_eq
    rw [hcontract, hfiles, sub'.manifest_eq] at hmanifest
    have htext := sub.text_eq
    rw [← Except.ok.inj hmanifest, sub'.text_eq] at htext
    unfold Submission.candidateId
    rw [Except.ok.inj htext]

/-- Two sources, and two identities. -/
theorem candidateId_eq_iff_small : ∃ sub sub' : Submission smallTools, sub.contract = sub'.contract ∧
    sub.candidateId ≠ sub'.candidateId := by
  obtain ⟨a, ha⟩ := exists_submissionA
  obtain ⟨b, hb⟩ := exists_submissionB
  have hdigests : [a.text, b.text, smallContract.identityBytes, sourceA, [123, 125], sourceB].map smallTools.sha256 =
      smallId sourceA :: smallId sourceB :: [smallContract.identityBytes, sourceA, [123, 125], sourceB].map
        smallTools.sha256 := by
    rw [← ha.candidateId, ← hb.candidateId]
    rfl
  have hnodup : ([a.text, b.text, smallContract.identityBytes, sourceA, [123, 125], sourceB].map
      smallTools.sha256).Nodup := by
    rw [hdigests]
    decide +kernel
  have hall : ∀ data ∈ a.hashed ∪ b.hashed, data ∈
      [a.text, b.text, smallContract.identityBytes, sourceA, [123, 125], sourceB] := by
    rintro data ((hdata | hdata | ⟨f, hf, hdata⟩) | hdata | hdata | ⟨f, hf, hdata⟩)
    · simp [hdata]
    · simp [hdata, ha.contract]
    · rw [ha.files, smallFiles, List.mem_cons, List.mem_singleton] at hf
      rcases hf with rfl | rfl
      · simp [hdata]
      · simp [hdata]
    · simp [hdata]
    · simp [hdata, hb.contract]
    · rw [hb.files, smallFiles, List.mem_cons, List.mem_singleton] at hf
      rcases hf with rfl | rfl
      · simp [hdata]
      · simp [hdata]
  refine ⟨a, b, ha.contract.trans hb.contract.symm, fun h => ?_⟩
  obtain ⟨-, hsame⟩ := (candidateId_eq_iff smallTools_faithful a b fun x hx y hy hxy =>
    List.inj_on_of_nodup_map hnodup (hall x hx) (hall y hy) hxy).mp h
  rw [ha.files, hb.files] at hsame
  exact absurd hsame (by decide)

end Ramulator.ChiaLoop.Snapshots
