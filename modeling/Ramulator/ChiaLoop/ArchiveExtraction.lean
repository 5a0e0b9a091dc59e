/-
# Ramulator.ChiaLoop.ArchiveExtraction — what a verified archive holds, and what becomes of it on disk.

`Indexed` has what `index` has checked and `Stored` what `verify` has found of a payload: its bytes are all
that its ZIP member holds, and have the size and the digest of the inventory. Names that pass are distinct, go
down from the destination, and none is on the way to another, so the loop of `extract` runs through
(`extractMembers_populated`) and leaves a directory with the payloads and what leads to them.
-/
import Ramulator.ChiaLoop.Archive

namespace Ramulator.ChiaLoop.Archive

open Ramulator.Lib

variable {Archive : Type} {tools : Tools Archive} {limits : ReadLimits} {infos : List ZipInfo} {manifest : Json}
  {members : List Member}

/-! ## Names -/

theorem safeName_eq_ok {name text : String} (h : safeName name = .ok text) : SafeName name ∧ text = name := by
  unfold safeName at h
  split_ifs at h with hsafe
  cases h
  exact ⟨hsafe, rfl⟩

theorem SafeName.plain {name : String} (h : SafeName name) :
    ∀ part ∈ FileTree.parts name.toList, FileTree.PlainPart part := h.2.2.2.2

theorem safeName_manifestName : SafeName manifestName := by decide

/-- Where a name leads from the destination. -/
def below (name : String) : FilePath := (FileTree.parts name.toList).reverse

theorem target_eq {destination : FilePath} {name : String} (h : SafeName name) :
    target destination name = below name ++ destination := FileTree.join_eq h.plain

theorem below_ne_nil (name : String) : below name ≠ [] := by
  unfold below
  rw [Ne, List.reverse_eq_nil_iff]
  exact FileTree.parts_ne_nil _

theorem below_injective {name name' : String} (h : below name = below name') : name = name' :=
  String.toList_inj.mp (FileTree.parts_injective (List.reverse_inj.mp h))

theorem pureParts_eq {name : String} (h : SafeName name) : pureParts name.toList = FileTree.parts name.toList := by
  unfold pureParts
  rw [List.filter_eq_self]
  intro part hpart
  exact decide_eq_true ⟨(h.plain part hpart).1, (h.plain part hpart).2.1⟩

theorem pureRoot_eq {name : String} (h : SafeName name) : pureRoot name.toList = [] := by
  have hslash (cs : List Char) : name.toList ≠ '/' :: cs := by
    intro hname
    have hempty : ([] : Part) ∈ FileTree.parts name.toList := by
      unfold FileTree.parts
      rw [hname, List.splitOn_cons_eq_if_modifyHead, if_pos (beq_self_eq_true '/')]
      exact List.mem_cons_self
    exact (h.plain [] hempty).1 rfl
  unfold pureRoot
  split
  · rename_i hname
    exact absurd hname (hslash _)
  · rename_i hname
    exact absurd hname (hslash _)
  · rename_i hname
    exact absurd hname (hslash _)
  · rfl

/-- A name that is on the way to another is one of its parents. -/
theorem mem_parents {name name' : String} (h : SafeName name) (h' : SafeName name')
    (hway : FileTree.parts name.toList <+: FileTree.parts name'.toList) (hne : name ≠ name') :
    name ∈ parents name' ∧ name ≠ "." := by
  have hdot : name ≠ "." := by
    rintro rfl
    exact (h.plain ['.'] (by decide)).2.1 rfl
  have htake := List.prefix_iff_eq_take.mp hway
  have hlt : (FileTree.parts name.toList).length < (FileTree.parts name'.toList).length := by
    refine Nat.lt_of_le_of_ne hway.length_le fun hlength => hne ?_
    rw [hlength, List.take_length] at htake
    exact String.toList_inj.mp (FileTree.parts_injective htake)
  refine ⟨?_, hdot⟩
  unfold parents
  rw [pureParts_eq h', pureRoot_eq h']
  refine List.mem_map.mpr ⟨_, List.mem_range.mpr hlt, ?_⟩
  have hjoin : ['/'].intercalate (FileTree.parts name.toList) = name.toList := List.intercalate_splitOn '/'
  have hname : name.toList ≠ [] := fun hempty => h.1 (String.toList_inj.mp hempty)
  unfold pureText
  rw [← htake, List.nil_append, hjoin, if_neg hname, String.ofList_toList]

/-! ## What the index has checked -/

/-- The ZIP directory, the manifest and the inventory agree. -/
structure Indexed (tools : Tools Archive) (limits : ReadLimits) (infos : List ZipInfo) (manifest : Json)
    (members : List Member) : Prop where
  safe : ∀ info ∈ infos, SafeName info.filename
  nodup : (infos.map ZipInfo.filename).Nodup
  apart : ∀ name ∈ infos.map ZipInfo.filename, ∀ parent ∈ parents name,
    parent ≠ "." → parent ∉ infos.map ZipInfo.filename
  manifest_mem : manifestName ∈ infos.map ZipInfo.filename
  read : readManifest tools limits infos = .ok manifest
  inventory : inventory limits manifest = .ok members
  members_nodup : (members.map fun m => m.name).Nodup
  members_mem : ∀ m ∈ members, m.name ∈ infos.map ZipInfo.filename ∧ m.name ≠ manifestName
  infos_mem : ∀ info ∈ infos, info.filename ≠ manifestName → info.filename ∈ members.map fun m => m.name
  size : ∀ m ∈ members, ∃ info, getinfo infos m.name = .ok info ∧ info.fileSize = m.storedBytes

theorem mapM_safeName {names : List String} (h : (infos.mapM fun info => safeName info.filename) = .ok names) :
    names = infos.map ZipInfo.filename ∧ ∀ info ∈ infos, SafeName info.filename := by
  have hall := mapM_ok.mp h
  clear h
  induction hall with
  | nil => exact ⟨rfl, List.forall_mem_nil _⟩
  | cons hname _ ih =>
      obtain ⟨hsafe, rfl⟩ := safeName_eq_ok hname
      exact ⟨by rw [List.map_cons, ih.1], List.forall_mem_cons.mpr ⟨hsafe, ih.2⟩⟩

theorem indexed_of_index (h : index tools limits infos = .ok (manifest, members)) :
    Indexed tools limits infos manifest members := by
  unfold index at h
  obtain ⟨_, hdirectory, h⟩ := except_bind_eq_ok.mp h
  obtain ⟨manifest', hread, h⟩ := except_bind_eq_ok.mp h
  obtain ⟨members', hinventory, h⟩ := except_bind_eq_ok.mp h
  obtain ⟨_, hchecked, h⟩ := except_bind_eq_ok.mp h
  cases h
  -- the directory
  unfold checkDirectory at hdirectory
  obtain ⟨_, -, hdirectory⟩ := except_bind_eq_ok.mp hdirectory
  obtain ⟨names, hnames, hdirectory⟩ := except_bind_eq_ok.mp hdirectory
  obtain ⟨_, hnodup, hdirectory⟩ := except_bind_eq_ok.mp hdirectory
  obtain ⟨_, hconflict, hdirectory⟩ := except_bind_eq_ok.mp hdirectory
  obtain ⟨_, -, hmissing⟩ := except_bind_eq_ok.mp hdirectory
  obtain ⟨rfl, hsafe⟩ := mapM_safeName hnames
  rw [throwIf_eq_ok, not_not] at hnodup hmissing
  rw [throwIf_eq_ok] at hconflict
  -- the inventory
  unfold checkInventory at hchecked
  obtain ⟨_, hdistinct, hchecked⟩ := except_bind_eq_ok.mp hchecked
  obtain ⟨_, hlisted, hchecked⟩ := except_bind_eq_ok.mp hchecked
  obtain ⟨_, -, hchecked⟩ := except_bind_eq_ok.mp hchecked
  obtain ⟨_, -, hchecked⟩ := except_bind_eq_ok.mp hchecked
  rw [throwIf_eq_ok, not_not] at hdistinct hlisted
  have hsizes := forM_ok.mp hchecked
  refine ⟨hsafe, hnodup, ?_, hmissing, hread, hinventory, hdistinct, hlisted.1, hlisted.2, ?_⟩
  · intro name hname parent hparent hdot hmem
    exact hconflict ⟨name, hname, parent, hparent, hdot, hmem⟩
  · intro m hm
    have hcheck := hsizes m hm
    unfold checkMember at hcheck
    obtain ⟨info, hinfo, hcheck⟩ := except_bind_eq_ok.mp hcheck
    obtain ⟨_, hsize, -⟩ := except_bind_eq_ok.mp hcheck
    rw [throwIf_eq_ok, not_not] at hsize
    exact ⟨info, hinfo, hsize⟩

/-- Of two names in the directory, neither leads to the other. -/
theorem Indexed.not_way (h : Indexed tools limits infos manifest members) {name name' : String}
    (hname : name ∈ infos.map ZipInfo.filename) (hname' : name' ∈ infos.map ZipInfo.filename) (hne : name ≠ name') :
    ¬below name <:+ below name' := by
  intro hway
  obtain ⟨info, hinfo, rfl⟩ := List.mem_map.mp hname
  obtain ⟨info', hinfo', rfl⟩ := List.mem_map.mp hname'
  obtain ⟨hparent, hdot⟩ := mem_parents (h.safe info hinfo) (h.safe info' hinfo') (List.reverse_suffix.mp hway) hne
  exact h.apart _ hname' _ hparent hdot hname

theorem Indexed.safe_of_mem (h : Indexed tools limits infos manifest members) {name : String}
    (hname : name ∈ infos.map ZipInfo.filename) : SafeName name := by
  obtain ⟨info, hinfo, rfl⟩ := List.mem_map.mp hname
  exact h.safe info hinfo

/-! ## What a verified payload is -/

theorem flatMap_chunks (n k : Nat) (content : Bytes) :
    ((List.range k).map fun i => (content.drop (i * n)).take n).flatMap id = content.take (k * n) := by
  induction k with
  | zero => rw [Nat.zero_mul, List.take_zero, List.range_zero, List.map_nil, List.flatMap_nil]
  | succ k ih =>
      rw [List.range_succ, List.map_append, List.flatMap_append, ih, Nat.succ_mul, List.take_add,
        List.map_singleton, List.flatMap_singleton, id]

/-- The reads of a file are the file. -/
theorem flatMap_chunksOf {n : Nat} (hn : 0 < n) (content : Bytes) : (chunksOf n content).flatMap id = content := by
  unfold chunksOf
  rw [flatMap_chunks, List.take_of_length_le]
  exact Nat.le_of_lt (Nat.lt_mul_of_div_lt (Nat.lt_succ_self _) hn)

/-- A reader takes its bytes from the front of what is stored. -/
theorem reads_front (codec : Codec) (content : Bytes) :
    (tools.reads codec content).chunks.flatMap Chunk.stored <+: content := by
  cases codec with
  | none =>
      show ((chunksOf chunkBytes content).map fun data => (⟨data, data⟩ : Chunk)).flatMap Chunk.stored <+: content
      rw [List.flatMap_map]
      show (chunksOf chunkBytes content).flatMap id <+: content
      rw [flatMap_chunksOf (by decide)]
  | gzip => exact tools.expand_front .gzip content
  | xz => exact tools.expand_front .xz content

theorem foldlM_identityStep {maximumStored maximumLogical : Nat} {chunks : List Chunk} {s s' : Bytes × Bytes}
    (h : chunks.foldlM (identityStep maximumStored maximumLogical) s = .ok s') :
    s'.1 = s.1 ++ chunks.flatMap Chunk.stored := by
  induction chunks generalizing s with
  | nil =>
      cases h
      exact (List.append_nil _).symm
  | cons chunk chunks ih =>
      rw [List.foldlM_cons] at h
      obtain ⟨s₁, hstep, h⟩ := except_bind_eq_ok.mp h
      unfold identityStep at hstep
      obtain ⟨_, -, hstep⟩ := except_bind_eq_ok.mp hstep
      obtain ⟨_, -, hstep⟩ := except_bind_eq_ok.mp hstep
      cases hstep
      rw [ih h, List.flatMap_cons, List.append_assoc]

theorem make_eq_ok {f : Fields} {m : Member} (h : Member.make f = .ok m) : m.toFields = f := by
  unfold Member.make at h
  split at h
  · cases h
    rfl
  · cases h

/-- The stored identity is of bytes from the front of the content. -/
theorem identity_eq_ok {content : Except String Bytes} {name : String} {codec : Codec} {executable : Bool}
    {maximumStored maximumLogical : Nat} {m : Member}
    (h : identity tools content name codec executable maximumStored maximumLogical = .ok m) :
    ∃ bytes stored, content = .ok bytes ∧ stored <+: bytes ∧ m.storedBytes = stored.length ∧
      m.storedSha256 = tools.sha256 stored := by
  unfold identity at h
  obtain ⟨bytes, hbytes, h⟩ := except_bind_eq_ok.mp h
  obtain ⟨s, hs, h⟩ := except_bind_eq_ok.mp h
  obtain ⟨_, -, h⟩ := except_bind_eq_ok.mp h
  have hfields := make_eq_ok h
  have hstored := foldlM_identityStep hs
  refine ⟨bytes, s.1, except_mapError_eq_ok.mp hbytes, ?_, by rw [hfields], by rw [hfields]⟩
  rw [hstored, List.nil_append]
  exact reads_front codec bytes

/-- The bytes of the ZIP member of a name. -/
def contentOf (infos : List ZipInfo) (name : String) : Bytes :=
  match getinfo infos name with
  | .ok info =>
      match info.content with
      | .ok content => content
      | .error _ => []
  | .error _ => []

/-- The ZIP member of a payload has the bytes that the inventory says. -/
structure Stored (tools : Tools Archive) (infos : List ZipInfo) (m : Member) : Prop where
  content : ∃ info, getinfo infos m.name = .ok info ∧ info.content = .ok (contentOf infos m.name)
  size : (contentOf infos m.name).length = m.storedBytes
  digest : tools.sha256 (contentOf infos m.name) = m.storedSha256

/-- A reader may stop before the end of what is stored, as at bytes after the last stream of a codec. But the
inventory has the size of the ZIP member, so what was read was all. -/
theorem stored_of_verifyMember {m : Member} (h : verifyMember tools infos m = .ok ())
    (hsize : ∃ info, getinfo infos m.name = .ok info ∧ info.fileSize = m.storedBytes) : Stored tools infos m := by
  unfold verifyMember at h
  obtain ⟨info, hinfo, h⟩ := except_bind_eq_ok.mp h
  obtain ⟨actual, hactual, h⟩ := except_bind_eq_ok.mp h
  rw [throwIf_eq_ok, not_not] at h
  subst h
  obtain ⟨bytes, stored, hbytes, hfront, hcount, hdigest⟩ := identity_eq_ok hactual
  obtain ⟨info', hinfo', hsize⟩ := hsize
  rw [hinfo] at hinfo'
  cases hinfo'
  have hall : stored = bytes := by
    refine hfront.eq_of_length (Nat.le_antisymm hfront.length_le ?_)
    rw [← hcount, ← hsize]
    exact info.content_le bytes hbytes
  have hcontent : contentOf infos actual.name = bytes := by
    unfold contentOf
    rw [hinfo]
    dsimp only
    rw [hbytes]
  subst hall
  exact ⟨⟨info, hinfo, by rw [hcontent, hbytes]⟩, by rw [hcontent, hcount], by rw [hcontent, hdigest]⟩

/-- What `verify` has found. -/
structure Verified (tools : Tools Archive) (raw : Archive) (limits : ReadLimits) (infos : List ZipInfo)
    (checked : Checked) (members : List Member) : Prop where
  infolist : tools.infolist raw = .ok infos
  digest : checked.archiveSha256 = tools.fileDigest raw
  index : index tools limits infos = .ok (checked.manifest, members)
  indexed : Indexed tools limits infos checked.manifest members
  stored : ∀ m ∈ members, Stored tools infos m

theorem verified_of_verify {raw : Archive} {expectedSha256 : Option String} {checked : Checked}
    (h : verify tools raw expectedSha256 limits = .ok checked) :
    ∃ infos members, Verified tools raw limits infos checked members := by
  have h := except_mapError_eq_ok.mp h
  unfold verifyRaw at h
  obtain ⟨_, -, h⟩ := except_bind_eq_ok.mp h
  obtain ⟨infos, hinfos, h⟩ := except_bind_eq_ok.mp h
  obtain ⟨⟨manifest, members⟩, hindex, h⟩ := except_bind_eq_ok.mp h
  obtain ⟨_, hmembers, h⟩ := except_bind_eq_ok.mp h
  cases h
  have hindexed := indexed_of_index hindex
  refine ⟨infos, members, except_mapError_eq_ok.mp hinfos, rfl, hindex, hindexed, ?_⟩
  exact fun m hm => stored_of_verifyMember (forM_ok.mp hmembers m hm) (hindexed.size m hm)

/-! ## Extraction -/

variable {destination : FilePath} {tree₀ tree : FileTree} {files : List (FilePath × FileNode)}

/-- The file of a payload, below the destination. -/
def fileOf (infos : List ZipInfo) (m : Member) : FilePath × FileNode :=
  (below m.name, .file (contentOf infos m.name) m.executable)

/-- One payload is written, if it is on no way to another file and has none on its way. -/
theorem extractMember_populated {m : Member} (h : tree₀.Populated destination files tree) (hsafe : SafeName m.name)
    (hstored : Stored tools infos m) (hfresh : ∀ f ∈ files, ¬below m.name <:+ f.1)
    (hway : ∀ f ∈ files, ¬f.1 <:+ below m.name) :
    ∃ tree', extractMember tools infos destination tree m = .ok tree' ∧
      tree₀.Populated destination (files ++ [fileOf infos m]) tree' := by
  obtain ⟨info, hinfo, hcontent⟩ := hstored.content
  obtain ⟨part, q, hbelow⟩ := List.exists_cons_of_ne_nil (below_ne_nil m.name)
  have htarget : target destination m.name = part :: (q ++ destination) := by
    rw [target_eq hsafe, hbelow, List.cons_append]
  rw [hbelow] at hfresh hway
  obtain ⟨t₁, t₂, hmake, hopen, hadd⟩ := h.add hfresh hway (contentOf infos m.name) m.executable
  refine ⟨_, ?_, by unfold fileOf; rw [hbelow]; exact hadd⟩
  unfold extractMember
  dsimp only
  rw [htarget]
  refine except_bind_eq_ok.mpr ⟨t₁, except_mapError_eq_ok.mpr hmake, ?_⟩
  refine except_bind_eq_ok.mpr ⟨info, hinfo, ?_⟩
  refine except_bind_eq_ok.mpr ⟨t₂, except_mapError_eq_ok.mpr hopen, ?_⟩
  refine except_bind_eq_ok.mpr ⟨contentOf infos m.name, except_mapError_eq_ok.mpr hcontent, ?_⟩
  refine except_bind_eq_ok.mpr ⟨(), throwIf_eq_ok.mpr (Nat.not_lt.mpr (Nat.le_of_eq hstored.size)), ?_⟩
  exact except_bind_eq_ok.mpr
    ⟨(), throwIf_eq_ok.mpr (not_or.mpr ⟨not_not.mpr hstored.size, not_not.mpr hstored.digest⟩), rfl⟩

/-- The loop over the payloads. -/
theorem extractMembers_populated {ms : List Member} (h : tree₀.Populated destination files tree)
    (hsafe : ∀ m ∈ ms, SafeName m.name) (hstored : ∀ m ∈ ms, Stored tools infos m)
    (hapart : ms.Pairwise fun m m' => ¬below m.name <:+ below m'.name ∧ ¬below m'.name <:+ below m.name)
    (hfiles : ∀ m ∈ ms, ∀ f ∈ files, ¬below m.name <:+ f.1 ∧ ¬f.1 <:+ below m.name) :
    ∃ tree', ms.foldlM (extractMember tools infos destination) tree = .ok tree' ∧
      tree₀.Populated destination (files ++ ms.map (fileOf infos)) tree' := by
  induction ms generalizing files tree with
  | nil => exact ⟨tree, rfl, by rw [List.map_nil, List.append_nil]; exact h⟩
  | cons m ms ih =>
      obtain ⟨hm, hms⟩ := List.pairwise_cons.mp hapart
      have hmfiles := hfiles m List.mem_cons_self
      obtain ⟨tree₁, hextract, h₁⟩ := extractMember_populated h (hsafe m List.mem_cons_self)
        (hstored m List.mem_cons_self) (fun f hf => (hmfiles f hf).1) (fun f hf => (hmfiles f hf).2)
      have hrest : ∀ m' ∈ ms, ∀ f ∈ files ++ [fileOf infos m], ¬below m'.name <:+ f.1 ∧ ¬f.1 <:+ below m'.name := by
        intro m' hm' f hf
        rcases List.mem_append.mp hf with hf | hf
        · exact hfiles m' (List.mem_cons_of_mem _ hm') f hf
        · rw [List.mem_singleton.mp hf]
          exact (hm m' hm').symm
      obtain ⟨tree', hfold, h'⟩ := ih h₁ (fun m' hm' => hsafe m' (List.mem_cons_of_mem _ hm'))
        (fun m' hm' => hstored m' (List.mem_cons_of_mem _ hm')) hms hrest
      refine ⟨tree', ?_, ?_⟩
      · rw [List.foldlM_cons, hextract]
        exact hfold
      · rw [List.append_assoc, List.singleton_append] at h'
        exact h'

/-- Payloads are apart from each other, as their names are. -/
theorem Indexed.pairwise (h : Indexed tools limits infos manifest members) :
    members.Pairwise fun m m' => ¬below m.name <:+ below m'.name ∧ ¬below m'.name <:+ below m.name := by
  have hdistinct := List.pairwise_map.mp h.members_nodup
  refine hdistinct.imp_of_mem fun {m m'} hm hm' hne => ?_
  have hname := (h.members_mem m hm).1
  have hname' := (h.members_mem m' hm').1
  exact ⟨h.not_way hname hname' hne, h.not_way hname' hname hne.symm⟩

theorem below_manifestName : below manifestName = [manifestName.toList] := by decide

/-- A destination that is new: its parent is a directory, and nothing is there. -/
structure NewDirectory (tree : FileTree) (destination : FilePath) : Prop where
  parent : tree.node destination.tail = some .dir
  free : tree.node destination = none

theorem NewDirectory.makeDir (h : NewDirectory tree destination) :
    ∃ tree', tree.makeDir destination = .ok tree' ∧ tree.Populated destination [] tree' := by
  cases destination with
  | nil =>
      have hfree := h.free
      rw [tree.root] at hfree
      cases hfree
  | cons part path => exact FileTree.makeDir_populated h.parent h.free

/-- The files of an extracted archive. -/
def filesOf (infos : List ZipInfo) (members : List Member) (content : Bytes) : List (FilePath × FileNode) :=
  members.map (fileOf infos) ++ [(below manifestName, .file content false)]

/-- Up to the manifest nothing fails. -/
theorem Verified.extractMembers {raw : Archive} {checked : Checked}
    (h : Verified tools raw limits infos checked members) (hnew : NewDirectory tree₀ destination) :
    ∃ tree₁ tree₂, tree₀.makeDir destination = .ok tree₁ ∧
      members.foldlM (extractMember tools infos destination) tree₁ = .ok tree₂ ∧
      tree₀.Populated destination (members.map (fileOf infos)) tree₂ := by
  obtain ⟨tree₁, hmake, h₁⟩ := hnew.makeDir
  have hsafe : ∀ m ∈ members, SafeName m.name := fun m hm =>
    h.indexed.safe_of_mem (h.indexed.members_mem m hm).1
  obtain ⟨tree₂, hfold, h₂⟩ := extractMembers_populated h₁ hsafe h.stored h.indexed.pairwise
    fun m _ => List.forall_mem_nil _
  exact ⟨tree₁, tree₂, hmake, hfold, h₂⟩

/-- The manifest is apart from the payloads. -/
theorem Indexed.manifest_apart (h : Indexed tools limits infos manifest members) :
    (∀ f ∈ members.map (fileOf infos), ¬below manifestName <:+ f.1) ∧
      ∀ f ∈ members.map (fileOf infos), ¬f.1 <:+ below manifestName := by
  refine ⟨?_, ?_⟩ <;>
    intro f hf <;>
      obtain ⟨m, hm, rfl⟩ := List.mem_map.mp hf
  · exact h.not_way h.manifest_mem (h.members_mem m hm).1 (h.members_mem m hm).2.symm
  · exact h.not_way (h.members_mem m hm).1 h.manifest_mem (h.members_mem m hm).2

/-- With a text of the manifest, extraction succeeds, and leaves the files. -/
theorem Verified.extract_eq_ok {raw : Archive} {checked : Checked} {expectedSha256 : Option String}
    {content : Bytes} (h : Verified tools raw limits infos checked members)
    (hverify : verify tools raw expectedSha256 limits = .ok checked) (hnew : NewDirectory tree₀ destination)
    (hcontent : jsonBytes checked.manifest = .ok content) :
    ∃ tree', extract tools raw tree₀ destination expectedSha256 limits = .ok (checked, tree') ∧
      tree₀.Populated destination (filesOf infos members content) tree' := by
  obtain ⟨tree₁, tree₂, hmake, hfold, h₂⟩ := h.extractMembers hnew
  obtain ⟨hfresh, hway⟩ := h.indexed.manifest_apart
  rw [below_manifestName] at hfresh hway
  obtain ⟨tree₃, hopen, h₃⟩ := h₂.addHere hfresh hway content
  have htarget : target destination manifestName = manifestName.toList :: destination := by
    rw [target_eq safeName_manifestName, below_manifestName]
    rfl
  refine ⟨tree₃.write content (manifestName.toList :: destination), ?_, ?_⟩
  · unfold extract
    refine except_bind_eq_ok.mpr ⟨checked, hverify, ?_⟩
    refine except_bind_eq_ok.mpr ⟨tree₁, except_mapError_eq_ok.mpr hmake, ?_⟩
    refine except_bind_eq_ok.mpr ⟨infos, except_mapError_eq_ok.mpr h.infolist, ?_⟩
    refine except_bind_eq_ok.mpr ⟨(checked.manifest, members), h.index, ?_⟩
    refine except_bind_eq_ok.mpr ⟨(), throwIf_eq_ok.mpr (not_not.mpr h.digest.symm), ?_⟩
    refine except_bind_eq_ok.mpr ⟨tree₂, hfold, ?_⟩
    rw [htarget]
    refine except_bind_eq_ok.mpr ⟨tree₃, except_mapError_eq_ok.mpr hopen, ?_⟩
    exact except_bind_eq_ok.mpr ⟨content, hcontent, rfl⟩
  · unfold filesOf
    rw [below_manifestName]
    exact h₃

/-- Extraction succeeds only with a text of the manifest. -/
theorem Verified.jsonBytes_of_extract {raw : Archive} {checked : Checked} {expectedSha256 : Option String}
    {r : Checked × FileTree} (h : Verified tools raw limits infos checked members)
    (hextract : extract tools raw tree₀ destination expectedSha256 limits = .ok r) :
    ∃ content, jsonBytes checked.manifest = .ok content := by
  unfold extract at hextract
  obtain ⟨_, -, hextract⟩ := except_bind_eq_ok.mp hextract
  obtain ⟨_, -, hextract⟩ := except_bind_eq_ok.mp hextract
  obtain ⟨infos', hinfos, hextract⟩ := except_bind_eq_ok.mp hextract
  have hinfos := except_mapError_eq_ok.mp hinfos
  rw [h.infolist] at hinfos
  cases hinfos
  obtain ⟨⟨manifest', members'⟩, hindex, hextract⟩ := except_bind_eq_ok.mp hextract
  rw [h.index] at hindex
  cases hindex
  obtain ⟨_, -, hextract⟩ := except_bind_eq_ok.mp hextract
  obtain ⟨_, -, hextract⟩ := except_bind_eq_ok.mp hextract
  obtain ⟨_, -, hextract⟩ := except_bind_eq_ok.mp hextract
  obtain ⟨content, hcontent, -⟩ := except_bind_eq_ok.mp hextract
  exact ⟨content, hcontent⟩

/-! ### The manifest as it was read -/

/-- What `json.loads` makes of the manifest of an archive. -/
def manifestValue? (tools : Tools Archive) (raw : Archive) : Option Json := do
  let infos ← (tools.infolist raw).toOption
  let info ← infos.find? fun info => info.filename = manifestName
  let content ← info.content.toOption
  let text ← tools.decode content
  Json.loadsStrict Json.uniqueHook text

/-- Each number in the manifest is in the range of doubles. -/
def NumbersInRange (tools : Tools Archive) (raw : Archive) : Prop :=
  ∀ v, manifestValue? tools raw = some v → v.FiniteNumbers

theorem orMalformed_eq_ok {α : Type} {o : Option α} {a : α} (h : orMalformed o = .ok a) : o = some a := by
  cases o with
  | none => cases h
  | some a' =>
      cases h
      rfl

theorem getinfo_eq_ok {name : String} {info : ZipInfo} (h : getinfo infos name = .ok info) :
    (infos.find? fun info => info.filename = name) = some info := by
  unfold getinfo at h
  split at h
  · cases h
    assumption
  · cases h

theorem Verified.manifestValue {raw : Archive} {checked : Checked}
    (h : Verified tools raw limits infos checked members) : manifestValue? tools raw = some checked.manifest := by
  have hread := h.indexed.read
  unfold readManifest at hread
  obtain ⟨info, hinfo, hread⟩ := except_bind_eq_ok.mp hread
  obtain ⟨_, hsize, hread⟩ := except_bind_eq_ok.mp hread
  obtain ⟨content, hcontent, hread⟩ := except_bind_eq_ok.mp hread
  have hcontent := except_mapError_eq_ok.mp hcontent
  have hall : content.take (limits.maximumManifestBytes + 1) = content :=
    List.take_of_length_le (by
      have hle := info.content_le content hcontent
      rw [throwIf_eq_ok] at hsize
      omega)
  dsimp only at hread
  rw [hall] at hread
  obtain ⟨_, -, hread⟩ := except_bind_eq_ok.mp hread
  obtain ⟨text, htext, hread⟩ := except_bind_eq_ok.mp hread
  unfold manifestValue?
  simp only [h.infolist, Except.toOption, bind, Option.bind, getinfo_eq_ok hinfo, hcontent, orMalformed_eq_ok htext]
  exact orMalformed_eq_ok hread

/-- What was read has no long integers, so it has a text exactly when its numbers are in range. -/
theorem Verified.jsonBytes_iff {raw : Archive} {checked : Checked}
    (h : Verified tools raw limits infos checked members) :
    (∃ content, jsonBytes checked.manifest = .ok content) ↔ NumbersInRange tools raw := by
  have hvalue := h.manifestValue
  have hshort : checked.manifest.Each Json.ShortInt := by
    unfold manifestValue? at hvalue
    obtain ⟨_, -, hvalue⟩ := Json.option_bind_eq_some hvalue
    obtain ⟨_, -, hvalue⟩ := Json.option_bind_eq_some hvalue
    obtain ⟨_, -, hvalue⟩ := Json.option_bind_eq_some hvalue
    obtain ⟨_, -, hvalue⟩ := Json.option_bind_eq_some hvalue
    exact Json.loads_shortInts (Json.loadsStrict_eq_some hvalue)
  have htext : (∃ content, jsonBytes checked.manifest = .ok content) ↔ checked.manifest.dumpsIndented.isSome := by
    unfold jsonBytes
    cases checked.manifest.dumpsIndented with
    | none => simp
    | some text => simp
  rw [htext, Json.dumpsIndented_isSome_iff, and_iff_left hshort]
  constructor
  · intro hfinite v hv
    rw [h.manifestValue] at hv
    cases hv
    exact hfinite
  · exact fun hrange => hrange _ h.manifestValue

end Ramulator.ChiaLoop.Archive
