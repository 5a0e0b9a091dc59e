/-
# Ramulator.ChiaLoop.ArchiveBundles — verified archives extract, and sealed payloads come back.

A verified archive extracts into a new directory safely and completely exactly when the numbers of its manifest
are in the range of doubles (`archives_extract`). A numeral such as `1e999` is not a word for a number that is
not finite, so `verify` lets it pass; it is read as infinity, and `extract` cannot write the manifest back. What
`seal` publishes has only numbers that it could write, and there extraction gives back the payloads.
-/
import Ramulator.ChiaLoop.ArchiveExtraction

namespace Ramulator.ChiaLoop.Archive

open Ramulator.Lib

variable {Archive : Type} {tools : Tools Archive} {limits : ReadLimits} {infos : List ZipInfo} {manifest : Json}
  {members : List Member} {destination : FilePath} {tree₀ tree : FileTree}

/-! ## Safe and complete extraction -/

/-- The names of the files that extraction makes. -/
def namesOf (members : List Member) : List String := manifestName :: members.map fun m => m.name

/-- The payloads of the inventory and the manifest stand below the destination, and nothing else has changed. -/
structure SafelyExtracted (tools : Tools Archive) (tree₀ tree : FileTree) (destination : FilePath)
    (members : List Member) (manifest : Json) : Prop where
  apart : (namesOf members).Pairwise fun name name' =>
    ¬target destination name <:+ target destination name' ∧ ¬target destination name' <:+ target destination name
  inside : ∀ name ∈ namesOf members, destination <:+ target destination name ∧ target destination name ≠ destination
  created : ∀ path, destination <:+ path → ((∃ content executable, tree.node path = some (.file content executable)) ↔
    ∃ name ∈ namesOf members, path = target destination name)
  identity : ∀ m ∈ members, ∃ content, tree.node (target destination m.name) = some (.file content m.executable) ∧
    content.length = m.storedBytes ∧ tools.sha256 content = m.storedSha256
  manifest : ∃ content, tree.node (target destination manifestName) = some (.file content false) ∧
    jsonBytes manifest = .ok content
  outside : ∀ path, ¬destination <:+ path → tree.node path = tree₀.node path

/-- Extraction succeeds, and has written the inventory of the manifest. -/
def Extracts (tools : Tools Archive) (raw : Archive) (expectedSha256 : Option String) (limits : ReadLimits)
    (checked : Checked) (tree₀ : FileTree) (destination : FilePath) : Prop :=
  ∃ tree members, extract tools raw tree₀ destination expectedSha256 limits = .ok (checked, tree) ∧
    inventory limits checked.manifest = .ok members ∧
    SafelyExtracted tools tree₀ tree destination members checked.manifest

theorem Indexed.safe_of_namesOf (h : Indexed tools limits infos manifest members) {name : String}
    (hname : name ∈ namesOf members) : name ∈ infos.map ZipInfo.filename := by
  rcases List.mem_cons.mp hname with rfl | hname
  · exact h.manifest_mem
  · obtain ⟨m, hm, rfl⟩ := List.mem_map.mp hname
    exact (h.members_mem m hm).1

theorem Indexed.namesOf_nodup (h : Indexed tools limits infos manifest members) : (namesOf members).Nodup := by
  refine List.nodup_cons.mpr ⟨fun hmem => ?_, h.members_nodup⟩
  obtain ⟨m, hm, hname⟩ := List.mem_map.mp hmem
  exact (h.members_mem m hm).2 hname

/-- A file of the archive, by its name. -/
theorem exists_fileOf {content : Bytes} {name : String} (hname : name ∈ namesOf members) :
    ∃ n, (below name, n) ∈ filesOf infos members content ∧ ∃ bytes executable, n = .file bytes executable := by
  unfold filesOf
  rcases List.mem_cons.mp hname with rfl | hname
  · exact ⟨_, List.mem_append_right _ List.mem_cons_self, _, _, rfl⟩
  · obtain ⟨m, hm, rfl⟩ := List.mem_map.mp hname
    exact ⟨_, List.mem_append_left _ (List.mem_map_of_mem hm), _, _, rfl⟩

theorem name_of_mem_filesOf {content : Bytes} {f : FilePath × FileNode} (hf : f ∈ filesOf infos members content) :
    ∃ name ∈ namesOf members, f.1 = below name := by
  rcases List.mem_append.mp hf with hf | hf
  · obtain ⟨m, hm, rfl⟩ := List.mem_map.mp hf
    exact ⟨m.name, List.mem_cons_of_mem _ (List.mem_map_of_mem hm), rfl⟩
  · rw [List.mem_singleton.mp hf]
    exact ⟨manifestName, List.mem_cons_self, rfl⟩

/-- What stands in the directory is safe and complete. -/
theorem Verified.safelyExtracted {raw : Archive} {checked : Checked} {content : Bytes}
    (h : Verified tools raw limits infos checked members) (hcontent : jsonBytes checked.manifest = .ok content)
    (htree : tree₀.Populated destination (filesOf infos members content) tree) :
    SafelyExtracted tools tree₀ tree destination members checked.manifest := by
  have hindexed := h.indexed
  have htarget {name : String} (hname : name ∈ namesOf members) :
      target destination name = below name ++ destination :=
    target_eq (hindexed.safe_of_mem (hindexed.safe_of_namesOf hname))
  refine ⟨?_, ?_, ?_, ?_, ?_, htree.outside⟩
  · refine hindexed.namesOf_nodup.imp_of_mem fun {name name'} hname hname' hne => ?_
    have hmem := hindexed.safe_of_namesOf hname
    have hmem' := hindexed.safe_of_namesOf hname'
    rw [htarget hname, htarget hname', List.suffix_append_self_iff, List.suffix_append_self_iff]
    exact ⟨hindexed.not_way hmem hmem' hne, hindexed.not_way hmem' hmem hne.symm⟩
  · intro name hname
    rw [htarget hname]
    exact ⟨List.suffix_append _ _, fun heq => below_ne_nil name (List.append_left_eq_self.mp heq)⟩
  · rintro path ⟨q, rfl⟩
    constructor
    · rintro ⟨bytes, executable, hnode⟩
      -- a path that is no file of the archive is a directory or nothing
      by_contra hnone
      have hnot : ∀ f ∈ filesOf infos members content, q ≠ f.1 := by
        intro f hf heq
        obtain ⟨name, hname, hf⟩ := name_of_mem_filesOf hf
        exact hnone ⟨name, hname, by rw [htarget hname, heq, hf]⟩
      by_cases hway : q = [] ∨ ∃ f ∈ filesOf infos members content, q <:+ f.1 ∧ q ≠ f.1
      · rw [htree.dir q hway] at hnode
        cases hnode
      · rw [not_or] at hway
        rw [htree.nothing q hway.1 fun f hf hsuffix => hway.2 ⟨f, hf, hsuffix, hnot f hf⟩] at hnode
        cases hnode
    · rintro ⟨name, hname, hpath⟩
      obtain ⟨n, hn, bytes, executable, rfl⟩ := @exists_fileOf infos members content name hname
      rw [hpath, htarget hname]
      exact ⟨bytes, executable, htree.file _ hn⟩
  · intro m hm
    have hname : m.name ∈ namesOf members := List.mem_cons_of_mem _ (List.mem_map_of_mem hm)
    refine ⟨contentOf infos m.name, ?_, (h.stored m hm).size, (h.stored m hm).digest⟩
    rw [htarget hname]
    exact htree.file (fileOf infos m) (List.mem_append_left _ (List.mem_map_of_mem hm))
  · refine ⟨content, ?_, hcontent⟩
    rw [htarget List.mem_cons_self]
    exact htree.file _ (List.mem_append_right _ List.mem_cons_self)

/-- A verified archive extracts into a new directory exactly when its numbers are in range. -/
theorem extracts_iff {raw : Archive} {checked : Checked} {expectedSha256 : Option String}
    (hverify : verify tools raw expectedSha256 limits = .ok checked) (hnew : NewDirectory tree₀ destination) :
    Extracts tools raw expectedSha256 limits checked tree₀ destination ↔ NumbersInRange tools raw := by
  obtain ⟨infos, members, h⟩ := verified_of_verify hverify
  rw [← h.jsonBytes_iff]
  constructor
  · rintro ⟨tree, _, hextract, -⟩
    exact h.jsonBytes_of_extract hextract
  · rintro ⟨content, hcontent⟩
    obtain ⟨tree, hextract, htree⟩ := h.extract_eq_ok hverify hnew hcontent
    exact ⟨tree, members, hextract, h.indexed.inventory, h.safelyExtracted hcontent htree⟩

/-! ## Sealed bundles -/

/-- What `seal` writes into a ZIP file. -/
def SealedInfo (info : ZipInfo) : Prop :=
  SafeName info.filename ∧ info.fileType = regularType ∧ info.encrypted = false ∧
    info.compressType ∈ [zipStored, zipDeflated] ∧
    ∃ content, info.content = .ok content ∧ content.length = info.fileSize

/-- The ZIP format gives back what was written, and text of ASCII characters is its own encoding. -/
structure Tools.Faithful (tools : Tools Archive) : Prop where
  infolist_writeZip : ∀ infos raw, tools.writeZip infos = .ok raw → (∀ info ∈ infos, SealedInfo info) →
    (infos.map ZipInfo.filename).Nodup → tools.infolist raw = .ok infos
  decode_ascii : ∀ text, (∀ c ∈ text, Json.IsAscii c) → tools.decode (encodeText text) = some text

theorem Member.safe (m : Member) : SafeName m.name ∧ m.name ≠ manifestName ∧ IsDigest m.storedSha256 ∧
    IsDigest m.logicalSha256 := by
  have hvalid := m.valid
  unfold Fields.postInit at hvalid
  obtain ⟨_, hsafe, hvalid⟩ := except_bind_eq_ok.mp hvalid
  obtain ⟨_, hname, hvalid⟩ := except_bind_eq_ok.mp hvalid
  obtain ⟨_, hdigests, -⟩ := except_bind_eq_ok.mp hvalid
  rw [throwIf_eq_ok] at hname
  rw [throwIf_eq_ok, not_or, not_not, not_not] at hdigests
  exact ⟨(safeName_eq_ok hsafe).1, hname, hdigests⟩

theorem make_toFields (m : Member) : Member.make m.toFields = .ok m := by
  unfold Member.make
  split
  · rfl
  · rename_i e he
    rw [m.valid] at he
    cases he

theorem codecOf_text (codec : Codec) : codecOf (some (.str codec.text)) = .ok codec := by
  cases codec with
  | none => rfl
  | gzip => rfl
  | xz => rfl

theorem countOf_natCast (n : Nat) : countOf (some (.int n)) = .ok n := by
  unfold countOf
  dsimp only
  rw [if_pos (Int.natCast_nonneg n)]
  rfl

theorem sort_asdict (m : Member) : m.asdict.sort =
    .obj [("codec", .str m.codec.text), ("executable", .bool m.executable), ("logical_bytes", .int m.logicalBytes),
      ("logical_sha256", .str m.logicalSha256), ("name", .str m.name), ("stored_bytes", .int m.storedBytes),
      ("stored_sha256", .str m.storedSha256)] := by
  simp [Member.asdict, Json.sort, Json.sortMembers, List.insertionSort, List.orderedInsert, Json.MemberLe,
    Json.nameLe]

/-- An inventory item is read as the member that was written. -/
theorem ofItem_sort_asdict (m : Member) : Member.ofItem m.asdict.sort = .ok m := by
  obtain ⟨hsafe, hname, hstored, hlogical⟩ := m.safe
  rw [sort_asdict]
  unfold Member.ofItem
  refine except_bind_eq_ok.mpr ⟨m.name, if_pos hsafe, ?_⟩
  refine except_bind_eq_ok.mpr ⟨(), throwIf_eq_ok.mpr hname, ?_⟩
  refine except_bind_eq_ok.mpr ⟨m.storedSha256, if_pos hstored, ?_⟩
  refine except_bind_eq_ok.mpr ⟨m.logicalSha256, if_pos hlogical, ?_⟩
  refine except_bind_eq_ok.mpr ⟨m.storedBytes, countOf_natCast _, ?_⟩
  refine except_bind_eq_ok.mpr ⟨m.logicalBytes, countOf_natCast _, ?_⟩
  refine except_bind_eq_ok.mpr ⟨m.codec, codecOf_text m.codec, ?_⟩
  exact except_bind_eq_ok.mpr ⟨m.executable, rfl, make_toFields m⟩

/-- The fields of a manifest in the order of their names. -/
theorem sort_manifest (version format metadata compression members : Json) :
    (Json.obj [("schema_version", version), ("format", format), ("metadata", metadata), ("compression", compression),
      ("members", members)]).sort =
    .obj [("compression", compression.sort), ("format", format.sort), ("members", members.sort),
      ("metadata", metadata.sort), ("schema_version", version.sort)] := by
  simp [Json.sort, Json.sortMembers, List.insertionSort, List.orderedInsert, Json.MemberLe, Json.nameLe]

theorem sort_sealManifest (metadata : Metadata) (members : List Member) : (sealManifest tools metadata members).sort =
    .obj [("compression", (compression tools).sort), ("format", .str "chia-campaign-zip64"),
      ("members", .arr (Json.sortItems (members.map Member.asdict))), ("metadata", (Json.obj metadata.members).sort),
      ("schema_version", .int 1)] :=
  sort_manifest _ _ _ _ _

/-- The inventory of a sealed manifest is the one that was sealed. -/
theorem inventory_sealManifest {metadata : Metadata} {members members' : List Member}
    (h : inventory limits (sealManifest tools metadata members).sort = .ok members') : members' = members := by
  rw [sort_sealManifest] at h
  unfold inventory at h
  obtain ⟨_, -, h⟩ := except_bind_eq_ok.mp h
  obtain ⟨_, -, h⟩ := except_bind_eq_ok.mp h
  obtain ⟨items, hitems, h⟩ := except_bind_eq_ok.mp h
  obtain ⟨_, -, h⟩ := except_bind_eq_ok.mp h
  obtain ⟨_, -, h⟩ := except_bind_eq_ok.mp h
  have hread : Json.sortItems (members.map Member.asdict) = items := by
    cases hitems
    rfl
  rw [← hread, Json.sortItems_eq_map, List.map_map] at h
  have hall : (members.map (Json.sort ∘ Member.asdict)).mapM Member.ofItem = .ok members := by
    rw [mapM_ok, List.forall₂_map_left_iff]
    exact List.forall₂_same.mpr fun m _ => ofItem_sort_asdict m
  rw [hall] at h
  cases h
  rfl

/-- No two members of the manifest of a bundle have one name. -/
theorem distinctKeys_sealManifest (metadata : Metadata) (members : List Member) :
    Json.DistinctKeys (sealManifest tools metadata members) := by
  have hmembers : Json.DistinctItems (members.map Member.asdict) := by
    induction members with
    | nil => trivial
    | cons m members ih =>
        exact ⟨⟨show memberFields.Nodup by decide, trivial, trivial, trivial, trivial, trivial, trivial, trivial,
          trivial⟩, ih⟩
  exact ⟨show ["schema_version", "format", "metadata", "compression", "members"].Nodup by decide, trivial,
    trivial, metadata.distinct,
    ⟨show ["outer", "text", "deflate_level", "inner_gzip", "inner_xz", "zlib_version"].Nodup by decide,
      trivial, trivial, trivial, trivial, trivial, trivial, trivial⟩, hmembers, trivial⟩

theorem sealPayload_eq_ok {files : String → Except Error Bytes} {payload : Payload} {info : ZipInfo}
    (h : sealPayload tools files payload = .ok info) :
    ∃ content, files payload.source = .ok content ∧ info = payloadInfo payload content := by
  unfold sealPayload at h
  obtain ⟨content, hcontent, h⟩ := except_bind_eq_ok.mp h
  obtain ⟨_, -, h⟩ := except_bind_eq_ok.mp h
  obtain ⟨_, -, h⟩ := except_bind_eq_ok.mp h
  cases h
  exact ⟨content, hcontent, rfl⟩

theorem sealedInfo_payloadInfo (payload : Payload) (content : Bytes) : SealedInfo (payloadInfo payload content) := by
  refine ⟨payload.member.safe.1, rfl, rfl, ?_, content, rfl, rfl⟩
  show (if _ then zipStored else zipDeflated) ∈ [zipStored, zipDeflated]
  split_ifs <;> decide

/-- The members of the ZIP file, in the order of the payloads. -/
theorem sealPayloads_eq_ok {files : String → Except Error Bytes} {payloads : List Payload} {infos : List ZipInfo}
    (h : payloads.mapM (sealPayload tools files) = .ok infos) :
    infos.map ZipInfo.filename = payloads.map (fun p => p.member.name) ∧ (∀ info ∈ infos, SealedInfo info) ∧
      ∀ p ∈ payloads, ∃ content, files p.source = .ok content ∧ payloadInfo p content ∈ infos := by
  have hall := mapM_ok.mp h
  clear h
  induction hall with
  | nil => exact ⟨rfl, List.forall_mem_nil _, List.forall_mem_nil _⟩
  | @cons p info payloads infos hinfo _ ih =>
      obtain ⟨content, hcontent, rfl⟩ := sealPayload_eq_ok hinfo
      obtain ⟨hnames, hsealed, hmem⟩ := ih
      refine ⟨by rw [List.map_cons, List.map_cons, hnames]; rfl,
        List.forall_mem_cons.mpr ⟨sealedInfo_payloadInfo p content, hsealed⟩,
        List.forall_mem_cons.mpr ⟨⟨content, hcontent, List.mem_cons_self⟩, fun p' hp' => ?_⟩⟩
      obtain ⟨content', hcontent', hmem'⟩ := hmem p' hp'
      exact ⟨content', hcontent', List.mem_cons_of_mem _ hmem'⟩

/-- The ZIP member of a name, where names are distinct. -/
theorem getinfo_of_mem {infos : List ZipInfo} (hnodup : (infos.map ZipInfo.filename).Nodup) {info : ZipInfo}
    (hinfo : info ∈ infos) : getinfo infos info.filename = .ok info := by
  unfold getinfo
  cases hfind : infos.find? fun i => i.filename = info.filename with
  | none =>
      have hne := List.find?_eq_none.mp hfind info hinfo
      exact absurd (decide_eq_true rfl) hne
  | some info' =>
      have hsame : info'.filename = info.filename := by
        have htrue := List.find?_some hfind
        exact of_decide_eq_true htrue
      rw [List.inj_on_of_nodup_map hnodup (List.mem_of_find?_eq_some hfind) hinfo hsame]

theorem contentOf_of_mem {infos : List ZipInfo} (hnodup : (infos.map ZipInfo.filename).Nodup) {info : ZipInfo}
    (hinfo : info ∈ infos) {content : Bytes} (hcontent : info.content = .ok content) :
    contentOf infos info.filename = content := by
  unfold contentOf
  rw [getinfo_of_mem hnodup hinfo]
  dsimp only
  rw [hcontent]

/-- No other archive has the digest of one that is there. -/
def NoCollision (tools : Tools Archive) (shelf : Shelf Archive) : Prop :=
  ∀ path old, shelf path = some (.regular old) → ∀ raw, tools.fileDigest raw = tools.fileDigest old → raw = old

/-- A bundle as `seal` has written it, verified. -/
structure Sealed (tools : Tools Archive) (files : String → Except Error Bytes) (payloads : List Payload)
    (metadata : Metadata) (limits : ReadLimits) (raw : Archive) (checked : Checked) : Prop where
  distinct : (payloads.map fun p => p.member.name).Nodup
  encoded : ∃ content infos, jsonBytes (sealManifest tools metadata (sortedMembers payloads)) = .ok content ∧
    (payloads.insertionSort fun p q => NameLe p.member q.member).mapM (sealPayload tools files) = .ok infos ∧
    tools.writeZip (manifestInfo content :: infos) = .ok raw
  verified : verify tools raw none limits = .ok checked

/-- The published bundle is the one that was written: what was there under its name has its digest. -/
theorem sealed_of_sealBundle {files : String → Except Error Bytes} {payloads : List Payload} {metadata : Metadata}
    {shelf shelf' : Shelf Archive} {receipt : SealReceipt}
    (hsha : NoCollision tools shelf)
    (h : sealBundle tools files payloads metadata limits shelf = .ok (receipt, shelf')) :
    ∃ raw checked, Sealed tools files payloads metadata limits raw checked ∧
      shelf' receipt.path = some (.regular raw) ∧ receipt.sha256 = checked.archiveSha256 := by
  unfold sealBundle at h
  dsimp only at h
  obtain ⟨_, hdistinct, h⟩ := except_bind_eq_ok.mp h
  obtain ⟨content, hcontent, h⟩ := except_bind_eq_ok.mp h
  obtain ⟨_, -, h⟩ := except_bind_eq_ok.mp h
  obtain ⟨_, -, h⟩ := except_bind_eq_ok.mp h
  obtain ⟨infos, hinfos, h⟩ := except_bind_eq_ok.mp h
  obtain ⟨raw, hraw, h⟩ := except_bind_eq_ok.mp h
  obtain ⟨checked, hverify, h⟩ := except_bind_eq_ok.mp h
  rw [throwIf_eq_ok, not_not] at hdistinct
  have hperm : (sortedMembers payloads).Perm (payloads.map Payload.member) :=
    List.perm_insertionSort NameLe _
  have hnames : (payloads.map fun p => p.member.name).Nodup := by
    rw [(hperm.map _).nodup_iff, List.map_map] at hdistinct
    exact hdistinct
  refine ⟨raw, checked, ⟨hnames, ⟨content, infos, hcontent, hinfos, except_mapError_eq_ok.mp hraw⟩, hverify⟩, ?_⟩
  unfold publish at h
  dsimp only at h
  split at h
  · cases h
    exact ⟨Function.update_self .., rfl⟩
  · rename_i old hold
    obtain ⟨checked', hverify', h⟩ := except_bind_eq_ok.mp h
    cases h
    refine ⟨?_, rfl⟩
    obtain ⟨_, _, hverified⟩ := verified_of_verify hverify
    have hdigest : tools.fileDigest old = checked.archiveSha256 := by
      have hraw' := except_mapError_eq_ok.mp hverify'
      unfold verifyRaw at hraw'
      obtain ⟨_, hsame, -⟩ := except_bind_eq_ok.mp hraw'
      rw [throwIf_eq_ok] at hsame
      by_contra hne
      exact hsame ⟨_, rfl, hne⟩
    rw [hsha _ old hold raw (by rw [hdigest, hverified.digest])]
    exact hold
  · cases h

/-- A digest that is asked for and is the digest of the archive changes nothing. -/
theorem verify_of_expected {raw : Archive} {checked : Checked} {expectedSha256 : Option String}
    (h : verify tools raw none limits = .ok checked)
    (hexpected : ∀ digest ∈ expectedSha256, tools.fileDigest raw = digest) :
    verify tools raw expectedSha256 limits = .ok checked := by
  have h := except_mapError_eq_ok.mp h
  refine except_mapError_eq_ok.mpr ?_
  unfold verifyRaw at h ⊢
  obtain ⟨_, -, h⟩ := except_bind_eq_ok.mp h
  refine except_bind_eq_ok.mpr ⟨(), throwIf_eq_ok.mpr ?_, h⟩
  rintro ⟨digest, hdigest, hne⟩
  exact hne (hexpected digest hdigest)

/-- Extraction gives back the payloads, and a manifest with their inventory. -/
def Reproduces (tools : Tools Archive) (files : String → Except Error Bytes) (payloads : List Payload)
    (limits : ReadLimits) (raw : Archive) (expectedSha256 : Option String) (tree₀ : FileTree)
    (destination : FilePath) : Prop :=
  ∃ checked tree, extract tools raw tree₀ destination expectedSha256 limits = .ok (checked, tree) ∧
    (∀ p ∈ payloads, ∃ content, files p.source = .ok content ∧
      tree.node (target destination p.member.name) = some (.file content p.member.executable)) ∧
    ∃ content text manifest, tree.node (target destination manifestName) = some (.file content false) ∧
      tools.decode content = some text ∧ Json.loadsStrict Json.uniqueHook text = some manifest ∧
      inventory limits manifest = .ok (sortedMembers payloads)

/-- The text of a manifest is read as the manifest. -/
theorem decode_jsonBytes (hfaithful : tools.Faithful) {v : Json} {content : Bytes} (h : jsonBytes v = .ok content)
    (hd : Json.DistinctKeys v) :
    ∃ text, tools.decode content = some text ∧ Json.loadsStrict Json.uniqueHook text = some v.sort := by
  unfold jsonBytes at h
  split at h
  · rename_i text htext
    cases h
    refine ⟨text ++ ['\n'], hfaithful.decode_ascii _ ?_,
      Json.loadsStrict_dumpsIndented Json.uniqueHook_keeps htext hd⟩
    exact List.forall_mem_append.mpr ⟨Json.isAscii_dumpsIndented htext, by simp [Json.IsAscii]⟩
  · cases h

theorem jsonBytes_sort (v : Json) : jsonBytes v.sort = jsonBytes v := by
  unfold jsonBytes
  rw [Json.dumpsIndented_sort]

/-- The ZIP directory of a sealed bundle. -/
theorem Sealed.infolist {files : String → Except Error Bytes} {payloads : List Payload} {metadata : Metadata}
    {raw : Archive} {checked : Checked} (hfaithful : tools.Faithful)
    (h : Sealed tools files payloads metadata limits raw checked) :
    ∃ content infos, jsonBytes (sealManifest tools metadata (sortedMembers payloads)) =
        .ok content ∧ tools.infolist raw = .ok (manifestInfo content :: infos) ∧
      ((manifestInfo content :: infos).map ZipInfo.filename).Nodup ∧
      ∀ p ∈ payloads, ∃ content, files p.source = .ok content ∧ payloadInfo p content ∈ infos := by
  obtain ⟨content, infos, hcontent, hinfos, hraw⟩ := h.encoded
  have hperm : (payloads.insertionSort fun p q => NameLe p.member q.member).Perm payloads :=
    List.perm_insertionSort _ _
  obtain ⟨hnames, hsealed, hmem⟩ := sealPayloads_eq_ok hinfos
  have hnodup : ((manifestInfo content :: infos).map ZipInfo.filename).Nodup := by
    refine List.nodup_cons.mpr ⟨fun hmanifest => ?_, ?_⟩
    · rw [hnames] at hmanifest
      obtain ⟨p, -, hp⟩ := List.mem_map.mp hmanifest
      exact p.member.safe.2.1 hp
    · rw [hnames, (hperm.map _).nodup_iff]
      exact h.distinct
  have hall : ∀ info ∈ manifestInfo content :: infos, SealedInfo info :=
    List.forall_mem_cons.mpr
      ⟨⟨safeName_manifestName, rfl, rfl, List.mem_cons_of_mem _ List.mem_cons_self, content, rfl, rfl⟩, hsealed⟩
  exact ⟨content, infos, hcontent, hfaithful.infolist_writeZip _ _ hraw hall hnodup, hnodup,
    fun p hp => hmem p (hperm.mem_iff.mpr hp)⟩

theorem Sealed.reproduces {files : String → Except Error Bytes} {payloads : List Payload} {metadata : Metadata}
    {raw : Archive} {checked : Checked} {expectedSha256 : Option String} (hfaithful : tools.Faithful)
    (h : Sealed tools files payloads metadata limits raw checked)
    (hexpected : ∀ digest ∈ expectedSha256, digest = checked.archiveSha256) (hnew : NewDirectory tree₀ destination) :
    Reproduces tools files payloads limits raw expectedSha256 tree₀ destination := by
  obtain ⟨content, infos, hcontent, hinfolist, hnodup, hmem⟩ := h.infolist hfaithful
  obtain ⟨infos', members, hverified⟩ := verified_of_verify h.verified
  have hinfos := hverified.infolist
  rw [hinfolist] at hinfos
  cases hinfos
  -- the manifest that is read is the one that was written
  obtain ⟨text, htext, hloads⟩ := decode_jsonBytes hfaithful hcontent (distinctKeys_sealManifest metadata _)
  have hmanifest : checked.manifest =
      (sealManifest tools metadata (sortedMembers payloads)).sort := by
    have hvalue := hverified.manifestValue
    unfold manifestValue? at hvalue
    rw [hinfolist] at hvalue
    have hread : tools.decode content >>= Json.loadsStrict Json.uniqueHook = some checked.manifest := hvalue
    rw [htext] at hread
    rw [show Json.loadsStrict Json.uniqueHook text = some checked.manifest from hread] at hloads
    exact Option.some_inj.mp hloads
  have hinventory := hverified.indexed.inventory
  rw [hmanifest] at hinventory
  obtain rfl := inventory_sealManifest hinventory
  have hwritten : jsonBytes checked.manifest = .ok content := by rw [hmanifest, jsonBytes_sort, hcontent]
  have hverify : verify tools raw expectedSha256 limits = .ok checked :=
    verify_of_expected h.verified fun digest hdigest => by
      rw [hexpected digest hdigest, hverified.digest]
  obtain ⟨tree, hextract, htree⟩ := hverified.extract_eq_ok hverify hnew hwritten
  refine ⟨checked, tree, hextract, fun p hp => ?_, content, text, _, ?_, htext, hloads, hinventory⟩
  · obtain ⟨bytes, hbytes, hinfo⟩ := hmem p hp
    refine ⟨bytes, hbytes, ?_⟩
    have hfile := htree.file (fileOf (manifestInfo content :: infos) p.member)
      (List.mem_append_left _ (List.mem_map_of_mem ((List.mem_insertionSort NameLe).mpr (List.mem_map_of_mem hp))))
    have hbytes' : contentOf (manifestInfo content :: infos) p.member.name = bytes :=
      contentOf_of_mem hnodup (List.mem_cons_of_mem _ hinfo) rfl
    rw [target_eq p.member.safe.1]
    unfold fileOf at hfile
    rw [hbytes'] at hfile
    exact hfile
  · rw [target_eq safeName_manifestName]
    exact htree.file _ (List.mem_append_right _ List.mem_cons_self)

/-- A verified archive extracts safely and completely exactly when the numbers of its manifest are in range, and
sealed payloads come back. Of digests it takes that no other archive has the digest of one that is there. -/
theorem archives_extract (hfaithful : tools.Faithful) :
    (∀ raw expectedSha256 limits checked tree destination, verify tools raw expectedSha256 limits = .ok checked →
      NewDirectory tree destination →
      (Extracts tools raw expectedSha256 limits checked tree destination ↔ NumbersInRange tools raw)) ∧
    ∀ files payloads metadata limits shelf receipt shelf',
      NoCollision tools shelf →
      sealBundle tools files payloads metadata limits shelf = .ok (receipt, shelf') →
      ∃ raw, shelf' receipt.path = some (.regular raw) ∧
        ∀ expectedSha256 tree destination, (∀ digest ∈ expectedSha256, digest = receipt.sha256) →
          NewDirectory tree destination →
          Reproduces tools files payloads limits raw expectedSha256 tree destination := by
  refine ⟨fun raw expectedSha256 limits checked tree destination => extracts_iff, ?_⟩
  intro files payloads metadata limits shelf receipt shelf' hsha hseal
  obtain ⟨raw, checked, hsealed, hshelf, hreceipt⟩ := sealed_of_sealBundle hsha hseal
  refine ⟨raw, hshelf, fun expectedSha256 tree destination hexpected hnew => ?_⟩
  exact hsealed.reproduces hfaithful (fun digest hdigest => by rw [hexpected digest hdigest, hreceipt]) hnew

/-! ### A small bundle, and a manifest with a number out of range -/

/-- Archives as what they hold. The digests are those of `abc` and of no bytes. -/
def smallTools : Tools (List ZipInfo) where
  sha256 bytes := if bytes = [97, 98, 99] then "ba7816bf8f01cfea414140de5dae2223b00361a396177a9cb410ff61f20015ad"
    else "e3b0c44298fc1c149afbf4c8996fb92427ae41e4649b934ca495991b7852b855"
  fileDigest _ := "e3b0c44298fc1c149afbf4c8996fb92427ae41e4649b934ca495991b7852b855"
  fileSize infos := (infos.map ZipInfo.fileSize).sum
  infolist infos := .ok infos
  writeZip infos := .ok infos
  expand _ _ := ⟨[], some "not a compressed file"⟩
  expand_front _ _ := List.nil_prefix
  decode bytes := some (bytes.map fun b => Char.ofNat b.toNat)
  zlibVersion := "1.3.1"

theorem utf8EncodeChar_ascii {c : Char} (h : Json.IsAscii c) :
    (String.utf8EncodeChar c).map (fun b => Char.ofNat b.toNat) = [c] := by
  have hlt : c.val.toNat < 128 := h.2
  have hbyte : (UInt8.ofNat c.val.toNat).toNat = c.toNat := by
    rw [UInt8.toNat_ofNat']
    exact Nat.mod_eq_of_lt (Nat.lt_trans hlt (by decide))
  have hencode : String.utf8EncodeChar c = [UInt8.ofNat c.val.toNat] := if_pos (Nat.lt_succ_iff.mp hlt)
  rw [hencode, List.map_singleton, hbyte, Char.ofNat_toNat]

theorem smallTools_faithful : smallTools.Faithful where
  infolist_writeZip infos raw h _ _ := by
    cases h
    rfl
  decode_ascii text h := by
    refine congrArg some ?_
    induction text with
    | nil => rfl
    | cons c text ih =>
        unfold encodeText at ih ⊢
        rw [List.flatMap_cons, List.map_append, utf8EncodeChar_ascii (h c List.mem_cons_self),
          ih fun d hd => h d (List.mem_cons_of_mem _ hd), List.singleton_append]

/-- A directory to extract into. -/
def smallTree : FileTree where
  node path := if path = [] then some .dir else none
  root := rfl
  parent h := by
    rw [if_neg (List.cons_ne_nil _ _)] at h
    exact absurd rfl h

def outDirectory : FilePath := ["out".toList]

def smallMember : Member where
  name := "runs/log.txt"
  storedSha256 := "ba7816bf8f01cfea414140de5dae2223b00361a396177a9cb410ff61f20015ad"
  storedBytes := 3
  logicalSha256 := "ba7816bf8f01cfea414140de5dae2223b00361a396177a9cb410ff61f20015ad"
  logicalBytes := 3
  codec := .none
  executable := false
  valid := by decide

def smallMetadata : Metadata := ⟨[("closed", .bool true)], by decide, trivial, trivial⟩

/-- An archive with a manifest and nothing else, and a number in it that is beyond the doubles. -/
def outOfRangeArchive : List ZipInfo :=
  [manifestInfo (encodeText ("\x7b\"schema_version\":1,\"format\":\"chia-campaign-zip64\"," ++
    "\"metadata\":\x7b\"x\":1e999\x7d,\"compression\":\x7b\x7d,\"members\":[]\x7d").toList)]

/-- Whether a computation succeeds. -/
def succeeds {α : Type} : Except Error α → Bool
  | .ok _ => true
  | .error _ => false

theorem exists_of_succeeds {α : Type} {x : Except Error α} (h : succeeds x = true) : ∃ a, x = .ok a := by
  cases x with
  | ok a => exact ⟨a, rfl⟩
  | error e => cases h

theorem newDirectory_outDirectory : NewDirectory smallTree outDirectory := ⟨rfl, rfl⟩

/-- A small bundle is sealed, and what is sealed extracts and comes back. -/
theorem archives_extract_small :
    ∃ receipt shelf raw checked,
      sealBundle smallTools (fun _ => .ok [97, 98, 99]) [⟨"log.txt", smallMember, false⟩] smallMetadata {}
        (fun _ => none) = .ok (receipt, shelf) ∧
      shelf receipt.path = some (.regular raw) ∧ verify smallTools raw none {} = .ok checked ∧
      (Extracts smallTools raw none {} checked smallTree outDirectory ↔ NumbersInRange smallTools raw) ∧
      Reproduces smallTools (fun _ => .ok [97, 98, 99]) [⟨"log.txt", smallMember, false⟩] {} raw none smallTree
        outDirectory := by
  obtain ⟨⟨receipt, shelf⟩, hseal⟩ := exists_of_succeeds (show succeeds (sealBundle smallTools
    (fun _ => .ok [97, 98, 99]) [⟨"log.txt", smallMember, false⟩] smallMetadata {} fun _ => none) = true
    by decide +kernel)
  obtain ⟨hextracts, hreproduces⟩ := archives_extract smallTools_faithful
  obtain ⟨raw, hshelf, hraw⟩ := hreproduces _ _ _ _ _ _ _ (fun path old hold => by cases hold) hseal
  have hsmall := hraw none smallTree outDirectory (fun digest hdigest => by cases hdigest) newDirectory_outDirectory
  obtain ⟨checked, tree, hextract, -⟩ := id hsmall
  obtain ⟨checked', hverify, -⟩ := except_bind_eq_ok.mp hextract
  exact ⟨receipt, shelf, raw, checked', hseal, hshelf, hverify,
    hextracts _ _ _ _ _ _ hverify newDirectory_outDirectory, hsmall⟩

/-- `verify` accepts a manifest with a number out of range, and `extract` fails on it. -/
theorem outOfRange_not_extracted : ∃ checked, verify smallTools outOfRangeArchive none {} = .ok checked ∧
    NewDirectory smallTree outDirectory ∧
    ¬Extracts smallTools outOfRangeArchive none {} checked smallTree outDirectory := by
  obtain ⟨checked, hverify⟩ :=
    exists_of_succeeds (show succeeds (verify smallTools outOfRangeArchive none {}) = true by decide +kernel)
  refine ⟨checked, hverify, newDirectory_outDirectory, ?_⟩
  rintro ⟨tree, members, hextract, -⟩
  have hfails : succeeds (extract smallTools outOfRangeArchive smallTree outDirectory none {}) = false := by
    decide +kernel
  rw [hextract] at hfails
  cases hfails

end Ramulator.ChiaLoop.Archive
