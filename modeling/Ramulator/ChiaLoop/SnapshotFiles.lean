/-
# Ramulator.ChiaLoop.SnapshotFiles — what is read from a tree, what is published, and what a manifest says.

One lemma for each function of `Snapshots`: reading gives the file that is there, if it is not too long
(`readFile_entries`); publishing leaves the object there and all others as they were (`publishBytes_eq_ok`); the
names of a contract are apart from each other and from the manifest. `Submission` is what `snapshot` publishes: the
files, their manifest, and its text.
-/
import Ramulator.ChiaLoop.Snapshots

namespace Ramulator.ChiaLoop.Snapshots

open Ramulator.Lib
open Archive (Bytes IsDigest SafeName below encodeText target)

variable {tools : Tools} {tree tree' : FileTree} {root dir path : FilePath}

/-! ## Reading -/

theorem entries_eq_dir : entries tree path = some .dir ↔ tree.node path = some .dir := by
  unfold entries
  cases tree.node path with
  | none => simp
  | some n => cases n <;> simp

theorem entries_eq_regular {content : Bytes} {links : Nat} :
    entries tree path = some (.regular content links) ↔ links = 1 ∧ ∃ x, tree.node path = some (.file content x) := by
  unfold entries
  cases tree.node path with
  | none => simp
  | some n =>
      cases n with
      | dir => simp
      | file c x => simp [and_comm, eq_comm]

theorem openDir_eq_ok {e : Entries} : openDir e path = .ok () ↔ e path = some .dir := by
  unfold openDir
  cases e path with
  | none => simp
  | some entry => cases entry <;> simp

/-- The walk down leads to the parts that were gone through. -/
theorem walk_eq_ok {e : Entries} {ps : List Part}
    (h : ps.foldlM (fun dir part => (openDir e (part :: dir)).map fun _ => part :: dir) root = .ok dir) :
    dir = ps.reverse ++ root := by
  induction ps generalizing root with
  | nil =>
      cases h
      rfl
  | cons part ps ih =>
      rw [List.foldlM_cons] at h
      obtain ⟨next, hnext, h⟩ := except_bind_eq_ok.mp h
      obtain ⟨_, -, rfl⟩ := except_map_eq_ok.mp hnext
      rw [ih h, List.reverse_cons, List.append_assoc, List.singleton_append]

/-- In a tree the walk down to a directory is one of directories. -/
theorem walk_entries {ps : List Part} (h : tree.node (ps.reverse ++ root) = some .dir) :
    ps.foldlM (fun dir part => (openDir (entries tree) (part :: dir)).map fun _ => part :: dir) root =
      .ok (ps.reverse ++ root) := by
  induction ps generalizing root with
  | nil => rfl
  | cons part ps ih =>
      rw [List.reverse_cons, List.append_assoc, List.singleton_append] at h ⊢
      have hpart : tree.node (part :: root) = some .dir := FileTree.dir_of_suffix (List.suffix_append _ _) h
      rw [List.foldlM_cons]
      refine except_bind_eq_ok.mpr ⟨part :: root, except_map_eq_ok.mpr ⟨(), ?_, rfl⟩, ih h⟩
      exact openDir_eq_ok.mpr (entries_eq_dir.mpr hpart)

/-- The last part, and the others. -/
theorem below_eq (name : String) :
    below name = (FileTree.parts name.toList).getLast (FileTree.parts_ne_nil _) ::
      (FileTree.parts name.toList).dropLast.reverse := by
  have hsplit := List.dropLast_concat_getLast (FileTree.parts_ne_nil name.toList)
  have hreverse := congrArg List.reverse hsplit
  rw [List.reverse_append, List.reverse_singleton, List.singleton_append] at hreverse
  exact hreverse.symm

theorem safeName_map_eq_ok {name text : String} :
    (Archive.safeName name).mapError Error.archive = .ok text ↔ SafeName name ∧ text = name := by
  rw [except_mapError_eq_ok]
  constructor
  · exact Archive.safeName_eq_ok
  · rintro ⟨hsafe, rfl⟩
    exact if_pos hsafe

theorem readEntry_eq_ok {relative : String} {maximumBytes : Nat} {single : Bool} {entry : Option Entry} {data : Bytes} :
    readEntry relative maximumBytes single entry = .ok data ↔ ∃ links, entry = some (.regular data links) ∧
      (single = true → links = 1) ∧ data.length ≤ maximumBytes := by
  cases entry with
  | none => simp [readEntry]
  | some entry =>
      cases entry with
      | dir => simp [readEntry]
      | link => simp [readEntry]
      | special => simp [readEntry]
      | regular content links =>
          unfold readEntry
          constructor
          · intro h
            obtain ⟨_, hsingle, h⟩ := except_bind_eq_ok.mp h
            obtain ⟨_, hlength, h⟩ := except_bind_eq_ok.mp h
            cases h
            rw [throwIf_eq_ok] at hsingle hlength
            push Not at hsingle
            exact ⟨links, rfl, hsingle, Nat.not_lt.mp hlength⟩
          · rintro ⟨links', heq, hsingle, hlength⟩
            cases heq
            refine except_bind_eq_ok.mpr ⟨(), throwIf_eq_ok.mpr fun h => h.2 (hsingle h.1), ?_⟩
            exact except_bind_eq_ok.mpr ⟨(), throwIf_eq_ok.mpr (Nat.not_lt.mpr hlength), rfl⟩

/-- A file of a tree is read, if it is not too long. -/
theorem readFile_entries {name : String} (hname : SafeName name) {maximumBytes : Nat} {single : Bool} {data : Bytes} :
    readFile (entries tree) root name maximumBytes single = .ok data ↔
      (∃ x, tree.node (below name ++ root) = some (.file data x)) ∧ data.length ≤ maximumBytes := by
  rw [below_eq, List.cons_append]
  unfold readFile
  constructor
  · intro h
    obtain ⟨dir, hdir, h⟩ := except_bind_eq_ok.mp h
    unfold openParent at hdir
    obtain ⟨_, -, hdir⟩ := except_bind_eq_ok.mp hdir
    obtain ⟨_, -, hdir⟩ := except_bind_eq_ok.mp hdir
    obtain rfl := walk_eq_ok hdir
    obtain ⟨links, hentry, -, hlength⟩ := readEntry_eq_ok.mp h
    exact ⟨(entries_eq_regular.mp hentry).2, hlength⟩
  · rintro ⟨⟨x, hnode⟩, hlength⟩
    have hparent := tree.parent (by rw [hnode]; exact Option.some_ne_none _)
    have hroot : tree.node root = some .dir := FileTree.dir_of_suffix (List.suffix_append _ _) hparent
    refine except_bind_eq_ok.mpr ⟨(FileTree.parts name.toList).dropLast.reverse ++ root, ?_, ?_⟩
    · unfold openParent
      refine except_bind_eq_ok.mpr ⟨name, safeName_map_eq_ok.mpr ⟨hname, rfl⟩, ?_⟩
      refine except_bind_eq_ok.mpr ⟨(), openDir_eq_ok.mpr (entries_eq_dir.mpr hroot), ?_⟩
      exact walk_entries hparent
    · exact readEntry_eq_ok.mpr ⟨1, entries_eq_regular.mpr ⟨rfl, x, hnode⟩, fun _ => rfl, hlength⟩

/-- What is read fits, whatever it is read from. -/
theorem length_of_readFile {e : Entries} {name : String} {maximumBytes : Nat} {single : Bool} {data : Bytes}
    (h : readFile e root name maximumBytes single = .ok data) : data.length ≤ maximumBytes := by
  unfold readFile at h
  obtain ⟨dir, -, h⟩ := except_bind_eq_ok.mp h
  obtain ⟨_, _, _, hlength⟩ := readEntry_eq_ok.mp h
  exact hlength

/-- The bytes of files together. -/
def totalBytes (files : Files) : Nat := (files.map fun f => f.2.length).sum

theorem readFiles_spec {e : Entries} {names : List String} {maximumBytes : Nat} {single : Bool} {files : Files}
    (h : readFiles e root single names maximumBytes = .ok files) :
    files.map Prod.fst = names ∧ totalBytes files ≤ maximumBytes := by
  induction names generalizing maximumBytes files with
  | nil =>
      cases h
      exact ⟨rfl, Nat.zero_le _⟩
  | cons name names ih =>
      unfold readFiles at h
      obtain ⟨data, hdata, h⟩ := except_bind_eq_ok.mp h
      obtain ⟨more, hmore, h⟩ := except_bind_eq_ok.mp h
      cases h
      obtain ⟨hnames, htotal⟩ := ih hmore
      have hlength := length_of_readFile hdata
      refine ⟨by rw [List.map_cons, hnames], ?_⟩
      unfold totalBytes at htotal ⊢
      rw [List.map_cons, List.sum_cons]
      dsimp only
      omega

/-- Files that are there are read, if they are not too long together. -/
theorem readFiles_entries {files : Files} (hsafe : ∀ f ∈ files, SafeName f.1)
    (hthere : ∀ f ∈ files, ∃ x, tree.node (below f.1 ++ root) = some (.file f.2 x)) {maximumBytes : Nat}
    {single : Bool} {read : Files} :
    readFiles (entries tree) root single (files.map Prod.fst) maximumBytes = .ok read ↔
      read = files ∧ totalBytes files ≤ maximumBytes := by
  induction files generalizing maximumBytes read with
  | nil =>
      constructor
      · intro h
        cases h
        exact ⟨rfl, Nat.zero_le _⟩
      · rintro ⟨rfl, -⟩
        rfl
  | cons f files ih =>
      have htotal : totalBytes (f :: files) = f.2.length + totalBytes files := by
        unfold totalBytes
        rw [List.map_cons, List.sum_cons]
      have hf (data : Bytes) : readFile (entries tree) root f.1 maximumBytes single = .ok data ↔
          (∃ x, tree.node (below f.1 ++ root) = some (.file data x)) ∧ data.length ≤ maximumBytes :=
        readFile_entries (hsafe f List.mem_cons_self)
      have hmore (m : Nat) (more : Files) : readFiles (entries tree) root single (files.map Prod.fst) m = .ok more ↔
          more = files ∧ totalBytes files ≤ m :=
        ih (fun g hg => hsafe g (List.mem_cons_of_mem _ hg)) fun g hg => hthere g (List.mem_cons_of_mem _ hg)
      obtain ⟨x, hnode⟩ := hthere f List.mem_cons_self
      rw [List.map_cons, htotal]
      unfold readFiles
      constructor
      · intro h
        obtain ⟨data, hdata, h⟩ := except_bind_eq_ok.mp h
        obtain ⟨more, hread, hcons⟩ := except_bind_eq_ok.mp h
        obtain ⟨⟨x', hnode'⟩, hlength⟩ := (hf data).mp hdata
        rw [hnode] at hnode'
        cases hnode'
        obtain ⟨rfl, hrest⟩ := (hmore _ _).mp hread
        exact ⟨(Except.ok.inj hcons).symm, by omega⟩
      · rintro ⟨rfl, hfits⟩
        refine except_bind_eq_ok.mpr ⟨f.2, (hf _).mpr ⟨⟨x, hnode⟩, by omega⟩, ?_⟩
        exact except_bind_eq_ok.mpr ⟨files, (hmore _ _).mpr ⟨rfl, by omega⟩, rfl⟩

/-! ## Publishing -/

/-- The object is there, no file has changed, and there is no other new file. -/
theorem publishBytes_eq_ok {data : Bytes} (h : publishBytes path data tree = .ok tree') :
    (∃ x, tree'.node path = some (.file data x)) ∧
    (∀ p content x, tree.node p = some (.file content x) → tree'.node p = some (.file content x)) ∧
    ∀ p content x, tree'.node p = some (.file content x) →
      tree.node p = some (.file content x) ∨ p = path ∧ content = data := by
  cases path with
  | nil => cases h
  | cons part dir =>
      unfold publishBytes at h
      obtain ⟨tree₁, hmake, h⟩ := except_bind_eq_ok.mp h
      obtain ⟨_, -, h⟩ := except_bind_eq_ok.mp h
      obtain ⟨_, -, h⟩ := except_bind_eq_ok.mp h
      have hfiles := FileTree.makeDirs_files (except_mapError_eq_ok.mp hmake)
      split at h
      · obtain ⟨-, hfree, hnode⟩ := FileTree.add_eq_ok (except_mapError_eq_ok.mp h)
        refine ⟨⟨false, by rw [hnode, Function.update_self]⟩, fun p content x hp => ?_, fun p content x hp => ?_⟩
        · rw [hnode, Function.update_of_ne]
          · exact (hfiles p content x).mpr hp
          · rintro rfl
            rw [(hfiles _ content x).mpr hp] at hfree
            cases hfree
        · rw [hnode, Function.update_apply] at hp
          split_ifs at hp with heq
          · cases hp
            exact .inr ⟨heq, rfl⟩
          · exact .inl ((hfiles p content x).mp hp)
      · obtain ⟨content, hread, h⟩ := except_bind_eq_ok.mp h
        obtain ⟨_, hsame, h⟩ := except_bind_eq_ok.mp h
        cases h
        rw [throwIf_eq_ok, not_not] at hsame
        subst hsame
        obtain ⟨links, hentry, -⟩ := readEntry_eq_ok.mp hread
        exact ⟨(entries_eq_regular.mp hentry).2, fun p c x => (hfiles p c x).mpr,
          fun p c x hp => .inl ((hfiles p c x).mp hp)⟩

/-! ## The names of a contract -/

theorem intercalate_append {xs ys : List (List Char)} (hxs : xs ≠ []) (hys : ys ≠ []) :
    ['/'].intercalate (xs ++ ys) = ['/'].intercalate xs ++ '/' :: ['/'].intercalate ys := by
  induction xs with
  | nil => exact absurd rfl hxs
  | cons x xs ih =>
      cases xs with
      | nil =>
          obtain ⟨y, ys, rfl⟩ := List.exists_cons_of_ne_nil hys
          simp [List.intercalate]
      | cons x' xs =>
          have hrest := ih (List.cons_ne_nil _ _)
          simp only [List.intercalate, List.cons_append, List.intersperse_cons_cons, List.flatten_cons] at hrest ⊢
          rw [hrest]
          simp

/-- A name whose parts are the first ones of another stands on the way to it. -/
theorem onTheWay_of_parts {p q : String} (h : FileTree.parts p.toList <+: FileTree.parts q.toList) (hne : p ≠ q) :
    OnTheWay p q := by
  obtain ⟨rest, hrest⟩ := h
  have hjoin (cs : List Char) : ['/'].intercalate (FileTree.parts cs) = cs := List.intercalate_splitOn '/'
  have hmore : rest ≠ [] := by
    rintro rfl
    rw [List.append_nil] at hrest
    exact hne (String.toList_inj.mp (FileTree.parts_injective hrest))
  refine ⟨['/'].intercalate rest, ?_⟩
  rw [← hjoin q.toList, ← hrest, intercalate_append (FileTree.parts_ne_nil _) hmore, hjoin, List.append_assoc,
    List.singleton_append]

namespace ModelFiles

variable {contract : ModelFiles} {p q : String}

theorem nodup (contract : ModelFiles) : contract.paths.Nodup := by
  have h := contract.valid
  unfold checkFiles at h
  obtain ⟨_, -, h⟩ := except_bind_eq_ok.mp h
  obtain ⟨_, hnodup, -⟩ := except_bind_eq_ok.mp h
  rw [throwIf_eq_ok, not_not] at hnodup
  exact hnodup

theorem check (hp : p ∈ contract.paths) : SafeName p ∧ p ≠ manifestName ∧ ∀ q ∈ contract.paths, ¬OnTheWay p q := by
  have h := contract.valid
  unfold checkFiles at h
  obtain ⟨_, -, h⟩ := except_bind_eq_ok.mp h
  obtain ⟨_, -, h⟩ := except_bind_eq_ok.mp h
  have hpath := forM_ok.mp h p hp
  unfold checkPath at hpath
  obtain ⟨_, hsafe, hpath⟩ := except_bind_eq_ok.mp hpath
  rw [throwIf_eq_ok] at hpath
  push Not at hpath
  exact ⟨(safeName_map_eq_ok.mp hsafe).1, hpath.1, hpath.2⟩

theorem safe (hp : p ∈ contract.paths) : SafeName p := (check hp).1

/-- No file of a contract is on the way to another. -/
theorem apart (hp : p ∈ contract.paths) (hq : q ∈ contract.paths) (hne : p ≠ q) : ¬below p <:+ below q := fun h =>
  (check hp).2.2 q hq (onTheWay_of_parts (List.reverse_suffix.mp h) hne)

end ModelFiles

/-! ## Canonical bytes -/

/-- What the module relies on: digests are of the form that `verify_snapshot` asks for, and the text of ASCII bytes
is those characters. -/
structure Tools.Faithful (tools : Tools) : Prop where
  isDigest : ∀ data, IsDigest (tools.sha256 data)
  decode_ascii : ∀ text, (∀ c ∈ text, Json.IsAscii c) → tools.decode (encodeText text) = some text

theorem canonicalBytes_eq_ok {v : Json} {bytes : Bytes} (h : canonicalBytes v = .ok bytes) :
    ∃ text, v.canonicalJson = some text ∧ bytes = encodeText text ∧ ∀ c ∈ text, Json.IsAscii c := by
  unfold canonicalBytes at h
  split at h
  · rename_i text htext
    cases h
    refine ⟨text, htext, rfl, ?_⟩
    unfold Json.canonicalJson at htext
    rw [Json.encode_eq_layOut _ 0] at htext
    exact Json.lexical_ascii.layOut _ htext
  · cases h

theorem canonicalBytes_sort (v : Json) : canonicalBytes v.sort = canonicalBytes v := by
  unfold canonicalBytes Json.canonicalJson
  rw [Json.sort_sort]

/-- The bytes of a value are read as the value, sorted. -/
theorem decode_canonicalBytes (htools : tools.Faithful) {v : Json} {bytes : Bytes} (h : canonicalBytes v = .ok bytes)
    (hd : v.DistinctKeys) : (tools.decode bytes).bind (Json.loads Json.dictHook) = some v.sort := by
  obtain ⟨text, htext, rfl, hascii⟩ := canonicalBytes_eq_ok h
  rw [htools.decode_ascii text hascii]
  exact Json.loads_canonicalJson Json.dictHook_keeps htext hd

/-- Values with the same bytes are the same, sorted. -/
theorem sort_of_canonicalBytes (htools : tools.Faithful) {v w : Json} {bytes : Bytes} (hv : canonicalBytes v = .ok bytes)
    (hw : canonicalBytes w = .ok bytes) (hdv : v.DistinctKeys) (hdw : w.DistinctKeys) : v.sort = w.sort := by
  have hread := decode_canonicalBytes htools hv hdv
  rw [decode_canonicalBytes htools hw hdw] at hread
  exact (Option.some_inj.mp hread).symm

theorem finiteNumbers_of_canonicalBytes {v : Json} {bytes : Bytes} (h : canonicalBytes v = .ok bytes) :
    v.FiniteNumbers := by
  obtain ⟨text, htext, -, -⟩ := canonicalBytes_eq_ok h
  unfold Json.canonicalJson at htext
  rw [Json.encode_eq_layOut _ 0] at htext
  have heach := (Json.layOut_isSome_iff_each v.sort 0).mp (by rw [htext]; rfl)
  exact (Json.each_sort v).mp ((Json.each_and v.sort).mp heach).1

/-! ### The identity of a contract -/

theorem ModelFiles.distinctKeys_asdict (contract : ModelFiles) : contract.asdict.DistinctKeys := by
  refine ⟨(by decide : ["sources", "parameters"].Nodup), ?_, trivial, trivial⟩
  show Json.DistinctItems _
  rw [Json.distinctItems_iff]
  intro v hv
  obtain ⟨source, -, rfl⟩ := List.mem_map.mp hv
  trivial

/-- The bytes that identify a contract. -/
def ModelFiles.identityBytes (contract : ModelFiles) : Bytes :=
  match canonicalBytes contract.asdict with
  | .ok bytes => bytes
  | .error _ => []

theorem ModelFiles.canonicalBytes_asdict (contract : ModelFiles) :
    canonicalBytes contract.asdict = .ok contract.identityBytes := by
  unfold ModelFiles.identityBytes
  have hsome : (contract.asdict.canonicalJson).isSome := by
    unfold Json.canonicalJson
    rw [Json.encode_eq_layOut _ 0, Json.layOut_isSome_iff_each, Json.each_sort]
    refine ⟨?_, ⟨trivial, trivial⟩, trivial⟩
    show Json.EachItem _ _
    rw [Json.eachItem_iff]
    intro v hv
    obtain ⟨source, -, rfl⟩ := List.mem_map.mp hv
    exact ⟨trivial, trivial⟩
  obtain ⟨text, htext⟩ := Option.isSome_iff_exists.mp hsome
  unfold canonicalBytes
  rw [htext]

theorem ModelFiles.identity_eq (tools : Tools) (contract : ModelFiles) :
    contract.identity tools = .ok (tools.sha256 contract.identityBytes) := by
  unfold ModelFiles.identity digestJson
  rw [contract.canonicalBytes_asdict]
  rfl

/-- Contracts with the same bytes are the same. -/
theorem ModelFiles.identityBytes_injective (htools : tools.Faithful) {contract contract' : ModelFiles}
    (h : contract.identityBytes = contract'.identityBytes) : contract = contract' := by
  have hsame := sort_of_canonicalBytes htools contract.canonicalBytes_asdict (h ▸ contract'.canonicalBytes_asdict)
    contract.distinctKeys_asdict contract'.distinctKeys_asdict
  have hstrings (names : List String) : (Json.arr (names.map .str)).sort = .arr (names.map .str) := by
    rw [Json.sort, Json.sortItems_eq_map, List.map_map]
    rfl
  have hsources : contract.asdict.sort.field? "sources" = contract'.asdict.sort.field? "sources" := by rw [hsame]
  have hparameters : contract.asdict.sort.field? "parameters" = contract'.asdict.sort.field? "parameters" := by
    rw [hsame]
  rw [Json.field?_sort contract.distinctKeys_asdict, Json.field?_sort contract'.distinctKeys_asdict] at hsources hparameters
  have hsources : some (Json.arr (contract.sources.map .str)).sort = some (Json.arr (contract'.sources.map .str)).sort :=
    hsources
  have hparameters : some (Json.str contract.parameters) = some (Json.str contract'.parameters) := hparameters
  rw [hstrings, hstrings] at hsources
  have hlist := List.map_injective_iff.mpr (fun _ _ => Json.str.inj) (Json.arr.inj (Option.some.inj hsources))
  have hname := Json.str.inj (Option.some.inj hparameters)
  obtain ⟨sources, parameters, _⟩ := contract
  obtain ⟨sources', parameters', _⟩ := contract'
  obtain rfl : sources = sources' := hlist
  obtain rfl : parameters = parameters' := hname
  rfl

/-! ## What a manifest says -/

theorem parseParameters_eq_ok {data : Bytes} {ms : List (String × Json)} (h : parseParameters tools data = .ok ms) :
    Json.DistinctKeys (.obj ms) := by
  unfold parseParameters at h
  split at h
  · rename_i ms' hread
    obtain ⟨_, -, rfl⟩ := except_map_eq_ok.mp h
    obtain ⟨text, -, hloads⟩ := Option.bind_eq_some_iff.mp hread
    exact Json.loads_distinctKeys hloads
  · cases h

theorem manifest_eq_ok {files : Files} {contract : ModelFiles} {m : Json} (h : manifest tools files contract = .ok m) :
    ∃ parameters source configuration, Json.DistinctKeys (.obj parameters) ∧
      m = .obj [("schema_version", .int 1), ("contract_sha256", .str (tools.sha256 contract.identityBytes)),
        ("source_sha256", .str source), ("configuration_sha256", .str configuration), ("parameters", .obj parameters),
        ("files", .obj (inventory tools files))] := by
  unfold manifest at h
  obtain ⟨data, -, h⟩ := except_bind_eq_ok.mp h
  obtain ⟨parameters, hparameters, h⟩ := except_bind_eq_ok.mp h
  obtain ⟨contractSha256, hcontract, h⟩ := except_bind_eq_ok.mp h
  obtain ⟨sources, -, h⟩ := except_bind_eq_ok.mp h
  obtain ⟨source, -, h⟩ := except_bind_eq_ok.mp h
  obtain ⟨configuration, -, h⟩ := except_bind_eq_ok.mp h
  rw [contract.identity_eq] at hcontract
  cases hcontract
  cases h
  exact ⟨parameters, source, configuration, parseParameters_eq_ok hparameters, rfl⟩

theorem perm_inventory (files : Files) :
    (inventory tools files).Perm (files.map fun f => (f.1, fileRecord tools f.2)) :=
  (List.perm_insertionSort FileLe files).map _

theorem keysNodup_inventory {files : Files} (h : (files.map Prod.fst).Nodup) : KeysNodup (inventory tools files) := by
  have hkeys : ((inventory tools files).map Prod.fst).Perm _ := (perm_inventory files).map Prod.fst
  rw [List.map_map] at hkeys
  exact hkeys.nodup_iff.mpr h

theorem lookup_inventory {files : Files} (h : (files.map Prod.fst).Nodup) {f : String × Bytes} (hf : f ∈ files) :
    (inventory tools files).lookup f.1 = some (fileRecord tools f.2) :=
  (keysNodup_inventory h).lookup_of_mem ((perm_inventory files).mem_iff.mpr (List.mem_map_of_mem hf))

theorem distinctKeys_manifest {files : Files} {contract : ModelFiles} {m : Json}
    (h : manifest tools files contract = .ok m) (hfiles : (files.map Prod.fst).Nodup) : m.DistinctKeys := by
  obtain ⟨parameters, source, configuration, hparameters, rfl⟩ := manifest_eq_ok h
  have hnames : ["schema_version", "contract_sha256", "source_sha256", "configuration_sha256", "parameters",
      "files"].Nodup := by decide
  refine ⟨hnames, trivial, trivial, trivial, trivial, hparameters, ⟨keysNodup_inventory hfiles, ?_⟩, trivial⟩
  rw [Json.distinctMembers_iff]
  intro e he
  obtain ⟨f, -, rfl⟩ := List.mem_map.mp ((perm_inventory files).mem_iff.mp he)
  exact ⟨(by decide : ["sha256", "bytes"].Nodup), trivial, trivial, trivial⟩

/-- The contract, as the sorted manifest has it. -/
theorem contract_of_manifest {files : Files} {contract : ModelFiles} {m : Json}
    (h : manifest tools files contract = .ok m) (hfiles : (files.map Prod.fst).Nodup) :
    m.sort.field? "contract_sha256" = some (.str (tools.sha256 contract.identityBytes)) := by
  rw [Json.field?_sort (distinctKeys_manifest h hfiles)]
  obtain ⟨parameters, source, configuration, -, rfl⟩ := manifest_eq_ok h
  rfl

/-- The record of a file, as the sorted manifest has it. -/
theorem record_of_manifest {files : Files} {contract : ModelFiles} {m : Json}
    (h : manifest tools files contract = .ok m) (hfiles : (files.map Prod.fst).Nodup) {f : String × Bytes}
    (hf : f ∈ files) :
    (m.sort.field? "files").bind (·.field? f.1) = some (fileRecord tools f.2).sort := by
  have hd := distinctKeys_manifest h hfiles
  rw [Json.field?_sort hd]
  obtain ⟨parameters, source, configuration, -, rfl⟩ := manifest_eq_ok h
  show (Json.obj (inventory tools files)).sort.field? f.1 = _
  rw [Json.field?_sort hd.2.2.2.2.2.2.1]
  show ((inventory tools files).lookup f.1).map Json.sort = _
  rw [lookup_inventory hfiles hf]
  rfl

theorem sha256_fileRecord (data : Bytes) :
    (fileRecord tools data).sort.field? "sha256" = some (.str (tools.sha256 data)) := by
  have hd : (fileRecord tools data).DistinctKeys :=
    ⟨(by decide : ["sha256", "bytes"].Nodup), trivial, trivial, trivial⟩
  rw [Json.field?_sort hd]
  rfl

end Ramulator.ChiaLoop.Snapshots
