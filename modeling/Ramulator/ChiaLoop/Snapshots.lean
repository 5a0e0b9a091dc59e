/-
# Ramulator.ChiaLoop.Snapshots — candidates: submitted files, stored under what identifies them.

`framework/snapshots.py`. A contract names the files that a model may have, sources and one file of numeric
parameters. `snapshot` reads them from the workspace of an agent, and publishes them in the store, in a directory
that is named by the digest of their manifest; the manifest itself comes last, it says that all else is there.
`verifySnapshot` reads a candidate back, and `materialize` writes its files to a new workspace.

What the module takes from the libraries of the language is in `Tools`. A file does not change while it is read,
and the names of temporary files are names of nothing else. A fault of a file that the agent may choose (its text,
its kind) is an exception; which one, where the source tells several kinds of text apart, is not said.
-/
import Ramulator.ChiaLoop.ArchiveExtraction
import Ramulator.Lib.JsonFields

namespace Ramulator.ChiaLoop.Snapshots

open Ramulator.Lib FloatFormat
open Archive (Bytes IsDigest SafeName below encodeText target)

/-- How the functions of this module fail. -/
inductive Error where
  | invalidSnapshot (message : String)
  | valueError (message : String)
  | keyError
  /-- `safe_name`. -/
  | archive (error : Archive.Error)
  | file (error : FileError)
  /-- A symbolic link where none is followed. -/
  | symbolicLink
  deriving DecidableEq

structure Tools where
  sha256 : Bytes → String
  /-- The text of JSON bytes. -/
  decode : Bytes → Option (List Char)

variable (tools : Tools)

/-! ## Identities -/

/-- `canonical_json(value).encode()`. -/
def canonicalBytes (v : Json) : Except Error Bytes :=
  match v.canonicalJson with
  | some text => .ok (encodeText text)
  | none => .error (.valueError "a number has no JSON text")

/-- `digest_json`. -/
def digestJson (v : Json) : Except Error String := (canonicalBytes v).map tools.sha256

/-! ## Contracts -/

def manifestName : String := "snapshot.json"

/-- `path` is a directory on the way to `other`, by their spelling. -/
def OnTheWay (path other : String) : Prop := path.toList ++ ['/'] <+: other.toList

instance (path other : String) : Decidable (OnTheWay path other) :=
  inferInstanceAs (Decidable (path.toList ++ ['/'] <+: other.toList))

def checkPath (paths : List String) (path : String) : Except Error Unit := do
  let _ ← (Archive.safeName path).mapError .archive
  throwIf (path = manifestName ∨ ∃ other ∈ paths, OnTheWay path other)
    (.invalidSnapshot "model file names conflict with the snapshot layout")

/-- `ModelFiles.__post_init__`. -/
def checkFiles (sources : List String) (parameters : String) : Except Error Unit := do
  throwIf (sources = []) (.invalidSnapshot "source files must be a nonempty ordered tuple")
  throwIf (¬(sources ++ [parameters]).Nodup) (.invalidSnapshot "model file names must be unique")
  forM (sources ++ [parameters]) (checkPath (sources ++ [parameters]))

/-- The files that a model may have. -/
structure ModelFiles where
  sources : List String
  parameters : String
  valid : checkFiles sources parameters = .ok ()

def ModelFiles.paths (contract : ModelFiles) : List String := contract.sources ++ [contract.parameters]

def ModelFiles.asdict (contract : ModelFiles) : Json :=
  .obj [("sources", .arr (contract.sources.map .str)), ("parameters", .str contract.parameters)]

def ModelFiles.identity (contract : ModelFiles) : Except Error String := digestJson tools contract.asdict

/-! ## Parameters -/

/-- `[A-Za-z_][A-Za-z0-9_]*`. -/
def isParameterName (name : String) : Bool :=
  match name.toList with
  | [] => false
  | c :: cs => (c.isAlpha || c == '_') && cs.all fun d => d.isAlphanum || d == '_'

/-- An integer or a float, and finite; an integer that is no float is not finite. -/
def isFiniteNumber : Json → Bool
  | .int n =>
      match binary64.ofRat (n < 0) |(n : ℚ)| with
      | .finite _ => true
      | _ => false
  | .float (.finite _) => true
  | _ => false

def checkParameter (m : String × Json) : Except Error Unit := do
  throwIf (isParameterName m.1 = false) (.invalidSnapshot "invalid model parameter name")
  throwIf (isFiniteNumber m.2 = false) (.invalidSnapshot ("model parameter must be finite and numeric: " ++ m.1))

/-- `parse_parameters`. -/
def parseParameters (data : Bytes) : Except Error (List (String × Json)) :=
  match (tools.decode data).bind (Json.loads Json.uniqueHook) with
  | some (.obj ms) => (forM ms checkParameter).map fun _ => ms
  | _ => .error (.invalidSnapshot "model parameters must be a JSON object")

/-! ## Manifests -/

/-- Files by their names. -/
abbrev Files := List (String × Bytes)

def getFile (files : Files) (name : String) : Except Error Bytes :=
  match files.lookup name with
  | some data => .ok data
  | none => .error .keyError

/-- What a manifest says of a file. -/
def fileRecord (data : Bytes) : Json := .obj [("sha256", .str (tools.sha256 data)), ("bytes", .int data.length)]

def FileLe (f f' : String × Bytes) : Prop := Json.nameLe f.1.toList f'.1.toList = true

instance : DecidableRel FileLe := fun f f' => inferInstanceAs (Decidable (Json.nameLe f.1.toList f'.1.toList = true))

/-- The records of the files, in the order of their names. -/
def inventory (files : Files) : List (String × Json) :=
  (files.insertionSort FileLe).map fun f => (f.1, fileRecord tools f.2)

/-- `_manifest`. -/
def manifest (files : Files) (contract : ModelFiles) : Except Error Json := do
  let parameters ← parseParameters tools (← getFile files contract.parameters)
  let contractSha256 ← contract.identity tools
  let sources ← contract.sources.mapM fun name => (getFile files name).map fun data => (name, fileRecord tools data)
  let sourceSha256 ← digestJson tools (.obj sources)
  let configurationSha256 ← digestJson tools (.obj parameters)
  pure (.obj [("schema_version", .int 1), ("contract_sha256", .str contractSha256), ("source_sha256", .str sourceSha256),
    ("configuration_sha256", .str configurationSha256), ("parameters", .obj parameters),
    ("files", .obj (inventory tools files))])

/-! ## Reading files -/

/-- What there is at a path; agents may make links. What is `special` can be opened, as a pipe can. -/
inductive Entry where
  | dir
  | regular (content : Bytes) (links : Nat)
  | link
  | special
  deriving DecidableEq

abbrev Entries := FilePath → Option Entry

/-- A tree without links. -/
def entries (tree : FileTree) : Entries := fun path =>
  match tree.node path with
  | none => none
  | some .dir => some .dir
  | some (.file content _) => some (.regular content 1)

/-- `os.open` of a directory, which is no link. -/
def openDir (e : Entries) (path : FilePath) : Except Error Unit :=
  match e path with
  | some .dir => .ok ()
  | some .link => .error .symbolicLink
  | some _ => .error (.file .notADirectory)
  | none => .error (.file .notFound)

/-- `_parent`: from directory to directory, down to the one of the file. -/
def openParent (e : Entries) (root : FilePath) (relative : String) : Except Error FilePath := do
  let _ ← (Archive.safeName relative).mapError .archive
  openDir e root
  (FileTree.parts relative.toList).dropLast.foldlM (fun dir part => (openDir e (part :: dir)).map fun _ => part :: dir) root

/-- `read_file`, of what there is. A directory is opened, and no stream can be made of it. -/
def readEntry (relative : String) (maximumBytes : Nat) (requireSingleLink : Bool) : Option Entry → Except Error Bytes
  | none => .error (.file .notFound)
  | some .link => .error .symbolicLink
  | some .dir => .error (.file .isADirectory)
  | some .special => .error (.invalidSnapshot ("model input is not a regular file: " ++ relative))
  | some (.regular content links) => do
      throwIf (requireSingleLink = true ∧ links ≠ 1)
        (.invalidSnapshot ("workspace input has another filesystem alias: " ++ relative))
      throwIf (maximumBytes < content.length) (.invalidSnapshot "submission exceeds its declared byte guard")
      pure content

/-- `read_file`. -/
def readFile (e : Entries) (root : FilePath) (relative : String) (maximumBytes : Nat) (requireSingleLink : Bool) :
    Except Error Bytes := do
  let dir ← openParent e root relative
  readEntry relative maximumBytes requireSingleLink
    (e ((FileTree.parts relative.toList).getLast (FileTree.parts_ne_nil _) :: dir))

/-- The files of a contract, which together have so many bytes at most. -/
def readFiles (e : Entries) (root : FilePath) (requireSingleLink : Bool) : List String → Nat → Except Error Files
  | [], _ => .ok []
  | name :: names, remaining => do
      let data ← readFile e root name remaining requireSingleLink
      let files ← readFiles e root requireSingleLink names (remaining - data.length)
      pure ((name, data) :: files)

/-! ## Publishing -/

/-- `publish_bytes`: what is there must be the same. -/
def publishBytes : FilePath → Bytes → FileTree → Except Error FileTree
  | [], _, _ => .error (.file .exists)
  | part :: dir, data, tree => do
      let tree ← (tree.makeDirs dir).mapError .file
      let name ← (Archive.safeName (String.ofList part)).mapError .archive
      openDir (entries tree) dir
      match tree.node (part :: dir) with
      | none => (tree.add (.file data false) (part :: dir)).mapError .file
      | some _ => do
          let content ← readEntry name data.length false (entries tree (part :: dir))
          throwIf (content ≠ data) (.invalidSnapshot ("published object already has different bytes: " ++ name))
          pure tree

/-- What `snapshot` and `verify_snapshot` return. -/
structure Record where
  candidateId : String
  manifest : Json

/-- `snapshot`, of the workspace `draft`. -/
def snapshot (draft : Entries) (workspace : FilePath) (store : FilePath) (contract : ModelFiles) (maximumBytes : Nat)
    (tree : FileTree) : Except Error (Record × FileTree) := do
  throwIf (maximumBytes = 0) (.valueError "the source byte guard must be a recorded positive integer")
  let files ← readFiles draft workspace true contract.paths maximumBytes
  let manifest ← manifest tools files contract
  let candidateId ← digestJson tools manifest
  let destination := target store candidateId
  let tree ← (tree.makeDirs destination).mapError .file
  let tree ← files.foldlM (fun tree f => publishBytes (target destination f.1) f.2 tree) tree
  let text ← canonicalBytes manifest
  let tree ← publishBytes (target destination manifestName) text tree
  pure (⟨candidateId, manifest⟩, tree)

/-! ## Reading back -/

/-- More bytes a manifest may not have. -/
def manifestGuard (contract : ModelFiles) (maximumBytes : Nat) : Nat :=
  maximumBytes + 4096 + (contract.paths.map fun path => path.length + 256).sum

/-- `verify_snapshot`. -/
def verifySnapshot (e : Entries) (store : FilePath) (candidateId : String) (contract : ModelFiles)
    (maximumBytes : Nat) : Except Error Record := do
  throwIf (¬IsDigest candidateId) (.invalidSnapshot "expected a lowercase SHA-256 identity")
  throwIf (maximumBytes = 0) (.valueError "the source byte guard must be a recorded positive integer")
  let root := target store candidateId
  let raw ← readFile e root manifestName (manifestGuard contract maximumBytes) false
  match (tools.decode raw).bind (Json.loads Json.dictHook) with
  | none => throw (.invalidSnapshot "invalid snapshot manifest")
  | some recorded =>
      throwIf (tools.sha256 raw ≠ candidateId)
        (.invalidSnapshot "snapshot manifest identity or canonical encoding changed")
      let text ← canonicalBytes recorded
      throwIf (raw ≠ text) (.invalidSnapshot "snapshot manifest identity or canonical encoding changed")
      let files ← readFiles e root false contract.paths maximumBytes
      let actual ← manifest tools files contract
      throwIf (Json.eq actual recorded = false) (.invalidSnapshot "snapshot contents or file contract changed")
      pure ⟨candidateId, recorded⟩

/-- `mkdir(parents=True, exist_ok=False)`. -/
def makeNewDirs : FilePath → FileTree → Except FileError FileTree
  | [], _ => .error .exists
  | part :: path, tree =>
      match tree.makeDir (part :: path) with
      | .error .notFound => (tree.makeDirs path).bind (FileTree.makeDir (part :: path))
      | result => result

/-- One file of a new workspace. -/
def materializeFile (root workspace : FilePath) (maximumBytes : Nat) (recorded : Json) (tree : FileTree) (name : String) :
    Except Error FileTree := do
  let data ← readFile (entries tree) root name maximumBytes false
  match ((recorded.field? "files").bind (·.field? name)).bind (·.field? "sha256") with
  | none => throw .keyError
  | some digest =>
      throwIf (Json.eq (.str (tools.sha256 data)) digest = false) (.invalidSnapshot "parent changed after verification")
      let path := target workspace name
      let tree ← (tree.makeDirs path.tail).mapError .file
      let tree ← (tree.openNew path).mapError .file
      pure (tree.write data path)

/-- `materialize`. -/
def materialize (store : FilePath) (candidateId : String) (workspace : FilePath) (contract : ModelFiles)
    (maximumBytes : Nat) (tree : FileTree) : Except Error (Record × FileTree) := do
  let record ← verifySnapshot tools (entries tree) store candidateId contract maximumBytes
  let tree ← (makeNewDirs workspace tree).mapError .file
  let tree ← contract.paths.foldlM
    (materializeFile tools (target store candidateId) workspace maximumBytes record.manifest) tree
  pure (record, tree)

end Ramulator.ChiaLoop.Snapshots
