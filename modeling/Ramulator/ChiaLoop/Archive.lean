/-
# Ramulator.ChiaLoop.Archive — evidence bundles: sealing, verification, extraction.

`framework/archive.py`. A bundle is a ZIP file with the payloads and a manifest, which has the metadata and an
inventory of the payloads. `index` checks that the ZIP directory, the inventory and the limits agree, `verify`
also reads every payload and compares its identity with the inventory, `extract` verifies and then writes the
payloads and the manifest into a new directory, and `seal` writes, verifies and publishes a bundle.

What the module takes from the libraries of the language is in `Tools`: digests, the ZIP format, the inner
codecs, and the decoding of JSON bytes as text. A decoder takes its bytes from the front of what is stored;
nothing else is said of the codecs. Files are as `FileTree` has them, and their operations fail only by what
the tree holds. Neither the depth to which the interpreter can recurse is modelled nor a write that fails.
-/
import Ramulator.Lib.JsonLayout
import Ramulator.Lib.FileTree

namespace Ramulator.ChiaLoop.Archive

open Ramulator.Lib

abbrev Bytes := List UInt8

/-- How the functions of this module fail. -/
inductive Error where
  | invalidArchive (message : String)
  /-- What the ZIP reader and the codecs raise. -/
  | integrity (message : String)
  | keyError (name : String)
  | file (error : FileError)
  /-- `ValueError`, for a number that has no JSON text. -/
  | outOfRange
  deriving DecidableEq

/-! ## Names -/

/-- `MANIFEST_NAME`. -/
def manifestName : String := "manifest.json"

instance : DecidablePred FileTree.PlainPart := fun part =>
  inferInstanceAs (Decidable (part ≠ [] ∧ part ≠ ['.'] ∧ part ≠ ['.', '.']))

/-- What `safe_name` asks of the spelling of a name. -/
def SafeName (name : String) : Prop :=
  name ≠ "" ∧ '\x5c' ∉ name.toList ∧ ':' ∉ name.toList ∧ (∀ c ∈ name.toList, 32 ≤ c.toNat) ∧
    ∀ part ∈ FileTree.parts name.toList, FileTree.PlainPart part

instance : DecidablePred SafeName := fun name =>
  letI : Decidable (∀ c ∈ name.toList, 32 ≤ c.toNat) := List.decidableBAll _ _
  inferInstanceAs (Decidable (name ≠ "" ∧ '\x5c' ∉ name.toList ∧ ':' ∉ name.toList ∧
    (∀ c ∈ name.toList, 32 ≤ c.toNat) ∧ ∀ part ∈ FileTree.parts name.toList, FileTree.PlainPart part))

def safeName (name : String) : Except Error String :=
  if SafeName name then .ok name else .error (.invalidArchive ("unsafe archive member name: " ++ name))

/-- The parts of `PurePosixPath(name)`. -/
def pureParts (name : List Char) : List Part := (FileTree.parts name).filter fun part => part ≠ [] ∧ part ≠ ['.']

/-- The root of `PurePosixPath(name)`; two slashes are a root of their own. -/
def pureRoot : List Char → List Char
  | '/' :: '/' :: '/' :: _ => ['/']
  | '/' :: '/' :: _ => ['/', '/']
  | '/' :: _ => ['/']
  | _ => []

/-- `str` of a pure path. -/
def pureText (root : List Char) (ps : List Part) : String :=
  if root ++ ['/'].intercalate ps = [] then "." else String.ofList (root ++ ['/'].intercalate ps)

/-- `str(parent)` for each of `PurePosixPath(name).parents`. -/
def parents (name : String) : List String :=
  (List.range (pureParts name.toList).length).map fun k =>
    pureText (pureRoot name.toList) ((pureParts name.toList).take k)

/-! ## Members -/

/-- `ReadLimits`. -/
structure ReadLimits where
  maximumMembers : Nat := 100000
  maximumManifestBytes : Nat := 64 * 1024 * 1024
  maximumStoredBytes : Nat := 8 * 1024 ^ 4
  maximumLogicalBytes : Nat := 8 * 1024 ^ 4
  positive : 0 < maximumMembers ∧ 0 < maximumManifestBytes ∧ 0 < maximumStoredBytes ∧ 0 < maximumLogicalBytes := by
    decide

/-- The inner codecs. -/
inductive Codec where
  | none
  | gzip
  | xz
  deriving DecidableEq

def Codec.text : Codec → String
  | .none => "none"
  | .gzip => "gzip"
  | .xz => "xz"

/-- `[0-9a-f]{64}`. -/
def IsDigest (text : String) : Prop :=
  text.toList.length = 64 ∧ ∀ c ∈ text.toList, c.isDigit = true ∨ 'a' ≤ c ∧ c ≤ 'f'

instance : DecidablePred IsDigest := fun text =>
  letI : Decidable (∀ c ∈ text.toList, c.isDigit = true ∨ 'a' ≤ c ∧ c ≤ 'f') := List.decidableBAll _ _
  inferInstanceAs (Decidable (text.toList.length = 64 ∧ ∀ c ∈ text.toList, c.isDigit = true ∨ 'a' ≤ c ∧ c ≤ 'f'))

/-- The fields of a member. Counts, codec and permission have the types that `__post_init__` asks for. -/
structure Fields where
  name : String
  storedSha256 : String
  storedBytes : Nat
  logicalSha256 : String
  logicalBytes : Nat
  codec : Codec
  executable : Bool
  deriving DecidableEq

/-- `Member.__post_init__`. -/
def Fields.postInit (f : Fields) : Except Error Unit := do
  let _ ← safeName f.name
  throwIf (f.name = manifestName) (.invalidArchive "the manifest cannot inventory itself")
  throwIf (¬IsDigest f.storedSha256 ∨ ¬IsDigest f.logicalSha256) (.invalidArchive "invalid member SHA-256")
  throwIf (f.codec = .none ∧ (f.storedSha256, f.storedBytes) ≠ (f.logicalSha256, f.logicalBytes))
    (.invalidArchive "uncompressed member has inconsistent logical identity")

/-- `Member`: fields that `__post_init__` accepts. -/
structure Member extends Fields where
  valid : toFields.postInit = .ok ()
  deriving DecidableEq

/-- `Member(...)`. -/
def Member.make (f : Fields) : Except Error Member :=
  match h : f.postInit with
  | .ok () => .ok ⟨f, h⟩
  | .error e => .error e

/-- `asdict`. -/
def Member.asdict (m : Member) : Json :=
  .obj [("name", .str m.name), ("stored_sha256", .str m.storedSha256), ("stored_bytes", .int m.storedBytes),
    ("logical_sha256", .str m.logicalSha256), ("logical_bytes", .int m.logicalBytes), ("codec", .str m.codec.text),
    ("executable", .bool m.executable)]

/-- `Member.__dataclass_fields__`. -/
def memberFields : List String :=
  ["name", "stored_sha256", "stored_bytes", "logical_sha256", "logical_bytes", "codec", "executable"]

/-- An object with just these fields. -/
def HasFields (fields : List String) : Json → Prop
  | .obj ms => (∀ name ∈ fields, name ∈ ms.map Prod.fst) ∧ ∀ name ∈ ms.map Prod.fst, name ∈ fields
  | _ => False

instance (fields : List String) : DecidablePred (HasFields fields)
  | .obj ms => inferInstanceAs
      (Decidable ((∀ name ∈ fields, name ∈ ms.map Prod.fst) ∧ ∀ name ∈ ms.map Prod.fst, name ∈ fields))
  | .null => .isFalse id
  | .bool _ => .isFalse id
  | .int _ => .isFalse id
  | .float _ => .isFalse id
  | .str _ => .isFalse id
  | .arr _ => .isFalse id

/-! ### The fields of an inventory item -/

def nameOf : Option Json → Except Error String
  | some (.str name) => safeName name
  | _ => .error (.invalidArchive "unsafe archive member name")

def digestOf : Option Json → Except Error String
  | some (.str text) => if IsDigest text then .ok text else .error (.invalidArchive "invalid member SHA-256")
  | _ => .error (.invalidArchive "invalid member SHA-256")

def countOf : Option Json → Except Error Nat
  | some (.int n) => if 0 ≤ n then .ok n.toNat else .error (.invalidArchive "invalid member byte count")
  | _ => .error (.invalidArchive "invalid member byte count")

def codecOf : Option Json → Except Error Codec
  | some (.str text) =>
      if text = "none" then .ok .none else if text = "gzip" then .ok .gzip else if text = "xz" then .ok .xz
      else .error (.invalidArchive "unsupported member encoding or permissions")
  | _ => .error (.invalidArchive "unsupported member encoding or permissions")

def permissionOf : Option Json → Except Error Bool
  | some (.bool b) => .ok b
  | _ => .error (.invalidArchive "unsupported member encoding or permissions")

/-- `Member(**item)`. -/
def Member.ofItem (item : Json) : Except Error Member := do
  let name ← nameOf (item.field? "name")
  throwIf (name = manifestName) (.invalidArchive "the manifest cannot inventory itself")
  let storedSha256 ← digestOf (item.field? "stored_sha256")
  let logicalSha256 ← digestOf (item.field? "logical_sha256")
  let storedBytes ← countOf (item.field? "stored_bytes")
  let logicalBytes ← countOf (item.field? "logical_bytes")
  let codec ← codecOf (item.field? "codec")
  let executable ← permissionOf (item.field? "executable")
  Member.make ⟨name, storedSha256, storedBytes, logicalSha256, logicalBytes, codec, executable⟩

/-! ## The libraries -/

/-- A member of a ZIP file. What reading it gives is never more than its size. -/
structure ZipInfo where
  filename : String
  /-- `stat.S_IFMT(external_attr >> 16)`. -/
  fileType : Nat
  /-- `flag_bits & 1`. -/
  encrypted : Bool
  compressType : Nat
  fileSize : Nat
  content : Except String Bytes
  content_le : ∀ bytes, content = .ok bytes → bytes.length ≤ fileSize

/-- `stat.S_IFREG`. -/
def regularType : Nat := 0o100000

/-- `zipfile.ZIP_STORED` and `zipfile.ZIP_DEFLATED`. -/
def zipStored : Nat := 0
def zipDeflated : Nat := 8

/-- `is_dir`. -/
def ZipInfo.isDir (info : ZipInfo) : Prop := info.filename.toList.getLast? = some '/'

instance (info : ZipInfo) : Decidable info.isDir :=
  inferInstanceAs (Decidable (info.filename.toList.getLast? = some '/'))

/-- One `read` of a codec's reader: the stored bytes that it takes, and what it gives. -/
structure Chunk where
  stored : Bytes
  data : Bytes

/-- The reads up to the end, or up to a fault. -/
structure Reading where
  chunks : List Chunk
  fault : Option String

structure Tools (Archive : Type) where
  sha256 : Bytes → String
  /-- `hashlib.file_digest` and the size of a file. -/
  fileDigest : Archive → String
  fileSize : Archive → Nat
  infolist : Archive → Except String (List ZipInfo)
  writeZip : List ZipInfo → Except String Archive
  expand : Codec → Bytes → Reading
  expand_front : ∀ codec content, (expand codec content).chunks.flatMap Chunk.stored <+: content
  /-- The text of JSON bytes. -/
  decode : Bytes → Option (List Char)
  zlibVersion : String

variable {Archive : Type} (tools : Tools Archive)

/-! ## Identities -/

/-- `CHUNK_BYTES`. -/
def chunkBytes : Nat := 1024 * 1024

/-- The reads of `n` bytes at most, up to the first that gives nothing or less. -/
def chunksOf (n : Nat) (content : Bytes) : List Bytes :=
  (List.range (content.length / n + 1)).map fun i => (content.drop (i * n)).take n

/-- What the reader of a codec gives. -/
def Tools.reads (codec : Codec) (content : Bytes) : Reading :=
  match codec with
  | .none => ⟨(chunksOf chunkBytes content).map fun data => ⟨data, data⟩, none⟩
  | codec => tools.expand codec content

/-- The bytes read so far, stored and logical, and another read. -/
def identityStep (maximumStored maximumLogical : Nat) (s : Bytes × Bytes) (chunk : Chunk) :
    Except Error (Bytes × Bytes) := do
  throwIf (maximumStored < (s.1 ++ chunk.stored).length)
    (.invalidArchive "stored payload exceeds the declared reading limit")
  throwIf (maximumLogical < (s.2 ++ chunk.data).length)
    (.invalidArchive "logical payload exceeds the declared reading limit")
  pure (s.1 ++ chunk.stored, s.2 ++ chunk.data)

def faultOf : Option String → Except Error Unit
  | some message => .error (.integrity message)
  | none => .ok ()

/-- `_identity`. -/
def identity (content : Except String Bytes) (name : String) (codec : Codec) (executable : Bool)
    (maximumStored maximumLogical : Nat) : Except Error Member := do
  let content ← content.mapError .integrity
  let s ← (tools.reads codec content).chunks.foldlM (identityStep maximumStored maximumLogical) ([], [])
  faultOf (tools.reads codec content).fault
  Member.make ⟨name, tools.sha256 s.1, s.1.length, tools.sha256 s.2, s.2.length, codec, executable⟩

/-! ## The index -/

/-- `getinfo`. -/
def getinfo (infos : List ZipInfo) (name : String) : Except Error ZipInfo :=
  match infos.find? fun info => info.filename = name with
  | some info => .ok info
  | none => .error (.keyError name)

def checkInfo (info : ZipInfo) : Except Error Unit := do
  throwIf (info.fileType ∉ [0, regularType] ∨ info.isDir) (.invalidArchive "only regular file members are permitted")
  throwIf (info.encrypted = true ∨ info.compressType ∉ [zipStored, zipDeflated])
    (.invalidArchive "encrypted or unsupported ZIP member")

/-- The first part of `_index`: the directory of the ZIP file. -/
def checkDirectory (limits : ReadLimits) (infos : List ZipInfo) : Except Error Unit := do
  throwIf (limits.maximumMembers + 1 < infos.length) (.invalidArchive "too many archive members")
  let names ← infos.mapM fun info => safeName info.filename
  throwIf (¬names.Nodup) (.invalidArchive "duplicate archive member names")
  throwIf (∃ name ∈ names, ∃ parent ∈ parents name, parent ≠ "." ∧ parent ∈ names)
    (.invalidArchive "archive member conflicts with a parent directory")
  forM infos checkInfo
  throwIf (manifestName ∉ names) (.invalidArchive "missing manifest")

def orMalformed {α : Type} : Option α → Except Error α
  | some a => .ok a
  | none => .error (.invalidArchive "malformed artifact manifest")

/-- The manifest as it is read. -/
def readManifest (limits : ReadLimits) (infos : List ZipInfo) : Except Error Json := do
  let info ← getinfo infos manifestName
  throwIf (limits.maximumManifestBytes < info.fileSize) (.invalidArchive "manifest exceeds its reading limit")
  let content ← info.content.mapError .integrity
  let raw := content.take (limits.maximumManifestBytes + 1)
  throwIf (limits.maximumManifestBytes < raw.length) (.invalidArchive "manifest exceeds its reading limit")
  let text ← orMalformed (tools.decode raw)
  orMalformed (Json.loadsStrict Json.uniqueHook text)

def manifestFields : List String := ["schema_version", "format", "metadata", "compression", "members"]

/-- `schema_version` is the integer 1, and the format is the one of this module. -/
def isSupported : Option Json → Option Json → Bool
  | some (.int version), some (.str format) => version == 1 && format == "chia-campaign-zip64"
  | _, _ => false

def itemsOf : Option Json → Option Json → Option Json → Except Error (List Json)
  | some (.obj _), some (.obj _), some (.arr items) => .ok items
  | _, _, _ => .error (.invalidArchive "invalid manifest metadata or inventory")

/-- The inventory of a manifest. -/
def inventory (limits : ReadLimits) (manifest : Json) : Except Error (List Member) := do
  throwIf (¬HasFields manifestFields manifest) (.invalidArchive "unexpected manifest fields")
  throwIf (isSupported (manifest.field? "schema_version") (manifest.field? "format") = false)
    (.invalidArchive "unsupported artifact manifest")
  let items ← itemsOf (manifest.field? "metadata") (manifest.field? "compression") (manifest.field? "members")
  throwIf (limits.maximumMembers < items.length) (.invalidArchive "too many inventory members")
  throwIf (∃ item ∈ items, ¬HasFields memberFields item) (.invalidArchive "unexpected payload inventory fields")
  items.mapM Member.ofItem

def checkMember (infos : List ZipInfo) (member : Member) : Except Error Unit := do
  let info ← getinfo infos member.name
  throwIf (info.fileSize ≠ member.storedBytes)
    (.invalidArchive ("ZIP and inventory size mismatch: " ++ member.name))
  throwIf (member.codec ≠ .none ∧ info.compressType ≠ zipStored)
    (.invalidArchive "inner compressed evidence must not be recompressed")

/-- The last part of `_index`: the inventory against the ZIP directory and the limits. -/
def checkInventory (limits : ReadLimits) (infos : List ZipInfo) (members : List Member) : Except Error Unit := do
  throwIf (¬(members.map fun m => m.name).Nodup) (.invalidArchive "duplicate inventory entries")
  throwIf (¬((∀ m ∈ members, m.name ∈ infos.map ZipInfo.filename ∧ m.name ≠ manifestName) ∧
      ∀ info ∈ infos, info.filename ≠ manifestName → info.filename ∈ members.map fun m => m.name))
    (.invalidArchive "unlisted or missing payload members")
  throwIf (limits.maximumStoredBytes < (members.map fun m => m.storedBytes).sum)
    (.invalidArchive "stored inventory exceeds its reading limit")
  throwIf (limits.maximumLogicalBytes < (members.map fun m => m.logicalBytes).sum)
    (.invalidArchive "logical inventory exceeds its reading limit")
  forM members (checkMember infos)

/-- `_index`. -/
def index (limits : ReadLimits) (infos : List ZipInfo) : Except Error (Json × List Member) := do
  checkDirectory limits infos
  let manifest ← readManifest tools limits infos
  let members ← inventory limits manifest
  checkInventory limits infos members
  pure (manifest, members)

/-! ## Verification -/

/-- What `verify` returns. -/
structure Checked where
  archiveSha256 : String
  manifest : Json

def verifyMember (infos : List ZipInfo) (expected : Member) : Except Error Unit := do
  let info ← getinfo infos expected.name
  let actual ← identity tools info.content expected.name expected.codec expected.executable expected.storedBytes
    expected.logicalBytes
  throwIf (actual ≠ expected) (.invalidArchive ("payload identity mismatch: " ++ expected.name))

def asInvalid : Error → Error
  | .integrity message => .invalidArchive ("compressed evidence failed integrity checks: " ++ message)
  | e => e

/-- What `verify` does within its `try`. -/
def verifyRaw (raw : Archive) (expectedSha256 : Option String) (limits : ReadLimits) : Except Error Checked := do
  throwIf (∃ digest ∈ expectedSha256, tools.fileDigest raw ≠ digest)
    (.invalidArchive "outer archive SHA-256 mismatch")
  let infos ← (tools.infolist raw).mapError .integrity
  let (manifest, members) ← index tools limits infos
  forM members (verifyMember tools infos)
  pure ⟨tools.fileDigest raw, manifest⟩

/-- `verify`. -/
def verify (raw : Archive) (expectedSha256 : Option String) (limits : ReadLimits) : Except Error Checked :=
  (verifyRaw tools raw expectedSha256 limits).mapError asInvalid

/-! ## Extraction -/

/-- `.encode()`. -/
def encodeText (text : List Char) : Bytes := text.flatMap String.utf8EncodeChar

/-- `_json_bytes`. -/
def jsonBytes (v : Json) : Except Error Bytes :=
  match v.dumpsIndented with
  | some text => .ok (encodeText (text ++ ['\n']))
  | none => .error .outOfRange

/-- `destination / name`. -/
def target (destination : FilePath) (name : String) : FilePath := FileTree.join destination name.toList

/-- One payload. -/
def extractMember (infos : List ZipInfo) (destination : FilePath) (tree : FileTree) (expected : Member) :
    Except Error FileTree := do
  let path := target destination expected.name
  let tree ← (tree.makeDirs path.tail).mapError .file
  let info ← getinfo infos expected.name
  let tree ← (tree.openNew path).mapError .file
  let content ← info.content.mapError .integrity
  throwIf (expected.storedBytes < content.length) (.invalidArchive "extracted payload exceeds inventory size")
  throwIf (content.length ≠ expected.storedBytes ∨ tools.sha256 content ≠ expected.storedSha256)
    (.invalidArchive ("extracted payload identity mismatch: " ++ expected.name))
  pure ((tree.write content path).chmod expected.executable path)

/-- `extract`, into a directory that it makes. -/
def extract (raw : Archive) (tree : FileTree) (destination : FilePath) (expectedSha256 : Option String)
    (limits : ReadLimits) : Except Error (Checked × FileTree) := do
  let checked ← verify tools raw expectedSha256 limits
  let tree ← (tree.makeDir destination).mapError .file
  let infos ← (tools.infolist raw).mapError .integrity
  let (manifest, members) ← index tools limits infos
  throwIf (tools.fileDigest raw ≠ checked.archiveSha256) (.invalidArchive "archive changed before extraction")
  let tree ← members.foldlM (extractMember tools infos destination) tree
  let tree ← (tree.openNew (target destination manifestName)).mapError .file
  let content ← jsonBytes manifest
  pure (checked, tree.write content (target destination manifestName))

/-! ## Sealing -/

/-- `Payload`. -/
structure Payload where
  source : String
  member : Member
  storeVerbatim : Bool := false

/-- A dictionary of JSON values. -/
structure Metadata where
  members : List (String × Json)
  distinct : Json.DistinctKeys (.obj members)

/-- The order of names. -/
def NameLe (m m' : Member) : Prop := Json.nameLe m.name.toList m'.name.toList = true

instance : DecidableRel NameLe := fun m m' =>
  inferInstanceAs (Decidable (Json.nameLe m.name.toList m'.name.toList = true))

/-- The members of payloads, in the order of their names. -/
def sortedMembers (payloads : List Payload) : List Member := (payloads.map Payload.member).insertionSort NameLe

def compression : Json :=
  .obj [("outer", .str "zip64"), ("text", .str "deflate"), ("deflate_level", .str "zlib_default"),
    ("inner_gzip", .str "stored"), ("inner_xz", .str "stored"), ("zlib_version", .str tools.zlibVersion)]

/-- The manifest of a bundle. -/
def sealManifest (metadata : Metadata) (members : List Member) : Json :=
  .obj [("schema_version", .int 1), ("format", .str "chia-campaign-zip64"), ("metadata", .obj metadata.members),
    ("compression", compression tools), ("members", .arr (members.map Member.asdict))]

def manifestInfo (content : Bytes) : ZipInfo where
  filename := manifestName
  fileType := regularType
  encrypted := false
  compressType := zipDeflated
  fileSize := content.length
  content := .ok content
  content_le _ h := by
    cases h
    exact Nat.le_refl _

/-- What is written for a payload. -/
def payloadInfo (payload : Payload) (content : Bytes) : ZipInfo where
  filename := payload.member.name
  fileType := regularType
  encrypted := false
  compressType := if payload.storeVerbatim = true ∨ payload.member.codec ≠ .none then zipStored else zipDeflated
  fileSize := content.length
  content := .ok content
  content_le _ h := by
    cases h
    exact Nat.le_refl _

/-- One payload, from the file that it has as its source. -/
def sealPayload (files : String → Except Error Bytes) (payload : Payload) : Except Error ZipInfo := do
  let content ← files payload.source
  throwIf (payload.member.storedBytes < content.length)
    (.invalidArchive ("payload grew after inventory: " ++ payload.member.name))
  throwIf (content.length ≠ payload.member.storedBytes ∨ tools.sha256 content ≠ payload.member.storedSha256)
    (.invalidArchive ("payload changed after inventory: " ++ payload.member.name))
  pure (payloadInfo payload content)

/-- What there can be under a name in the output directory. -/
inductive Entry (Archive : Type) where
  | regular (raw : Archive)
  | other

/-- The output directory. -/
abbrev Shelf (Archive : Type) := String → Option (Entry Archive)

/-- `SealReceipt`. -/
structure SealReceipt where
  path : String
  sha256 : String
  bytes : Nat
  deriving DecidableEq

def bundleName (digest : String) : String := "campaign-" ++ digest ++ ".zip"

/-- The link to a verified bundle. Where there is something under its name, that must be verified. -/
def publish (raw : Archive) (checked : Checked) (limits : ReadLimits) (shelf : Shelf Archive) :
    Except Error (SealReceipt × Shelf Archive) :=
  let path := bundleName checked.archiveSha256
  match shelf path with
  | none => .ok (⟨path, checked.archiveSha256, tools.fileSize raw⟩, Function.update shelf path (some (.regular raw)))
  | some (.regular old) => do
      let _ ← verify tools old (some checked.archiveSha256) limits
      pure (⟨path, checked.archiveSha256, tools.fileSize old⟩, shelf)
  | some .other => .error (.invalidArchive "payload is not a regular file")

/-- `seal`. -/
def sealBundle (files : String → Except Error Bytes) (payloads : List Payload) (metadata : Metadata)
    (limits : ReadLimits) (shelf : Shelf Archive) : Except Error (SealReceipt × Shelf Archive) := do
  let members := sortedMembers payloads
  throwIf (¬(members.map fun m => m.name).Nodup) (.invalidArchive "duplicate payload names")
  let encoded ← jsonBytes (sealManifest tools metadata members)
  throwIf (limits.maximumManifestBytes < encoded.length) (.invalidArchive "manifest exceeds its reading limit")
  throwIf (limits.maximumMembers < members.length ∨
      limits.maximumStoredBytes < (members.map fun m => m.storedBytes).sum ∨
      limits.maximumLogicalBytes < (members.map fun m => m.logicalBytes).sum)
    (.invalidArchive "payload inventory exceeds archive reading limits")
  let infos ← (payloads.insertionSort fun p q => NameLe p.member q.member).mapM (sealPayload tools files)
  let raw ← (tools.writeZip (manifestInfo encoded :: infos)).mapError .integrity
  let checked ← verify tools raw none limits
  publish tools raw checked limits shelf

end Ramulator.ChiaLoop.Archive
