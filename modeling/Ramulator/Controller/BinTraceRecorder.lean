/-
# Ramulator.Controller.BinTraceRecorder — a binary trace, and a reader of it.

`BinTraceRecorder` (`controller/plugin/impl/bin_trace_recorder.cpp`) writes a header and the tables of the DRAM
specification when it is set up, keeps the issued commands in one column per field, and at the end writes the
columns and puts the number of commands and the place of the columns into the header.

The comment of that file lays down where a reader finds what. `Trace.read` follows the comment: the header at its
offsets, the tables one after another, each value of a column at a place that is computed from the number of
commands and of levels. `read_finalize` says that it gets back what was recorded.
-/
import Ramulator.Lib.Bytes
import Mathlib.Data.List.GetD

namespace Ramulator.Controller

open Ramulator.Lib

/-! ## What is recorded -/

/-- `DRAMCommandMeta`. -/
structure DRAMCommandMeta where
  isOpening : Bool := false
  isClosing : Bool := false
  isAccessing : Bool := false
  isRefreshing : Bool := false
  isRowCommand : Bool := false
  isColumnCommand : Bool := false
  deriving DecidableEq, Repr

/-- The recorder, with its file open or closed. -/
structure BinTraceRecorder where
  path : String
  dramType : List UInt8 := []
  levelCount : Int := 0
  file : ByteFile := {}
  isOpen : Bool := false
  dataOffset : Nat := 0
  clkBuf : List Int := []
  arriveBuf : List Int := []
  cmdBuf : List Int := []
  typeBuf : List Int := []
  sourceBuf : List Int := []
  addrBufs : List (List Int) := []

namespace BinTraceRecorder

/-- The tables of a `DRAMSpec`. A string is its bytes. -/
structure SpecTables where
  levelNames : List (List UInt8)
  levelSizes : List Int
  commandNames : List (List UInt8)
  commandMeta : List DRAMCommandMeta
  commandCycles : List Int
  timingNames : List (List UInt8)
  timingVals : List Int
  deriving DecidableEq, Repr

/-- What the recorder reads of a `DRAMSpec`. `dq` is of its organization, as the level sizes are. -/
structure TraceSpec extends SpecTables where
  levelCount : Int
  commandCount : Int
  timingCount : Int
  channelWidth : Int
  internalPrefetchSize : Int
  dq : Int
  readLatency : Int

/-- What `on_issue` reads: the clock of the controller, and the request. -/
structure Issue where
  clk : Int
  arrive : Int
  command : Int
  typeId : Int
  sourceId : Int
  addrVec : List Int
  deriving DecidableEq, Repr

/-- A cast to an unsigned type of `w` bytes. -/
def toUnsigned (w : Nat) (x : Int) : Int := x % 256 ^ w

/-- A cast to a signed type of `w` bytes. -/
def toSigned (w : Nat) (x : Int) : Int := Int.bmod x (256 ^ w)

/-! ## The header -/

structure Header where
  magic : List UInt8 := [82, 65, 77, 50, 66, 73, 78, 0]
  version : List UInt8 := [1, 1]
  flags : Int := 0
  levelCount : Int
  commandCount : Int
  timingCount : Int
  channelWidth : Int
  prefetchSize : Int
  dq : Int
  channelId : Int
  readLatency : Int
  numEntries : Int := 0
  dataOffset : Int := 0
  dramType : List UInt8
  deriving DecidableEq, Repr

/-- The fields of a header in memory. -/
def Header.fields (h : Header) : List (List UInt8) :=
  [h.magic, h.version, intBytes 2 h.flags, intBytes 2 h.levelCount, intBytes 2 h.commandCount,
    intBytes 2 h.timingCount, intBytes 2 h.channelWidth, intBytes 2 h.prefetchSize, intBytes 2 h.dq,
    intBytes 4 h.channelId, intBytes 4 h.readLatency, intBytes 8 h.numEntries, intBytes 8 h.dataOffset, h.dramType]

/-- The header of a specification, before anything is recorded. -/
def headerOf (spec : TraceSpec) (channelId : Int) (dramType : List UInt8) : Header where
  levelCount := toUnsigned 2 spec.levelCount
  commandCount := toUnsigned 2 spec.commandCount
  timingCount := toUnsigned 2 spec.timingCount
  channelWidth := toUnsigned 2 spec.channelWidth
  prefetchSize := toUnsigned 2 spec.internalPrefetchSize
  dq := toUnsigned 2 spec.dq
  channelId := toUnsigned 4 channelId
  readLatency := toSigned 4 spec.readLatency
  -- the copy leaves room for a zero at the end
  dramType := dramType.take 15 ++ List.replicate (16 - (dramType.take 15).length) 0

/-! ## The writer -/

def writeHeader (spec : TraceSpec) (channelId : Int) (dramType : List UInt8) (f : ByteFile) : ByteFile :=
  f.write (headerOf spec channelId dramType).fields.flatten

def writeCstr (f : ByteFile) (s : List UInt8) : ByteFile := f.write (s ++ [0])

/-- The bit field of a command. -/
def metaBits (info : DRAMCommandMeta) : Nat :=
  (if info.isOpening then 1 else 0) ||| (if info.isClosing then 2 else 0) ||| (if info.isAccessing then 4 else 0) |||
    (if info.isRefreshing then 8 else 0) ||| (if info.isRowCommand then 16 else 0) |||
    (if info.isColumnCommand then 32 else 0)

def writeSpecSection (spec : SpecTables) (f : ByteFile) : ByteFile :=
  let f := spec.levelNames.foldl writeCstr f
  let f := spec.levelSizes.foldl (fun f sz => f.write (intBytes 4 (toUnsigned 4 sz))) f
  let f := spec.commandNames.foldl writeCstr f
  let f := spec.commandMeta.foldl (fun f info => f.write (intBytes 1 (metaBits info))) f
  let f := spec.commandCycles.foldl (fun f c => f.write (intBytes 1 (toUnsigned 1 c))) f
  let f := spec.timingNames.foldl writeCstr f
  spec.timingVals.foldl (fun f val => f.write (intBytes 4 (toSigned 4 val))) f

def padTo8 (f : ByteFile) : ByteFile :=
  let rem := f.pos % 8
  if rem ≠ 0 then f.write (List.replicate (8 - rem) 0) else f

/-- `setup`. Whether the file can be opened is for the file system to say. -/
def setup (r : BinTraceRecorder) (spec : TraceSpec) (channelId : Int) (opened : Bool) : Except String BinTraceRecorder :=
  if !opened then
    .error ("BinTraceRecorder: failed to open " ++ r.path ++ ".ch" ++ toString channelId ++ ".ram2bin")
  else
    let file := padTo8 (writeSpecSection spec.toSpecTables (writeHeader spec channelId r.dramType {}))
    .ok { r with
      levelCount := spec.levelCount, addrBufs := List.replicate spec.levelCount.toNat [], file := file,
      isOpen := true, dataOffset := file.pos }

/-- `on_issue`. -/
def onIssue (r : BinTraceRecorder) (e : Issue) : BinTraceRecorder :=
  { r with
    clkBuf := r.clkBuf ++ [e.clk]
    arriveBuf := r.arriveBuf ++ [e.arrive]
    cmdBuf := r.cmdBuf ++ [toUnsigned 1 e.command]
    typeBuf := r.typeBuf ++ [toSigned 1 e.typeId]
    sourceBuf := r.sourceBuf ++ [toSigned 2 e.sourceId]
    addrBufs := r.addrBufs.mapIdx fun k buf => buf ++ [toSigned 4 (e.addrVec.getD k 0)] }

def writeArray (w : Nat) (f : ByteFile) (v : List Int) : ByteFile :=
  if v ≠ [] then f.write (v.flatMap (intBytes w)) else f

def flushArrays (r : BinTraceRecorder) : ByteFile :=
  let f := writeArray 8 r.file r.clkBuf
  let f := writeArray 8 f r.arriveBuf
  let f := writeArray 1 f r.cmdBuf
  let f := writeArray 1 f r.typeBuf
  let f := writeArray 2 f r.sourceBuf
  r.addrBufs.foldl (writeArray 4) f

/-- `patch_header`. -/
def patchHeader (r : BinTraceRecorder) (f : ByteFile) : ByteFile :=
  ((f.seek 32).write (intBytes 8 r.clkBuf.length)).write (intBytes 8 r.dataOffset)

def finalize (r : BinTraceRecorder) : BinTraceRecorder :=
  if !r.isOpen then r
  else
    { r with
      file := patchHeader r (flushArrays r), isOpen := false, clkBuf := [], arriveBuf := [], cmdBuf := [],
      typeBuf := [], sourceBuf := [], addrBufs := [] }

/-! ## The reader -/

/-- The header at the offsets that are laid down for it. -/
def Header.read (bs : List UInt8) : Header where
  magic := slice bs 0 8
  version := slice bs 8 2
  flags := natOfBytes (slice bs 10 2)
  levelCount := natOfBytes (slice bs 12 2)
  commandCount := natOfBytes (slice bs 14 2)
  timingCount := natOfBytes (slice bs 16 2)
  channelWidth := natOfBytes (slice bs 18 2)
  prefetchSize := natOfBytes (slice bs 20 2)
  dq := natOfBytes (slice bs 22 2)
  channelId := natOfBytes (slice bs 24 4)
  readLatency := intOfBytes (slice bs 28 4)
  numEntries := natOfBytes (slice bs 32 8)
  dataOffset := natOfBytes (slice bs 40 8)
  dramType := slice bs 48 16

/-- A command from its bit field. -/
def metaOfBits (n : Nat) : DRAMCommandMeta where
  isOpening := n.testBit 0
  isClosing := n.testBit 1
  isAccessing := n.testBit 2
  isRefreshing := n.testBit 3
  isRowCommand := n.testBit 4
  isColumnCommand := n.testBit 5

/-- The tables, one after another, as long as the header says. -/
def SpecTables.read (levels commands timings : Nat) : ByteReader SpecTables := fun bs => do
  let levelNames ← ByteReader.cstring.many levels bs
  let levelSizes ← (ByteReader.unsigned 4).many levels levelNames.2
  let commandNames ← ByteReader.cstring.many commands levelSizes.2
  let commandMeta ← ((ByteReader.unsigned 1).map fun n => metaOfBits n.toNat).many commands commandNames.2
  let commandCycles ← (ByteReader.unsigned 1).many commands commandMeta.2
  let timingNames ← ByteReader.cstring.many timings commandCycles.2
  let timingVals ← (ByteReader.signed 4).many timings timingNames.2
  pure (⟨levelNames.1, levelSizes.1, commandNames.1, commandMeta.1, commandCycles.1, timingNames.1, timingVals.1⟩,
    timingVals.2)

/-- What a file holds, and where its tables end. -/
structure Trace where
  header : Header
  tables : SpecTables
  specEnd : Nat
  entries : List Issue
  deriving DecidableEq, Repr

/-- Command `i` of `n` in the columns that begin at `d`. -/
def readEntry (bs : List UInt8) (d n levels i : Nat) : Issue where
  clk := intOfBytes (slice bs (d + 8 * i) 8)
  arrive := intOfBytes (slice bs (d + 8 * n + 8 * i) 8)
  command := natOfBytes (slice bs (d + 16 * n + i) 1)
  typeId := intOfBytes (slice bs (d + 17 * n + i) 1)
  sourceId := intOfBytes (slice bs (d + 18 * n + 2 * i) 2)
  addrVec := (List.range levels).map fun k => intOfBytes (slice bs (d + (20 + 4 * k) * n + 4 * i) 4)

def Trace.read (bs : List UInt8) : Option Trace := do
  let header := Header.read bs
  let tables ← SpecTables.read header.levelCount.toNat header.commandCount.toNat header.timingCount.toNat (bs.drop 64)
  pure ⟨header, tables.1, bs.length - tables.2.length,
    (List.range header.numEntries.toNat).map
      (readEntry bs header.dataOffset.toNat header.numEntries.toNat header.levelCount.toNat)⟩

/-! ## What fits -/

/-- A value of an unsigned field of `w` bytes. -/
def FitsUnsigned (w : Nat) (x : Int) : Prop := 0 ≤ x ∧ x < 256 ^ w

/-- A value of a signed field of `w` bytes. -/
def FitsSigned (w : Nat) (x : Int) : Prop := -(256 ^ w : Nat) ≤ 2 * x ∧ 2 * x < (256 ^ w : Nat)

instance (w : Nat) (x : Int) : Decidable (FitsUnsigned w x) := inferInstanceAs (Decidable (_ ∧ _))

instance (w : Nat) (x : Int) : Decidable (FitsSigned w x) := inferInstanceAs (Decidable (_ ∧ _))

/-- The tables have values of their fields, and no name has a zero in it. -/
structure SpecTables.Fits (t : SpecTables) : Prop where
  levelNames : ∀ s ∈ t.levelNames, (0 : UInt8) ∉ s
  levelSizes : ∀ x ∈ t.levelSizes, FitsUnsigned 4 x
  commandNames : ∀ s ∈ t.commandNames, (0 : UInt8) ∉ s
  commandCycles : ∀ x ∈ t.commandCycles, FitsUnsigned 1 x
  timingNames : ∀ s ∈ t.timingNames, (0 : UInt8) ∉ s
  timingVals : ∀ x ∈ t.timingVals, FitsSigned 4 x

/-- The bytes of the tables. -/
def SpecTables.bytes (t : SpecTables) : List UInt8 :=
  t.levelNames.flatMap (· ++ [0]) ++ (t.levelSizes.flatMap (intBytes 4) ++ (t.commandNames.flatMap (· ++ [0]) ++
    (t.commandMeta.flatMap (fun info => intBytes 1 (metaBits info)) ++ (t.commandCycles.flatMap (intBytes 1) ++
      (t.timingNames.flatMap (· ++ [0]) ++ t.timingVals.flatMap (intBytes 4))))))

/-- The tables are as long as the counts say, and everything fits its field of the header. -/
structure TraceSpec.Fits (spec : TraceSpec) : Prop where
  tables : spec.toSpecTables.Fits
  levelNames_length : (spec.levelNames.length : Int) = spec.levelCount
  levelSizes_length : (spec.levelSizes.length : Int) = spec.levelCount
  commandNames_length : (spec.commandNames.length : Int) = spec.commandCount
  commandMeta_length : (spec.commandMeta.length : Int) = spec.commandCount
  commandCycles_length : (spec.commandCycles.length : Int) = spec.commandCount
  timingNames_length : (spec.timingNames.length : Int) = spec.timingCount
  timingVals_length : (spec.timingVals.length : Int) = spec.timingCount
  levelCount : FitsUnsigned 2 spec.levelCount
  commandCount : FitsUnsigned 2 spec.commandCount
  timingCount : FitsUnsigned 2 spec.timingCount
  channelWidth : FitsUnsigned 2 spec.channelWidth
  internalPrefetchSize : FitsUnsigned 2 spec.internalPrefetchSize
  dq : FitsUnsigned 2 spec.dq
  readLatency : FitsSigned 4 spec.readLatency
  section_length : 64 + spec.bytes.length + 8 ≤ 2 ^ 64

/-- The values of a command fit their columns. -/
structure Issue.Fits (levels : Nat) (e : Issue) : Prop where
  clk : FitsSigned 8 e.clk
  arrive : FitsSigned 8 e.arrive
  command : FitsUnsigned 1 e.command
  typeId : FitsSigned 1 e.typeId
  sourceId : FitsSigned 2 e.sourceId
  addrVec_length : levels ≤ e.addrVec.length
  addrVec : ∀ x ∈ e.addrVec.take levels, FitsSigned 4 x

theorem toUnsigned_eq {w : Nat} {x : Int} (h : FitsUnsigned w x) : toUnsigned w x = x := Int.emod_eq_of_lt h.1 h.2

theorem toSigned_eq {w : Nat} {x : Int} (h : FitsSigned w x) : toSigned w x = x :=
  Int.bmod_eq_of_le_mul_two (by have := h.1; omega) (by have := h.2; omega)

theorem natOfBytes_of_fits {w : Nat} {x : Int} (h : FitsUnsigned w x) : (natOfBytes (intBytes w x) : Int) = x :=
  natOfBytes_intBytes h.1 h.2

theorem intOfBytes_of_fits {w : Nat} {x : Int} (h : FitsSigned w x) : intOfBytes (intBytes w x) = x :=
  intOfBytes_intBytes h.1 h.2

/-- Casts that change nothing leave a table as it is. -/
theorem flatMap_cast {w : Nat} {cast : Int → Int} {xs : List Int} (h : ∀ x ∈ xs, cast x = x) :
    xs.flatMap (fun x => intBytes w (cast x)) = xs.flatMap (intBytes w) :=
  List.flatMap_congr fun x hx => by rw [h x hx]

/-! ## The header -/

/-- The parts of a header that are bytes have the length they should have. -/
structure Header.Formed (h : Header) : Prop where
  magic : h.magic.length = 8
  version : h.version.length = 2
  dramType : h.dramType.length = 16

theorem Header.lengths {h : Header} (hformed : h.Formed) :
    h.fields.map List.length = [8, 2, 2, 2, 2, 2, 2, 2, 2, 4, 4, 8, 8, 16] := by
  simp [Header.fields, hformed.magic, hformed.version, hformed.dramType]

theorem Header.length_fields {h : Header} (hformed : h.Formed) : h.fields.flatten.length = 64 := by
  rw [List.length_flatten, Header.lengths hformed]
  rfl

/-- A field lies behind those that come before it. -/
theorem slice_flatten {fs : List (List UInt8)} {back : List UInt8} {i offset n : Nat} (hi : i < fs.length)
    (hoffset : (fs.take i).flatten.length = offset) (hn : fs[i].length = n) :
    slice (fs.flatten ++ back) offset n = fs[i] := by
  have hsplit : fs.flatten = (fs.take i).flatten ++ fs[i] ++ (fs.drop (i + 1)).flatten := by
    conv_lhs => rw [← List.take_append_drop i fs, List.drop_eq_getElem_cons hi]
    rw [List.flatten_append, List.flatten_cons, List.append_assoc]
  rw [hsplit, List.append_assoc]
  exact slice_append hoffset.symm hn.symm

/-- The numbers of a header fit their fields. -/
structure Header.Fits (h : Header) : Prop where
  flags : FitsUnsigned 2 h.flags
  levelCount : FitsUnsigned 2 h.levelCount
  commandCount : FitsUnsigned 2 h.commandCount
  timingCount : FitsUnsigned 2 h.timingCount
  channelWidth : FitsUnsigned 2 h.channelWidth
  prefetchSize : FitsUnsigned 2 h.prefetchSize
  dq : FitsUnsigned 2 h.dq
  channelId : FitsUnsigned 4 h.channelId
  readLatency : FitsSigned 4 h.readLatency
  numEntries : FitsUnsigned 8 h.numEntries
  dataOffset : FitsUnsigned 8 h.dataOffset

/-- The header at its offsets. -/
theorem Header.read_fields {h : Header} (hformed : h.Formed) (hfits : h.Fits) (back : List UInt8) :
    Header.read (h.fields.flatten ++ back) = h := by
  have hfield : ∀ (i offset n : Nat) (hi : i < 14),
      (([8, 2, 2, 2, 2, 2, 2, 2, 2, 4, 4, 8, 8, 16] : List Nat).take i).sum = offset →
      ([8, 2, 2, 2, 2, 2, 2, 2, 2, 4, 4, 8, 8, 16] : List Nat)[i] = n →
      slice (h.fields.flatten ++ back) offset n = h.fields[i] := by
    intro i offset n hi hoffset hn
    refine slice_flatten hi ?_ ?_
    · rw [List.length_flatten, List.map_take, Header.lengths hformed]
      exact hoffset
    · rw [← hn]
      simp only [← Header.lengths hformed, List.getElem_map]
      rfl
  unfold Header.read
  rw [hfield 0 0 8 (by decide) rfl rfl, hfield 1 8 2 (by decide) rfl rfl, hfield 2 10 2 (by decide) rfl rfl,
    hfield 3 12 2 (by decide) rfl rfl, hfield 4 14 2 (by decide) rfl rfl, hfield 5 16 2 (by decide) rfl rfl,
    hfield 6 18 2 (by decide) rfl rfl, hfield 7 20 2 (by decide) rfl rfl, hfield 8 22 2 (by decide) rfl rfl,
    hfield 9 24 4 (by decide) rfl rfl, hfield 10 28 4 (by decide) rfl rfl, hfield 11 32 8 (by decide) rfl rfl,
    hfield 12 40 8 (by decide) rfl rfl, hfield 13 48 16 (by decide) rfl rfl]
  show Header.mk h.magic h.version (natOfBytes (intBytes 2 h.flags)) (natOfBytes (intBytes 2 h.levelCount))
    (natOfBytes (intBytes 2 h.commandCount)) (natOfBytes (intBytes 2 h.timingCount))
    (natOfBytes (intBytes 2 h.channelWidth)) (natOfBytes (intBytes 2 h.prefetchSize)) (natOfBytes (intBytes 2 h.dq))
    (natOfBytes (intBytes 4 h.channelId)) (intOfBytes (intBytes 4 h.readLatency))
    (natOfBytes (intBytes 8 h.numEntries)) (natOfBytes (intBytes 8 h.dataOffset)) h.dramType = h
  rw [natOfBytes_of_fits hfits.flags, natOfBytes_of_fits hfits.levelCount, natOfBytes_of_fits hfits.commandCount,
    natOfBytes_of_fits hfits.timingCount, natOfBytes_of_fits hfits.channelWidth, natOfBytes_of_fits hfits.prefetchSize,
    natOfBytes_of_fits hfits.dq, natOfBytes_of_fits hfits.channelId, intOfBytes_of_fits hfits.readLatency,
    natOfBytes_of_fits hfits.numEntries, natOfBytes_of_fits hfits.dataOffset]

/-- The number of commands and the place of the columns, put into a header that has been written. -/
theorem Header.patched {h : Header} (hformed : h.Formed) (n d : Int) (body : List UInt8) (f : ByteFile)
    (hf : f.bytes = h.fields.flatten ++ body) :
    (((f.seek 32).write (intBytes 8 n)).write (intBytes 8 d)).bytes =
      { h with numEntries := n, dataOffset := d }.fields.flatten ++ body := by
  have hfront : (h.fields.take 11).flatten.length = 32 := by
    rw [List.length_flatten, List.map_take, Header.lengths hformed]
    rfl
  have hbytes : (f.seek 32).bytes = (h.fields.take 11).flatten ++ intBytes 8 h.numEntries ++
      (intBytes 8 h.dataOffset ++ h.dramType ++ body) := by
    show f.bytes = _
    rw [hf]
    simp [Header.fields]
  rw [ByteFile.write_mid _ _ _ hbytes hfront.symm (by rw [length_intBytes, length_intBytes]),
    ByteFile.write_mid ((h.fields.take 11).flatten ++ intBytes 8 n) (intBytes 8 h.dataOffset) (h.dramType ++ body)
      (by simp) (by simp) (by rw [length_intBytes, length_intBytes])]
  simp [Header.fields]

/-! ## The tables -/

theorem metaOfBits_metaBits (info : DRAMCommandMeta) : metaOfBits (metaBits info) = info := by
  have hall : ∀ a b c d e f : Bool, metaOfBits (metaBits ⟨a, b, c, d, e, f⟩) = ⟨a, b, c, d, e, f⟩ := by decide
  exact hall _ _ _ _ _ _

theorem metaBits_lt (info : DRAMCommandMeta) : metaBits info < 256 := by
  have hall : ∀ a b c d e f : Bool, metaBits ⟨a, b, c, d, e, f⟩ < 256 := by decide
  exact hall _ _ _ _ _ _

theorem metaBits_reads (info : DRAMCommandMeta) :
    ((ByteReader.unsigned 1).map fun n => metaOfBits n.toNat).Reads (intBytes 1 (metaBits info)) info := by
  have hread := (ByteReader.unsigned_reads (w := 1) (Int.natCast_nonneg (metaBits info))
    (by exact_mod_cast metaBits_lt info)).map fun n => metaOfBits n.toNat
  rw [Int.toNat_natCast, metaOfBits_metaBits] at hread
  exact hread

/-- The tables are read back, whatever follows. -/
theorem SpecTables.Fits.reads {t : SpecTables} (h : t.Fits) {levels commands timings : Nat}
    (hlevels : t.levelNames.length = levels) (hsizes : t.levelSizes.length = levels)
    (hcommands : t.commandNames.length = commands) (hmeta : t.commandMeta.length = commands)
    (hcycles : t.commandCycles.length = commands) (htimings : t.timingNames.length = timings)
    (hvals : t.timingVals.length = timings) : (SpecTables.read levels commands timings).Reads t.bytes t := fun rest => by
  have hnames := ByteReader.Reads.many (· ++ [0]) t.levelNames fun s hs => ByteReader.cstring_reads (h.levelNames s hs)
  have hlevelSizes := ByteReader.Reads.many (intBytes 4) t.levelSizes fun x hx =>
    ByteReader.unsigned_reads (h.levelSizes x hx).1 (h.levelSizes x hx).2
  have hcommandNames := ByteReader.Reads.many (· ++ [0]) t.commandNames fun s hs =>
    ByteReader.cstring_reads (h.commandNames s hs)
  have hcommandMeta := ByteReader.Reads.many _ t.commandMeta fun info _ => metaBits_reads info
  have hcommandCycles := ByteReader.Reads.many (intBytes 1) t.commandCycles fun x hx =>
    ByteReader.unsigned_reads (h.commandCycles x hx).1 (h.commandCycles x hx).2
  have htimingNames := ByteReader.Reads.many (· ++ [0]) t.timingNames fun s hs =>
    ByteReader.cstring_reads (h.timingNames s hs)
  have htimingVals := ByteReader.Reads.many (intBytes 4) t.timingVals fun x hx =>
    ByteReader.signed_reads (h.timingVals x hx).1 (h.timingVals x hx).2
  rw [hlevels] at hnames
  rw [hsizes] at hlevelSizes
  rw [hcommands] at hcommandNames
  rw [hmeta] at hcommandMeta
  rw [hcycles] at hcommandCycles
  rw [htimings] at htimingNames
  rw [hvals] at htimingVals
  unfold SpecTables.read SpecTables.bytes
  simp only [List.append_assoc, hnames _, hlevelSizes _, hcommandNames _, hcommandMeta _, hcommandCycles _,
    htimingNames _, htimingVals _, Option.bind_eq_bind, Option.bind_some, Option.pure_def]

theorem writeSpecSection_ofBytes {t : SpecTables} (h : t.Fits) (bs : List UInt8) :
    writeSpecSection t (.ofBytes bs) = .ofBytes (bs ++ t.bytes) := by
  have hcstr : writeCstr = fun f s => f.write (s ++ [0]) := rfl
  unfold writeSpecSection SpecTables.bytes
  simp only [hcstr, ByteFile.foldl_write_ofBytes]
  rw [flatMap_cast fun x hx => toUnsigned_eq (h.levelSizes x hx),
    flatMap_cast fun x hx => toUnsigned_eq (h.commandCycles x hx),
    flatMap_cast fun x hx => toSigned_eq (h.timingVals x hx)]
  simp only [List.append_assoc]

/-- How many bytes are missing to a multiple of eight. -/
def padding (n : Nat) : Nat := (8 - n % 8) % 8

theorem padTo8_ofBytes (bs : List UInt8) :
    padTo8 (.ofBytes bs) = .ofBytes (bs ++ List.replicate (padding bs.length) 0) := by
  unfold padTo8
  show (if bs.length % 8 ≠ 0 then _ else _) = _
  split_ifs with h
  · rw [ByteFile.write_ofBytes]
    congr 4
    unfold padding
    show 8 - bs.length % 8 = _
    omega
  · have hzero : padding bs.length = 0 := by
      unfold padding
      omega
    rw [hzero, List.replicate_zero, List.append_nil]

/-! ## The columns -/

/-- A command with the coordinates of as many levels as there are. -/
def Issue.truncate (levels : Nat) (e : Issue) : Issue :=
  { e with addrVec := (List.range levels).map fun k => e.addrVec.getD k 0 }

/-- The columns of the levels. -/
def addrColumns (levels : Nat) (issues : List Issue) : List (List Int) :=
  (List.range levels).map fun k => issues.map fun e => toSigned 4 (e.addrVec.getD k 0)

theorem foldl_onIssue (issues : List Issue) (r : BinTraceRecorder) :
    issues.foldl onIssue r =
      { r with
        clkBuf := r.clkBuf ++ issues.map Issue.clk
        arriveBuf := r.arriveBuf ++ issues.map Issue.arrive
        cmdBuf := r.cmdBuf ++ issues.map fun e => toUnsigned 1 e.command
        typeBuf := r.typeBuf ++ issues.map fun e => toSigned 1 e.typeId
        sourceBuf := r.sourceBuf ++ issues.map fun e => toSigned 2 e.sourceId
        addrBufs := r.addrBufs.mapIdx fun k buf => buf ++ issues.map fun e => toSigned 4 (e.addrVec.getD k 0) } := by
  induction issues generalizing r with
  | nil =>
      have hsame : (r.addrBufs.mapIdx fun _ buf => buf) = r.addrBufs := List.ext_getElem (by simp) (by simp)
      simp [hsame]
  | cons e issues ih =>
      rw [List.foldl_cons, ih]
      simp [onIssue, List.mapIdx_mapIdx, Function.comp_def]

theorem mapIdx_replicate_nil (levels : Nat) (issues : List Issue) :
    ((List.replicate levels []).mapIdx fun k buf => buf ++ issues.map fun e => toSigned 4 (e.addrVec.getD k 0)) =
      addrColumns levels issues := by
  refine List.ext_getElem (by simp [addrColumns]) fun k hk hk' => ?_
  simp [addrColumns]

/-- The bytes of the columns. -/
def columnBytes (levels : Nat) (issues : List Issue) : List UInt8 :=
  (issues.map Issue.clk).flatMap (intBytes 8) ++ (issues.map Issue.arrive).flatMap (intBytes 8) ++
    (issues.map fun e => toUnsigned 1 e.command).flatMap (intBytes 1) ++
    (issues.map fun e => toSigned 1 e.typeId).flatMap (intBytes 1) ++
    (issues.map fun e => toSigned 2 e.sourceId).flatMap (intBytes 2) ++
    (addrColumns levels issues).flatMap fun column => column.flatMap (intBytes 4)

theorem writeArray_ofBytes (w : Nat) (bs : List UInt8) (v : List Int) :
    writeArray w (.ofBytes bs) v = .ofBytes (bs ++ v.flatMap (intBytes w)) := by
  unfold writeArray
  split_ifs with h
  · exact ByteFile.write_ofBytes _ _
  · rw [not_not.mp h, List.flatMap_nil, List.append_nil]

theorem foldl_writeArray_ofBytes (columns : List (List Int)) (bs : List UInt8) :
    columns.foldl (writeArray 4) (.ofBytes bs) =
      .ofBytes (bs ++ columns.flatMap fun column => column.flatMap (intBytes 4)) := by
  induction columns generalizing bs with
  | nil => rw [List.foldl_nil, List.flatMap_nil, List.append_nil]
  | cons column columns ih =>
      rw [List.foldl_cons, writeArray_ofBytes, ih, List.flatMap_cons, List.append_assoc]

theorem length_column (w : Nat) (v : List Int) : (v.flatMap (intBytes w)).length = w * v.length :=
  length_flatMap_const fun x _ => length_intBytes w x

theorem length_addrColumn {levels : Nat} {issues : List Issue} {column : List Int}
    (h : column ∈ addrColumns levels issues) : column.length = issues.length := by
  obtain ⟨k, -, rfl⟩ := List.mem_map.mp h
  exact List.length_map _

theorem length_addrColumns (levels : Nat) (issues : List Issue) :
    ((addrColumns levels issues).flatMap fun column => column.flatMap (intBytes 4)).length =
      4 * issues.length * levels := by
  rw [length_flatMap_const (w := 4 * issues.length) fun column hcolumn => by
    rw [length_column, length_addrColumn hcolumn]]
  congr 1
  exact (List.length_map _).trans List.length_range

theorem length_columnBytes (levels : Nat) (issues : List Issue) :
    (columnBytes levels issues).length = issues.length * (20 + 4 * levels) := by
  unfold columnBytes
  simp only [List.length_append, length_column, List.length_map, length_addrColumns]
  ring

/-- A value of a column that `f` makes of the commands, behind other columns. -/
theorem slice_column {w : Nat} (f : Issue → Int) {issues : List Issue} {i : Nat} (hi : i < issues.length)
    {bs : List UInt8} (front back : List UInt8) (hbs : bs = front ++ ((issues.map f).flatMap (intBytes w) ++ back))
    {offset : Nat} (hoffset : offset = front.length + w * i) : slice bs offset w = intBytes w (f issues[i]) := by
  have hlt : i < (issues.map f).length := by
    rw [List.length_map]
    exact hi
  rw [hbs, ← List.append_assoc, slice_flatMap (fun x _ => length_intBytes w x) hlt hoffset, List.getElem_map]

/-- A value of a column of addresses. -/
theorem slice_addrColumn {levels : Nat} {issues : List Issue} {i k : Nat} (hi : i < issues.length) (hk : k < levels)
    {bs : List UInt8} (front : List UInt8)
    (hbs : bs = front ++ (addrColumns levels issues).flatMap fun column => column.flatMap (intBytes 4))
    {offset : Nat} (hoffset : offset = front.length + 4 * issues.length * k + 4 * i) :
    slice bs offset 4 = intBytes 4 (toSigned 4 (issues[i].addrVec.getD k 0)) := by
  have hcount : k < (addrColumns levels issues).length := by
    unfold addrColumns
    rw [List.length_map, List.length_range]
    exact hk
  have hwidth : ∀ column ∈ addrColumns levels issues, (column.flatMap (intBytes 4)).length = 4 * issues.length :=
    fun column hcolumn => by rw [length_column, length_addrColumn hcolumn]
  have hcolumn : (addrColumns levels issues)[k] = issues.map fun e => toSigned 4 (e.addrVec.getD k 0) := by
    simp [addrColumns]
  have hwhole : slice bs (front.length + 4 * issues.length * k) (4 * issues.length) =
      (issues.map fun e => toSigned 4 (e.addrVec.getD k 0)).flatMap (intBytes 4) := by
    rw [hbs, ← List.append_nil (front ++ _), slice_flatMap hwidth hcount rfl, hcolumn]
  -- the value is at place `i` of the column of level `k`
  rw [hoffset, ← slice_slice bs (show 4 * i + 4 ≤ 4 * issues.length by omega), hwhole]
  exact slice_column _ hi [] [] (by rw [List.nil_append, List.append_nil]) (by rw [List.length_nil, Nat.zero_add])

/-- The columns give a command back. -/
theorem readEntry_columns {levels : Nat} {issues : List Issue} (hfits : ∀ e ∈ issues, e.Fits levels) {i : Nat}
    (hi : i < issues.length) {front : List UInt8} {d : Nat} (hd : front.length = d) :
    readEntry (front ++ columnBytes levels issues) d issues.length levels i = issues[i].truncate levels := by
  have hfit := hfits _ (List.getElem_mem hi)
  have hclk : slice (front ++ columnBytes levels issues) (d + 8 * i) 8 = intBytes 8 issues[i].clk :=
    slice_column Issue.clk hi front _ (by simp only [columnBytes, List.append_assoc]; rfl) (by rw [hd])
  have harrive : slice (front ++ columnBytes levels issues) (d + 8 * issues.length + 8 * i) 8 =
      intBytes 8 issues[i].arrive :=
    slice_column Issue.arrive hi (front ++ (issues.map Issue.clk).flatMap (intBytes 8)) _
      (by simp only [columnBytes, List.append_assoc]; rfl)
      (by rw [List.length_append, length_column, List.length_map, hd])
  have hcommand : slice (front ++ columnBytes levels issues) (d + 16 * issues.length + i) 1 =
      intBytes 1 (toUnsigned 1 issues[i].command) :=
    slice_column (fun e => toUnsigned 1 e.command) hi (front ++ ((issues.map Issue.clk).flatMap (intBytes 8) ++
      (issues.map Issue.arrive).flatMap (intBytes 8))) _ (by simp only [columnBytes, List.append_assoc]; rfl)
      (by simp only [List.length_append, length_column, List.length_map, hd]; ring)
  have htype : slice (front ++ columnBytes levels issues) (d + 17 * issues.length + i) 1 =
      intBytes 1 (toSigned 1 issues[i].typeId) :=
    slice_column (fun e => toSigned 1 e.typeId) hi (front ++ ((issues.map Issue.clk).flatMap (intBytes 8) ++
      ((issues.map Issue.arrive).flatMap (intBytes 8) ++
        (issues.map fun e => toUnsigned 1 e.command).flatMap (intBytes 1)))) _
      (by simp only [columnBytes, List.append_assoc]; rfl)
      (by simp only [List.length_append, length_column, List.length_map, hd]; ring)
  have hsource : slice (front ++ columnBytes levels issues) (d + 18 * issues.length + 2 * i) 2 =
      intBytes 2 (toSigned 2 issues[i].sourceId) :=
    slice_column (fun e => toSigned 2 e.sourceId) hi (front ++ ((issues.map Issue.clk).flatMap (intBytes 8) ++
      ((issues.map Issue.arrive).flatMap (intBytes 8) ++
        ((issues.map fun e => toUnsigned 1 e.command).flatMap (intBytes 1) ++
          (issues.map fun e => toSigned 1 e.typeId).flatMap (intBytes 1))))) _
      (by simp only [columnBytes, List.append_assoc]; rfl)
      (by simp only [List.length_append, length_column, List.length_map, hd]; ring)
  have haddr : ∀ k < levels, slice (front ++ columnBytes levels issues)
      (d + (20 + 4 * k) * issues.length + 4 * i) 4 = intBytes 4 (toSigned 4 (issues[i].addrVec.getD k 0)) := fun k hk =>
    slice_addrColumn hi hk (front ++ ((issues.map Issue.clk).flatMap (intBytes 8) ++
      ((issues.map Issue.arrive).flatMap (intBytes 8) ++
        ((issues.map fun e => toUnsigned 1 e.command).flatMap (intBytes 1) ++
          ((issues.map fun e => toSigned 1 e.typeId).flatMap (intBytes 1) ++
            (issues.map fun e => toSigned 2 e.sourceId).flatMap (intBytes 2))))))
      (by simp only [columnBytes, List.append_assoc])
      (by simp only [List.length_append, length_column, List.length_map, hd]; ring)
  unfold readEntry Issue.truncate
  rw [hclk, harrive, hcommand, htype, hsource, intOfBytes_of_fits hfit.clk, intOfBytes_of_fits hfit.arrive,
    toUnsigned_eq hfit.command, natOfBytes_of_fits hfit.command, toSigned_eq hfit.typeId,
    intOfBytes_of_fits hfit.typeId, toSigned_eq hfit.sourceId, intOfBytes_of_fits hfit.sourceId]
  refine congrArg (Issue.mk _ _ _ _ _) (List.map_congr_left fun k hk => ?_)
  have hk := List.mem_range.mp hk
  have hlt : k < issues[i].addrVec.length := hk.trans_le hfit.addrVec_length
  have hvalue : FitsSigned 4 (issues[i].addrVec.getD k 0) := by
    rw [List.getD_eq_getElem _ _ hlt]
    refine hfit.addrVec _ (List.mem_take_iff_getElem.mpr ⟨k, ?_, rfl⟩)
    omega
  rw [haddr k hk, toSigned_eq hvalue, intOfBytes_of_fits hvalue]

/-! ## What is recorded is read back -/

/-- A recorder after `init`. -/
def init (path : String) (dramType : List UInt8) : BinTraceRecorder := { path := path, dramType := dramType }

/-- The header of a file of `n` commands whose columns are at `d`. -/
def TraceSpec.header (spec : TraceSpec) (channelId : Int) (dramType : List UInt8) (n d : Nat) : Header where
  levelCount := spec.levelCount
  commandCount := spec.commandCount
  timingCount := spec.timingCount
  channelWidth := spec.channelWidth
  prefetchSize := spec.internalPrefetchSize
  dq := spec.dq
  channelId := channelId
  readLatency := spec.readLatency
  numEntries := n
  dataOffset := d
  dramType := dramType ++ List.replicate (16 - dramType.length) 0

section

variable {spec : TraceSpec} {channelId : Int} {dramType : List UInt8}

theorem TraceSpec.Fits.headerOf_eq (hspec : spec.Fits) (hchannel : FitsUnsigned 4 channelId)
    (hdram : dramType.length ≤ 15) : headerOf spec channelId dramType = spec.header channelId dramType 0 0 := by
  unfold headerOf TraceSpec.header
  rw [List.take_of_length_le hdram, toUnsigned_eq hspec.levelCount, toUnsigned_eq hspec.commandCount,
    toUnsigned_eq hspec.timingCount, toUnsigned_eq hspec.channelWidth, toUnsigned_eq hspec.internalPrefetchSize,
    toUnsigned_eq hspec.dq, toUnsigned_eq hchannel, toSigned_eq hspec.readLatency]
  rfl

theorem TraceSpec.header_formed (spec : TraceSpec) (channelId : Int) (hdram : dramType.length ≤ 15) (n d : Nat) :
    (spec.header channelId dramType n d).Formed where
  magic := rfl
  version := rfl
  dramType := by
    show (dramType ++ List.replicate (16 - dramType.length) 0).length = 16
    rw [List.length_append, List.length_replicate]
    omega

theorem TraceSpec.Fits.header_fits (hspec : spec.Fits) (hchannel : FitsUnsigned 4 channelId) {n d : Nat}
    (hn : n < 2 ^ 64) (hd : d < 2 ^ 64) : (spec.header channelId dramType n d).Fits where
  flags := ⟨le_rfl, show (0 : Int) < 256 ^ 2 by decide⟩
  levelCount := hspec.levelCount
  commandCount := hspec.commandCount
  timingCount := hspec.timingCount
  channelWidth := hspec.channelWidth
  prefetchSize := hspec.internalPrefetchSize
  dq := hspec.dq
  channelId := hchannel
  readLatency := hspec.readLatency
  numEntries := ⟨Int.natCast_nonneg n, show (n : Int) < 256 ^ 8 by omega⟩
  dataOffset := ⟨Int.natCast_nonneg d, show (d : Int) < 256 ^ 8 by omega⟩

/-- Where the tables end. -/
def TraceSpec.specEnd (spec : TraceSpec) : Nat := 64 + spec.bytes.length

/-- Where the columns begin. -/
def TraceSpec.dataOffset (spec : TraceSpec) : Nat := spec.specEnd + padding spec.specEnd

theorem TraceSpec.dataOffset_spec (spec : TraceSpec) :
    8 ∣ spec.dataOffset ∧ spec.specEnd ≤ spec.dataOffset ∧ spec.dataOffset < spec.specEnd + 8 := by
  unfold TraceSpec.dataOffset padding
  omega

/-- What lies between the header and the columns. -/
def TraceSpec.tableBytes (spec : TraceSpec) : List UInt8 := spec.bytes ++ List.replicate (padding spec.specEnd) 0

theorem TraceSpec.length_tables (spec : TraceSpec) (channelId : Int) (hdram : dramType.length ≤ 15) (n d : Nat) :
    ((spec.header channelId dramType n d).fields.flatten ++ spec.tableBytes).length = spec.dataOffset := by
  rw [List.length_append, Header.length_fields (spec.header_formed channelId hdram n d)]
  unfold TraceSpec.tableBytes TraceSpec.dataOffset TraceSpec.specEnd
  rw [List.length_append, List.length_replicate]
  omega

/-- The recorder once it is set up. -/
theorem setup_eq (hspec : spec.Fits) (hchannel : FitsUnsigned 4 channelId) (hdram : dramType.length ≤ 15)
    (path : String) :
    setup (init path dramType) spec channelId true = .ok
      { init path dramType with
        levelCount := spec.levelCount, addrBufs := List.replicate spec.levelCount.toNat [],
        file := .ofBytes ((spec.header channelId dramType 0 0).fields.flatten ++ spec.tableBytes),
        isOpen := true, dataOffset := spec.dataOffset } := by
  have hhead := Header.length_fields (spec.header_formed channelId hdram 0 0)
  have hfile : padTo8 (writeSpecSection spec.toSpecTables (writeHeader spec channelId dramType {})) =
      .ofBytes ((spec.header channelId dramType 0 0).fields.flatten ++ spec.tableBytes) := by
    have hstart : writeHeader spec channelId dramType {} =
        .ofBytes (spec.header channelId dramType 0 0).fields.flatten := by
      unfold writeHeader
      rw [hspec.headerOf_eq hchannel hdram]
      exact ByteFile.write_ofBytes [] _
    have hend : ((spec.header channelId dramType 0 0).fields.flatten ++ spec.bytes).length = spec.specEnd := by
      rw [List.length_append, hhead]
      rfl
    rw [hstart, writeSpecSection_ofBytes hspec.tables, padTo8_ofBytes, hend, List.append_assoc]
    rfl
  have hoffset := spec.length_tables channelId hdram 0 0
  show Except.ok _ = Except.ok _
  congr 1
  rw [BinTraceRecorder.mk.injEq]
  refine ⟨rfl, rfl, rfl, hfile, rfl, ?_, rfl, rfl, rfl, rfl, rfl, rfl⟩
  show (padTo8 (writeSpecSection spec.toSpecTables (writeHeader spec channelId dramType {}))).pos = _
  rw [hfile]
  exact hoffset

/-- The bytes that a recorder leaves. -/
theorem finalize_bytes (hdram : dramType.length ≤ 15) {r : BinTraceRecorder} {issues : List Issue}
    (hopen : r.isOpen = true) (hoffset : r.dataOffset = spec.dataOffset) (hclk : r.clkBuf = issues.map Issue.clk)
    (hflush : flushArrays r = .ofBytes ((spec.header channelId dramType 0 0).fields.flatten ++
      (spec.tableBytes ++ columnBytes spec.levelCount.toNat issues))) :
    (finalize r).file.bytes = (spec.header channelId dramType issues.length spec.dataOffset).fields.flatten ++
      (spec.tableBytes ++ columnBytes spec.levelCount.toNat issues) := by
  have hfile : (finalize r).file = patchHeader r (flushArrays r) := by
    unfold finalize
    rw [hopen]
    rfl
  rw [hfile]
  unfold patchHeader
  rw [Header.patched (spec.header_formed channelId hdram 0 0) _ _ _ _ (congrArg ByteFile.bytes hflush), hoffset, hclk,
    List.length_map]
  rfl

/-- Writing the columns of the commands that were issued. -/
theorem flushArrays_foldl {r : BinTraceRecorder} {bs : List UInt8} {levels : Nat} (issues : List Issue)
    (hfile : r.file = .ofBytes bs) (hclk : r.clkBuf = []) (harrive : r.arriveBuf = []) (hcmd : r.cmdBuf = [])
    (htype : r.typeBuf = []) (hsource : r.sourceBuf = []) (haddr : r.addrBufs = List.replicate levels []) :
    flushArrays (issues.foldl onIssue r) = .ofBytes (bs ++ columnBytes levels issues) := by
  rw [foldl_onIssue, haddr, mapIdx_replicate_nil, hclk, harrive, hcmd, htype, hsource, hfile]
  unfold flushArrays columnBytes
  simp only [writeArray_ofBytes, foldl_writeArray_ofBytes, List.nil_append, List.append_assoc]

/-- A file of the header, the tables and the columns is read back. -/
theorem Trace.read_bytes (hspec : spec.Fits) (hchannel : FitsUnsigned 4 channelId) (hdram : dramType.length ≤ 15)
    {issues : List Issue} (hissues : ∀ e ∈ issues, e.Fits spec.levelCount.toNat) (hcount : issues.length < 2 ^ 64) :
    Trace.read ((spec.header channelId dramType issues.length spec.dataOffset).fields.flatten ++
        (spec.tableBytes ++ columnBytes spec.levelCount.toNat issues)) =
      some ⟨spec.header channelId dramType issues.length spec.dataOffset, spec.toSpecTables, spec.specEnd,
        issues.map (Issue.truncate spec.levelCount.toNat)⟩ := by
  set h := spec.header channelId dramType issues.length spec.dataOffset with hh
  have hformed : h.Formed := spec.header_formed channelId hdram _ _
  have hoffset : spec.dataOffset < 2 ^ 64 := by
    have hsection := hspec.section_length
    have hlt := spec.dataOffset_spec.2.2
    unfold TraceSpec.specEnd at hlt
    omega
  have hheader := Header.read_fields hformed (hspec.header_fits hchannel hcount hoffset)
    (spec.tableBytes ++ columnBytes spec.levelCount.toNat issues)
  have hlevels : h.levelCount.toNat = spec.levelNames.length ∧ h.levelCount.toNat = spec.levelSizes.length := by
    have h₁ := hspec.levelNames_length
    have h₂ := hspec.levelSizes_length
    show spec.levelCount.toNat = _ ∧ spec.levelCount.toNat = _
    omega
  have hcommands : h.commandCount.toNat = spec.commandNames.length ∧
      h.commandCount.toNat = spec.commandMeta.length ∧ h.commandCount.toNat = spec.commandCycles.length := by
    have h₁ := hspec.commandNames_length
    have h₂ := hspec.commandMeta_length
    have h₃ := hspec.commandCycles_length
    show spec.commandCount.toNat = _ ∧ spec.commandCount.toNat = _ ∧ spec.commandCount.toNat = _
    omega
  have htimings : h.timingCount.toNat = spec.timingNames.length ∧ h.timingCount.toNat = spec.timingVals.length := by
    have h₁ := hspec.timingNames_length
    have h₂ := hspec.timingVals_length
    show spec.timingCount.toNat = _ ∧ spec.timingCount.toNat = _
    omega
  have hbody : (h.fields.flatten ++ (spec.tableBytes ++ columnBytes spec.levelCount.toNat issues)).drop 64 =
      spec.bytes ++ (List.replicate (padding spec.specEnd) 0 ++ columnBytes spec.levelCount.toNat issues) := by
    rw [← Header.length_fields hformed, List.drop_left]
    exact List.append_assoc _ _ _
  have htables := hspec.tables.reads hlevels.1.symm hlevels.2.symm hcommands.1.symm hcommands.2.1.symm
    hcommands.2.2.symm htimings.1.symm htimings.2.symm
    (List.replicate (padding spec.specEnd) 0 ++ columnBytes spec.levelCount.toNat issues)
  unfold Trace.read
  rw [hheader, hbody]
  show (SpecTables.read _ _ _ _ >>= fun tables => _) = _
  rw [htables]
  show some (Trace.mk _ _ _ _) = _
  congr 2
  · -- what comes after the tables is the padding and the columns
    simp only [List.length_append, Header.length_fields hformed]
    unfold TraceSpec.tableBytes TraceSpec.specEnd
    simp only [List.length_append]
    omega
  · refine List.ext_getElem (by simp [hh, TraceSpec.header]) fun i hi hi' => ?_
    have hlt : i < issues.length := by simpa using hi'
    rw [List.getElem_map, List.getElem_map, List.getElem_range, ← List.append_assoc]
    exact readEntry_columns hissues hlt (spec.length_tables channelId hdram _ _)

/-- Whatever is recorded in values that fit, the file says what was recorded, at the places that are laid down
for it, and finishing once more changes nothing. -/
theorem read_finalize (path : String) (hspec : spec.Fits) (hchannel : FitsUnsigned 4 channelId)
    (hdram : dramType.length ≤ 15) (issues : List Issue) (hissues : ∀ e ∈ issues, e.Fits spec.levelCount.toNat)
    (hcount : issues.length < 2 ^ 64) :
    ∃ r, setup (init path dramType) spec channelId true = .ok r ∧
      ∃ d specEnd : Nat,
        Trace.read (finalize (issues.foldl onIssue r)).file.bytes =
          some ⟨spec.header channelId dramType issues.length d, spec.toSpecTables, specEnd,
            issues.map (Issue.truncate spec.levelCount.toNat)⟩ ∧
        ((0 : UInt8) ∉ dramType →
          ((ByteReader.cstring (spec.header channelId dramType issues.length d).dramType).map Prod.fst) =
            some dramType) ∧
        8 ∣ d ∧ specEnd ≤ d ∧ d < specEnd + 8 ∧
        (∀ b ∈ slice (finalize (issues.foldl onIssue r)).file.bytes specEnd (d - specEnd), b = 0) ∧
        (finalize (issues.foldl onIssue r)).file.bytes.length =
          d + issues.length * (20 + 4 * spec.levelCount.toNat) ∧
        finalize (finalize (issues.foldl onIssue r)) = finalize (issues.foldl onIssue r) := by
  refine ⟨_, setup_eq hspec hchannel hdram path, spec.dataOffset, spec.specEnd, ?_⟩
  generalize hr : ({ init path dramType with
    levelCount := spec.levelCount, addrBufs := List.replicate spec.levelCount.toNat [],
    file := .ofBytes ((spec.header channelId dramType 0 0).fields.flatten ++ spec.tableBytes),
    isOpen := true, dataOffset := spec.dataOffset } : BinTraceRecorder) = r
  have hflush : flushArrays (issues.foldl onIssue r) =
      .ofBytes ((spec.header channelId dramType 0 0).fields.flatten ++
        (spec.tableBytes ++ columnBytes spec.levelCount.toNat issues)) := by
    rw [← List.append_assoc]
    subst hr
    exact flushArrays_foldl issues rfl rfl rfl rfl rfl rfl rfl
  have hbytes := finalize_bytes hdram (r := issues.foldl onIssue r) (by rw [foldl_onIssue, ← hr])
    (by rw [foldl_onIssue, ← hr]) (by rw [foldl_onIssue, ← hr]; rfl) hflush
  have hclosed : (finalize (issues.foldl onIssue r)).isOpen = false := by
    have hopen : (issues.foldl onIssue r).isOpen = true := by
      rw [foldl_onIssue, ← hr]
    unfold finalize
    rw [hopen]
    rfl
  obtain ⟨hdvd, hle, hlt⟩ := spec.dataOffset_spec
  refine ⟨?_, fun hzero => ?_, hdvd, hle, hlt, ?_, ?_, ?_⟩
  · rw [hbytes]
    exact Trace.read_bytes hspec hchannel hdram hissues hcount
  · -- the field has room for a zero behind the name
    obtain ⟨n, hn⟩ : ∃ n, 16 - dramType.length = n + 1 := ⟨15 - dramType.length, by omega⟩
    show (ByteReader.cstring (dramType ++ List.replicate (16 - dramType.length) 0)).map Prod.fst = _
    rw [hn, List.replicate_succ, List.append_cons, ByteReader.cstring_reads hzero]
    rfl
  · have hhead := Header.length_fields (spec.header_formed channelId hdram issues.length spec.dataOffset)
    have hpadding : slice (finalize (issues.foldl onIssue r)).file.bytes spec.specEnd (spec.dataOffset - spec.specEnd) =
        List.replicate (padding spec.specEnd) 0 := by
      rw [hbytes]
      unfold TraceSpec.tableBytes
      rw [List.append_assoc, ← List.append_assoc, ← List.append_assoc]
      refine slice_append ?_ ?_
      · rw [List.length_append, hhead]
        rfl
      · rw [List.length_replicate]
        exact Nat.add_sub_cancel_left _ _
    rw [hpadding]
    exact fun b hb => List.eq_of_mem_replicate hb
  · rw [hbytes, ← List.append_assoc, List.length_append, spec.length_tables channelId hdram, length_columnBytes]
  · generalize finalize (issues.foldl onIssue r) = done at hclosed
    unfold finalize
    rw [hclosed]
    rfl

end

/-- Two levels and one command. -/
def twoLevels : TraceSpec where
  levelNames := [[67, 104], [82, 97, 110, 107]]
  levelSizes := [1, 2]
  commandNames := [[65, 67, 84]]
  commandMeta := [{ isOpening := true, isRowCommand := true }]
  commandCycles := [1]
  timingNames := [[110, 66, 76], []]
  timingVals := [4, -1]
  levelCount := 2
  commandCount := 1
  timingCount := 2
  channelWidth := 64
  internalPrefetchSize := 8
  dq := 8
  readLatency := 22

theorem twoLevels_fits : twoLevels.Fits where
  tables :=
    { levelNames := by decide, levelSizes := by decide, commandNames := by decide, commandCycles := by decide,
      timingNames := by decide, timingVals := by decide }
  levelNames_length := by decide
  levelSizes_length := by decide
  commandNames_length := by decide
  commandMeta_length := by decide
  commandCycles_length := by decide
  timingNames_length := by decide
  timingVals_length := by decide
  levelCount := by decide
  commandCount := by decide
  timingCount := by decide
  channelWidth := by decide
  internalPrefetchSize := by decide
  dq := by decide
  readLatency := by decide
  section_length := by decide

/-- A command of a request, and one of the controller's own. -/
def twoIssues : List Issue := [⟨100, 42, 0, 1, 3, [0, 1]⟩, ⟨107, -1, 0, -1, -1, [0, -1]⟩]

theorem twoIssues_fit : ∀ e ∈ twoIssues, e.Fits 2 := by
  intro e he
  rcases List.mem_cons.mp he with rfl | he
  · exact ⟨by decide, by decide, by decide, by decide, by decide, by decide, by decide⟩
  · rw [List.mem_singleton.mp he]
    exact ⟨by decide, by decide, by decide, by decide, by decide, by decide, by decide⟩

theorem read_finalize_twoLevels :
    ∃ r, setup (init "trace" [68, 68, 82, 52]) twoLevels 3 true = .ok r ∧
      ∃ d specEnd : Nat,
        Trace.read (finalize (twoIssues.foldl onIssue r)).file.bytes =
          some ⟨twoLevels.header 3 [68, 68, 82, 52] 2 d, twoLevels.toSpecTables, specEnd, twoIssues⟩ ∧
        ((0 : UInt8) ∉ [(68 : UInt8), 68, 82, 52] →
          ((ByteReader.cstring (twoLevels.header 3 [68, 68, 82, 52] 2 d).dramType).map Prod.fst) =
            some [68, 68, 82, 52]) ∧
        8 ∣ d ∧ specEnd ≤ d ∧ d < specEnd + 8 ∧
        (∀ b ∈ slice (finalize (twoIssues.foldl onIssue r)).file.bytes specEnd (d - specEnd), b = 0) ∧
        (finalize (twoIssues.foldl onIssue r)).file.bytes.length = d + 2 * (20 + 4 * 2) ∧
        finalize (finalize (twoIssues.foldl onIssue r)) = finalize (twoIssues.foldl onIssue r) :=
  read_finalize "trace" twoLevels_fits (by decide) (by decide) twoIssues twoIssues_fit (by decide)

end BinTraceRecorder

end Ramulator.Controller
