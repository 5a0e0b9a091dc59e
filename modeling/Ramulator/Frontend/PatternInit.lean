/-
# Ramulator.Frontend.PatternInit — how the pattern generator reads its parameters.

`SyntheticPattern::init` takes the axes of all streams from flat parameters, overrides them for each stream
by a segment of the text `stream_params`, and these for the second regime by the text `mode_b`. A segment is a
list `k=v;k=v`. Then the banks and rows of the memory are divided among the streams, and the axes are checked
against a stream's part.

`apply_items`: a text put together from items changes the axes item by item.
-/
import Ramulator.Base.ConfigNode
import Ramulator.Frontend.SyntheticPattern

namespace Ramulator.Frontend.Pattern

open Ramulator.Base Ramulator.Lib

/-! ## Axes by name -/

inductive Axis where
  | mlp | depFrac | thinkTime | jitter | rowRun | bankSpread | bankRandom | rowRandom | wfracPct | wbMode
  | wbBatch | phaseOn | phaseOff | phaseOffRandom | ppLead
  deriving DecidableEq, Repr

namespace Axis

def name : Axis → String
  | mlp => "mlp"
  | depFrac => "dep_frac"
  | thinkTime => "think_time"
  | jitter => "jitter"
  | rowRun => "row_run"
  | bankSpread => "bank_spread"
  | bankRandom => "bank_random"
  | rowRandom => "row_random"
  | wfracPct => "wfrac_pct"
  | wbMode => "wb_mode"
  | wbBatch => "wb_batch"
  | phaseOn => "phase_on"
  | phaseOff => "phase_off"
  | phaseOffRandom => "phase_off_random"
  | ppLead => "pp_lead"

/-- In the order of their declaration. -/
def all : List Axis :=
  [mlp, depFrac, thinkTime, jitter, rowRun, bankSpread, bankRandom, rowRandom, wfracPct, wbMode, wbBatch, phaseOn,
    phaseOff, phaseOffRandom, ppLead]

theorem mem_all (a : Axis) : a ∈ all := by
  cases a <;> decide

/-- The axis of a name. -/
def ofName (k : List Char) : Option Axis := all.find? fun a => a.name.toList = k

@[simp] theorem ofName_name (a : Axis) : ofName a.name.toList = some a := by
  cases a <;> decide

/-- A name has none of the separators in it. -/
theorem separators_not_mem_name (a : Axis) : '=' ∉ a.name.toList ∧ ';' ∉ a.name.toList ∧ '|' ∉ a.name.toList := by
  cases a <;> decide

end Axis

/-- `std::stof`, with the integer part of 10000 times its result. -/
abbrev FloatReader := List Char → Except Fault Nat

namespace Axes

/-- An axis other than `dep_frac` set to a number. -/
def setInt (ax : Axes) (n : Int) : Axis → Axes
  | .mlp => { ax with mlp := n }
  | .depFrac => ax
  | .thinkTime => { ax with thinkTime := n }
  | .jitter => { ax with jitter := n }
  | .rowRun => { ax with rowRun := n }
  | .bankSpread => { ax with bankSpread := n }
  | .bankRandom => { ax with bankRandom := n ≠ 0 }
  | .rowRandom => { ax with rowRandom := n ≠ 0 }
  | .wfracPct => { ax with wfracPct := n }
  | .wbMode => { ax with wbMode := n }
  | .wbBatch => { ax with wbBatch := n }
  | .phaseOn => { ax with phaseOn := n }
  | .phaseOff => { ax with phaseOff := n }
  | .phaseOffRandom => { ax with phaseOffRandom := n }
  | .ppLead => { ax with ppLead := n }

/-- The assignment that `apply` makes for a key. -/
def assign (stof : FloatReader) (ax : Axes) (a : Axis) (v : List Char) : Except Fault Axes :=
  if a = .depFrac then (stof v).map fun d => { ax with depFrac := d }
  else (stoi v).map fun n => ax.setInt n a

end Axes

/-! ## The texts of overrides -/

/-- `split`: no segments of an empty text. -/
def split (s : List Char) (sep : Char) : List (List Char) :=
  let r := s.foldl (fun (r : List (List Char) × List Char) c =>
    if c = sep then (r.1 ++ [r.2], []) else (r.1, r.2 ++ [c])) ([], [])
  if r.2 ≠ [] ∨ r.1 ≠ [] then r.1 ++ [r.2] else r.1

/-- One item of `apply`: an item without `=` is passed over. -/
def applyItem (stof : FloatReader) (ax : Axes) (item : List Char) : Except Fault Axes :=
  if '=' ∈ item then
    let k := item.takeWhile (· ≠ '=')
    let v := (item.dropWhile (· ≠ '=')).drop 1
    match Axis.ofName k with
    | some a => ax.assign stof a v
    | none => .error (.runtime ("SyntheticPattern: unknown axis '" ++ String.ofList k ++ "'"))
  else .ok ax

/-- `apply`. -/
def apply (stof : FloatReader) (ax : Axes) (kv : List Char) : Except Fault Axes :=
  (split kv ';').foldlM (applyItem stof) ax

section Split

variable {sep : Char} {ts : List (List Char)}

theorem intercalate_cons_cons (t u : List Char) (rest : List (List Char)) :
    [sep].intercalate (t :: u :: rest) = t ++ sep :: [sep].intercalate (u :: rest) := by
  simp [List.intercalate]

theorem intercalate_singleton (t : List Char) : [sep].intercalate [t] = t := by
  simp [List.intercalate]

theorem not_mem_intercalate {c : Char} (hne : c ≠ sep) (h : ∀ t ∈ ts, c ∉ t) : c ∉ [sep].intercalate ts := by
  induction ts with
  | nil => exact List.not_mem_nil
  | cons t rest ih =>
      have ht := h t List.mem_cons_self
      have hrest := ih fun u hu => h u (List.mem_cons_of_mem _ hu)
      cases rest with
      | nil =>
          rw [intercalate_singleton]
          exact ht
      | cons u rest =>
          rw [intercalate_cons_cons, List.mem_append, List.mem_cons]
          rintro (hmem | hmem | hmem)
          · exact ht hmem
          · exact hne hmem
          · exact hrest hmem

/-- Segments put together with separators come apart again. Only the empty segment alone is lost. -/
theorem split_intercalate (h : ∀ t ∈ ts, sep ∉ t) :
    split ([sep].intercalate ts) sep = if ts = [] ∨ ts = [[]] then [] else ts := by
  have hplain (t : List Char) (ht : sep ∉ t) (out : List (List Char)) (cur : List Char) :
      t.foldl (fun (r : List (List Char) × List Char) c =>
        if c = sep then (r.1 ++ [r.2], []) else (r.1, r.2 ++ [c])) (out, cur) = (out, cur ++ t) := by
    induction t generalizing cur with
    | nil => rw [List.foldl_nil, List.append_nil]
    | cons c t ih =>
        rw [List.mem_cons, not_or] at ht
        rw [List.foldl_cons, if_neg (Ne.symm ht.1), ih ht.2, List.append_assoc]
        rfl
  have hfold (t : List Char) (rest : List (List Char)) (hall : ∀ u ∈ t :: rest, sep ∉ u)
      (out : List (List Char)) :
      ([sep].intercalate (t :: rest)).foldl (fun (r : List (List Char) × List Char) c =>
        if c = sep then (r.1 ++ [r.2], []) else (r.1, r.2 ++ [c])) (out, []) =
        (out ++ (t :: rest).dropLast, (t :: rest).getLast (List.cons_ne_nil t rest)) := by
    induction rest generalizing t out with
    | nil =>
        rw [intercalate_singleton, hplain t (hall t List.mem_cons_self)]
        simp
    | cons u rest ih =>
        rw [intercalate_cons_cons, List.foldl_append, hplain t (hall t List.mem_cons_self), List.foldl_cons, if_pos rfl,
          ih u (fun v hv => hall v (List.mem_cons_of_mem _ hv))]
        simp
  cases ts with
  | nil => rfl
  | cons t rest =>
      unfold split
      dsimp only
      rw [hfold t rest h []]
      dsimp only
      rw [List.nil_append, List.dropLast_append_getLast]
      cases rest with
      | nil => by_cases ht : t = [] <;> simp [ht]
      | cons u rest => simp

end Split

section Items

variable {stof : FloatReader} {ax : Axes}

/-- An item with the name of an axis sets the axis. -/
theorem applyItem_eq (a : Axis) (v : List Char) :
    applyItem stof ax (a.name.toList ++ '=' :: v) = ax.assign stof a v := by
  have hname : ∀ c ∈ a.name.toList, decide (c ≠ '=') = true := fun c hc =>
    decide_eq_true fun heq => a.separators_not_mem_name.1 (heq ▸ hc)
  unfold applyItem
  rw [if_pos (List.mem_append_right _ List.mem_cons_self), List.takeWhile_append_of_pos hname,
    List.dropWhile_append_of_pos hname, List.takeWhile_cons_of_neg (by decide),
    List.dropWhile_cons_of_neg (by decide), List.append_nil]
  dsimp only
  rw [Axis.ofName_name]
  rfl

/-- An item is free of a separator if its value is. -/
theorem not_mem_item {c : Char} (a : Axis) {v : List Char} (hname : c ∉ a.name.toList) (hequals : c ≠ '=')
    (hv : c ∉ v) : c ∉ a.name.toList ++ '=' :: v := by
  rw [List.mem_append, List.mem_cons]
  rintro (h | h | h)
  · exact hname h
  · exact hequals h
  · exact hv h

/-- A text of items. -/
theorem apply_items (items : List (Axis × List Char)) (hplain : ∀ i ∈ items, ';' ∉ i.2) :
    apply stof ax ([';'].intercalate (items.map fun i => i.1.name.toList ++ '=' :: i.2)) =
      items.foldlM (fun ax i => Axes.assign stof ax i.1 i.2) ax := by
  have hsep : ∀ t ∈ items.map fun i => i.1.name.toList ++ '=' :: i.2, ';' ∉ t := by
    intro t ht
    obtain ⟨i, hi, rfl⟩ := List.mem_map.mp ht
    exact not_mem_item i.1 i.1.separators_not_mem_name.2.1 (by decide) (hplain i hi)
  have hsplit : split ([';'].intercalate (items.map fun i => i.1.name.toList ++ '=' :: i.2)) ';' =
      items.map fun i => i.1.name.toList ++ '=' :: i.2 := by
    rw [split_intercalate hsep]
    cases items with
    | nil => rfl
    | cons i items => simp
  unfold apply
  rw [hsplit]
  clear hsep hsplit hplain
  induction items generalizing ax with
  | nil => rfl
  | cons i items ih =>
      rw [List.map_cons, List.foldlM_cons, List.foldlM_cons, applyItem_eq]
      exact bind_congr fun ax' => ih

end Items

/-! ## `init` -/

/-- A parameter of the generator. -/
def param {α : Type} (config : ConfigNode) (name : String) (as : ConfigNode → Except Fault α) : ParamReader α :=
  { config := config, name := name, implName := "SyntheticPattern", as := as }

/-- `as<float>`. -/
def asFloat (stof : FloatReader) (node : ConfigNode) : Except Fault Nat := node.asString >>= stof

/-- The flat parameter of an axis. What is not given keeps its default. -/
def Axes.read (stof : FloatReader) (config : ConfigNode) (ax : Axes) (a : Axis) : Except Fault Axes :=
  match config.get a.name with
  | .null => .ok ax
  | _ =>
      match a with
      | .depFrac => (param config a.name (asFloat stof)).parse.map fun d => { ax with depFrac := d }
      | .bankRandom => (param config a.name ConfigNode.asBool).parse.map fun b => { ax with bankRandom := b }
      | .rowRandom => (param config a.name ConfigNode.asBool).parse.map fun b => { ax with rowRandom := b }
      | a => (param config a.name ConfigNode.asInt).parse.map fun n => ax.setInt n a

/-- What `init` knows when it makes the streams. -/
structure Setup where
  numRequests : Int
  modeSwitch : Int
  seed : UInt64
  shareRegion : Bool
  base : Axes
  segs : List (List Char)
  modeB : List Char
  banksPerStream : Int
  rowsPerStream : Int
  numCls : Int

namespace Setup

variable (stof : FloatReader) (s : Setup)

/-- The axes of a regime, checked against the part of a stream. -/
def settle (ax : Axes) : Except Fault Axes := do
  let ax := if ax.bankSpread ≤ 0 ∨ ax.bankSpread > s.banksPerStream then
    { ax with bankSpread := s.banksPerStream } else ax
  -- the product is formed in mode 3 only
  let twice ← checked (if ax.wbMode = 3 then CInt.mul 32 ax.bankSpread 2 else some 0)
  if ax.wbMode = 3 ∧ twice > s.banksPerStream then
    .error (.runtime "SyntheticPattern: wb_mode=3 needs bank_spread <= half the stream's banks")
  else if ax.rowRun ≤ 0 ∨ ax.rowRun > s.numCls then
    .error (.runtime "SyntheticPattern: row_run must be in [1, num_cls]")
  else pure ax

/-- The axes of stream `i` in the first regime. -/
def regimeA (i : Nat) : Except Fault Axes :=
  match s.segs[i]? with
  | some seg => if seg = [] then .ok s.base else apply stof s.base seg
  | none => .ok s.base

/-- The axes in the second regime. -/
def regimeB (a : Axes) : Except Fault Axes := if s.modeB = [] then .ok a else apply stof a s.modeB

/-- The first unit of stream `i`, of which each stream has `part`. -/
def first (i : Nat) (part : Int) : Except Fault Int :=
  if s.shareRegion then .ok 0 else checked (CInt.mul 32 i part)

/-- The stream with index `i`. -/
def stream (i : Nat) : Except Fault StreamConfig := do
  let a ← s.regimeA stof i
  let b ← s.regimeB stof a
  let bankBase ← s.first i s.banksPerStream
  let rowBase ← s.first i s.rowsPerStream
  let a ← s.settle a
  let b ← s.settle b
  pure { id := i, a := a, b := b, modeSwitch := s.modeSwitch, numRequests := s.numRequests,
         seed := s.seed + 7919 * UInt64.ofNat i, bankBase := bankBase, rowBase := rowBase }

end Setup

/-- The part of `total` that a stream has: all of it if the region is shared, else at least one unit. -/
def perStream (shareRegion : Bool) (total streams : Int) : Except Fault Int :=
  if shareRegion then .ok total else (checked (CInt.div 32 total streams)).map fun part => max part 1

/-- `init`. The transaction size is the memory system's. -/
def init (stof : FloatReader) (txBytes : Int) (config : ConfigNode) : Except Fault PatternConfig := do
  let _ ← (param config "clock_ratio" ConfigNode.asUnsigned).required
  let numRequests ← (param config "num_requests" ConfigNode.asInt).required
  let streams ← (param config "streams" ConfigNode.asInt).defaultVal 1
  let streamParams ← (param config "stream_params" ConfigNode.asString).defaultVal []
  let modeSwitch ← (param config "mode_switch" ConfigNode.asInt).defaultVal 0
  let modeB ← (param config "mode_b" ConfigNode.asString).defaultVal []
  let shareRegion ← (param config "share_region" ConfigNode.asBool).defaultVal false
  let base ← Axis.all.foldlM (Axes.read stof config) {}
  let seed ← (param config "seed" ConfigNode.asUInt64).defaultVal 1
  let addrVecSize ← (param config "addr_vec_size" ConfigNode.asInt).required
  let totalBankUnits ← (param config "total_bank_units" ConfigNode.asInt).required
  let rowPos ← (param config "row_pos" ConfigNode.asInt).required
  let colPos ← (param config "col_pos" ConfigNode.asInt).required
  let numRows ← (param config "num_rows" ConfigNode.asInt).required
  let _ ← (param config "num_cols" ConfigNode.asInt).required
  let internalPrefetchSize ← (param config "internal_prefetch_size" ConfigNode.asInt).required
  let numCls ← (param config "num_cls" ConfigNode.asInt).required
  let bankPositions ← (param config "bank_positions" ConfigNode.asInts).required
  let bankCounts ← (param config "bank_counts" ConfigNode.asInts).required
  if streams ≤ 0 then .error (.runtime "SyntheticPattern: streams must be >= 1")
  else
    let banksPerStream ← perStream shareRegion totalBankUnits streams
    let half ← checked (CInt.div 32 numRows 2)
    let rowsPerStream ← perStream shareRegion half streams
    let setup : Setup :=
      { numRequests := numRequests, modeSwitch := modeSwitch, seed := seed, shareRegion := shareRegion,
        base := base, segs := split streamParams '|', modeB := modeB, banksPerStream := banksPerStream,
        rowsPerStream := rowsPerStream, numCls := numCls }
    let sts ← (List.range streams.toNat).mapM (setup.stream stof)
    pure { recipe :=
             { addrVecSize := addrVecSize.toNat, bankPositions := bankPositions.map Int.toNat,
               bankCounts := bankCounts, totalBankUnits := totalBankUnits, rowPos := rowPos.toNat,
               colPos := colPos.toNat, numRows := numRows, numCls := numCls,
               internalPrefetchSize := internalPrefetchSize, rowsPerStream := rowsPerStream,
               txBytes := txBytes }
           streams := sts }

end Ramulator.Frontend.Pattern
