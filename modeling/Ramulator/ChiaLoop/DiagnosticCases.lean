/-
# Ramulator.ChiaLoop.DiagnosticCases — requests for synthetic measurements, and the generator's parameters.

A `SyntheticRequest` (`framework/diagnostic_cases.py`) names axes for all streams, overrides for each stream and
overrides for the second regime. `parameters` checks the merged axes against limits and the layout of the memory;
`generator_parameters` writes the overrides as the texts that the native generator takes apart again. The layout
comes from `extract_dram_layout` (`eval/layout.py`).

A request and its overrides carry the bounds that their fields were checked against when they were made.
-/
import Ramulator.Frontend.PatternInit
import Ramulator.ChiaLoop.Pairing

namespace Ramulator.ChiaLoop.Diagnostic

open Ramulator.Lib
open Ramulator.Frontend.Pattern (Axis)
open Ramulator.ChiaLoop.Scoring (raiseIf)

/-- `INT_MAX`. -/
def intMax : Int := 2 ^ 31 - 1

/-! ## The fields of an axes record -/

/-- The bounds of an axis that is an integer. -/
def Axis.bounds : Axis → Option (Int × Int)
  | .mlp | .rowRun | .bankSpread | .wbBatch => some (1, intMax)
  | .thinkTime | .phaseOn | .phaseOff | .ppLead => some (0, intMax)
  | .jitter | .phaseOffRandom => some (0, intMax - 1)
  | .wfracPct => some (0, 100)
  | .wbMode => some (0, 4)
  | .depFrac | .bankRandom | .rowRandom => none

/-- The values that a field takes. -/
def Axis.Allows (a : Axis) : Json → Prop
  | .int n => ∃ b ∈ Axis.bounds a, b.1 ≤ n ∧ n ≤ b.2
  | .bool _ => a = .bankRandom ∨ a = .rowRandom
  | .float (.finite x) => a = .depFrac ∧ 0 ≤ x.toRat ∧ x.toRat ≤ 1
  | _ => False

/-- The default of a field. -/
def Axis.default : Axis → Json
  | .mlp => .int 16
  | .depFrac => .float (.finite (FloatFormat.zero binary64 false))
  | .rowRun => .int 32
  | .bankSpread | .wbBatch => .int 1
  | .bankRandom | .rowRandom => .bool false
  | .ppLead => .int 40
  | .thinkTime | .jitter | .wfracPct | .wbMode | .phaseOn | .phaseOff | .phaseOffRandom => .int 0

/-- Every default passes the check of its field. -/
theorem Axis.default_allowed (a : Axis) : Axis.Allows a (Axis.default a) := by
  have hzero : (FloatFormat.zero binary64 false).toRat = 0 := by
    simp [FloatFormat.Finite.toRat, FloatFormat.Finite.magnitude, FloatFormat.zero]
  cases a
  case depFrac => exact ⟨rfl, hzero.ge, hzero.le.trans zero_le_one⟩
  case bankRandom => exact .inl rfl
  case rowRandom => exact .inr rfl
  all_goals exact ⟨_, rfl, by decide, by decide⟩

/-- `SyntheticAxes`, with the fields that were set. -/
structure SyntheticAxes where
  given : Axis → Option Json
  allowed : ∀ (a : Axis) (v : Json), given a = some v → Axis.Allows a v

/-- `SyntheticAxes()`. -/
def SyntheticAxes.unset : SyntheticAxes where
  given _ := none
  allowed _ v h := absurd h.symm (Option.some_ne_none v)

/-- `SyntheticRequest`. -/
structure SyntheticRequest where
  axes : Axis → Json
  numRequests : Option Int
  streams : Int
  seed : Int
  shareRegion : Bool
  modeSwitch : Int
  modeB : SyntheticAxes
  streamParams : List SyntheticAxes
  axes_allowed : ∀ a : Axis, Axis.Allows a (axes a)
  numRequests_allowed : ∀ n : Int, numRequests = some n → 1 ≤ n ∧ n ≤ intMax
  streams_allowed : 1 ≤ streams ∧ streams ≤ intMax
  seed_allowed : 0 ≤ seed ∧ seed ≤ 2 ^ 64 - 1
  modeSwitch_allowed : 0 ≤ modeSwitch ∧ modeSwitch ≤ intMax

/-- `SyntheticLimits`; the number of trace rows is for reports only. -/
structure SyntheticLimits where
  requestsPerStream : Int
  maximumTotalReads : Int
  requestsPerStream_pos : 0 < requestsPerStream
  population_fits : requestsPerStream ≤ maximumTotalReads

/-! ## Layouts -/

/-- What `extract_dram_layout` returns. -/
structure Layout where
  addrVecSize : Nat
  bankPositions : List Nat
  bankCounts : List Nat
  totalBankUnits : Nat
  rowPos : Nat
  colPos : Nat
  numRows : Nat
  numCols : Nat
  internalPrefetchSize : Nat
  numCls : Nat

/-- `banks.remove(position)` and `banks.append(position)`, for a level that the standard has. -/
def moveLast (levels : List String) (banks : List Nat) (level : String) : Except String (List Nat) :=
  if level ∈ levels then
    if levels.idxOf level ∈ banks then .ok (banks.erase (levels.idxOf level) ++ [levels.idxOf level])
    else .error "list.remove(x): x not in list"
  else .ok banks

/-- `extract_dram_layout`, of the levels of a standard, the counts of an organization (`organization.get(name, 1)`)
and the prefetch size. -/
def extractDramLayout (levels : List String) (count : String → Nat) (prefetch : Nat) : Except String Layout := do
  raiseIf ("Row" ∉ levels) "'Row' is not in list"
  raiseIf ("Column" ∉ levels) "'Column' is not in list"
  let row := levels.idxOf "Row"
  let column := levels.idxOf "Column"
  let banks ← moveLast levels (List.range' 1 (row - 1)) "BankGroup"
  let banks ← moveLast levels banks "PseudoChannel"
  let counts := levels.map count
  let bankCounts := banks.map fun position => counts.getD position 0
  raiseIf (prefetch = 0) "integer division or modulo by zero"
  pure { addrVecSize := levels.length, bankPositions := banks, bankCounts := bankCounts,
         totalBankUnits := bankCounts.foldl (· * ·) 1, rowPos := row, colPos := column,
         numRows := counts.getD row 0, numCols := counts.getD column 0, internalPrefetchSize := prefetch,
         numCls := counts.getD column 0 / prefetch }

/-- The places of a layout are different coordinates of an address vector. -/
structure Layout.Shaped (layout : Layout) : Prop where
  length_counts : layout.bankCounts.length = layout.bankPositions.length
  positions_nodup : layout.bankPositions.Nodup
  positions_lt : ∀ p ∈ layout.bankPositions, p < layout.addrVecSize
  row_lt : layout.rowPos < layout.addrVecSize
  column_lt : layout.colPos < layout.addrVecSize
  row_not_mem : layout.rowPos ∉ layout.bankPositions
  column_not_mem : layout.colPos ∉ layout.bankPositions
  row_ne_column : layout.rowPos ≠ layout.colPos
  prefetch_pos : 0 < layout.internalPrefetchSize

/-- Moving a level keeps the banks different places that the levels have. -/
theorem moveLast_perm {levels : List String} {banks banks' : List Nat} {level : String}
    (h : moveLast levels banks level = .ok banks') : banks'.Perm banks := by
  unfold moveLast at h
  split_ifs at h with hlevel hmem
  · cases h
    exact (List.perm_append_comm.trans (List.perm_cons_erase hmem).symm)
  · cases h
    exact List.Perm.refl _

/-- The layouts that are extracted, where the rows lie above the columns. -/
theorem extractDramLayout_shaped {levels : List String} {count : String → Nat} {prefetch : Nat} {layout : Layout}
    (horder : levels.idxOf "Row" < levels.idxOf "Column")
    (h : extractDramLayout levels count prefetch = .ok layout) : layout.Shaped := by
  unfold extractDramLayout at h
  obtain ⟨_, hrow, h⟩ := except_bind_eq_ok.mp h
  obtain ⟨_, hcolumn, h⟩ := except_bind_eq_ok.mp h
  obtain ⟨banks, hgroups, h⟩ := except_bind_eq_ok.mp h
  obtain ⟨banks', hpseudo, h⟩ := except_bind_eq_ok.mp h
  obtain ⟨_, hprefetch, h⟩ := except_bind_eq_ok.mp h
  cases h
  have hperm : banks'.Perm (List.range' 1 (levels.idxOf "Row" - 1)) :=
    (moveLast_perm hpseudo).trans (moveLast_perm hgroups)
  have hbelow : ∀ p ∈ banks', p < levels.idxOf "Row" := by
    intro p hp
    have hrange := List.mem_range'_1.mp (hperm.mem_iff.mp hp)
    omega
  have hcolumns : levels.idxOf "Column" < levels.length :=
    List.idxOf_lt_length_of_mem (not_not.mp (Scoring.raiseIf_eq_ok.mp hcolumn))
  exact
    { length_counts := List.length_map ..
      positions_nodup := hperm.nodup_iff.mpr List.nodup_range'
      positions_lt := fun p hp => ((hbelow p hp).trans horder).trans hcolumns
      row_lt := horder.trans hcolumns
      column_lt := hcolumns
      row_not_mem := fun hmem => absurd (hbelow _ hmem) (lt_irrefl _)
      column_not_mem := fun hmem => absurd ((hbelow _ hmem).trans horder) (lt_irrefl _)
      row_ne_column := horder.ne
      prefetch_pos := Nat.pos_of_ne_zero (Scoring.raiseIf_eq_ok.mp hprefetch) }

/-! ## `parameters` -/

/-- The value of an integer. -/
def intOf : Json → Int
  | .int n => n
  | _ => 0

/-- `{**result, **stream, **mode}`. -/
def merged (axes : Axis → Json) (stream mode : SyntheticAxes) (a : Axis) : Json :=
  (mode.given a).getD ((stream.given a).getD (axes a))

/-- The dictionary that `parameters` returns. -/
structure Parameters where
  axes : Axis → Json
  numRequests : Int
  streams : Int
  seed : Int
  shareRegion : Bool
  modeSwitch : Int
  modeB : SyntheticAxes
  streamParams : List SyntheticAxes

/-- The checks of one stream in one regime. -/
def checkAxes (layout : Layout) (banks numRequests : Int) (axes : Axis → Json) : Except String Unit := do
  raiseIf (intOf (axes .rowRun) > layout.numCls ∨ intOf (axes .bankSpread) > banks)
    "row_run/bank_spread exceeds the resolved per-stream layout"
  raiseIf (intOf (axes .wbMode) = 3 ∧ intOf (axes .bankSpread) > banks / 2)
    "split write banks require two disjoint bank regions"
  raiseIf (numRequests + intOf (axes .bankSpread) - 2 > intMax)
    "random bank index would exceed the native integer representation"

/-- `SyntheticRequest.parameters`. -/
def SyntheticRequest.parameters (request : SyntheticRequest) (limits : SyntheticLimits) (layout : Layout) :
    Except String Parameters := do
  let numRequests := request.numRequests.getD limits.requestsPerStream
  raiseIf (numRequests > intMax) "configured read count exceeds the native generator representation"
  raiseIf (request.streams * numRequests > limits.maximumTotalReads)
    "requested population exceeds the declared total-read resource guard"
  raiseIf (request.streamParams ≠ [] ∧ request.streamParams.length ≠ request.streams)
    "stream_params must contain exactly one axis object per stream"
  let streamParams := if request.streamParams = [] then List.replicate request.streams.toNat SyntheticAxes.unset
    else request.streamParams
  let partitions := if request.shareRegion then 1 else request.streams
  let banks := (layout.totalBankUnits : Int) / partitions
  raiseIf (banks = 0 ∨ (layout.numRows : Int) / 2 / partitions = 0)
    "stream regions exceed the resolved DRAM organization"
  streamParams.forM fun stream =>
    [SyntheticAxes.unset, request.modeB].forM fun mode =>
      checkAxes layout banks numRequests (merged request.axes stream mode)
  pure { axes := request.axes, numRequests := numRequests, streams := request.streams, seed := request.seed,
         shareRegion := request.shareRegion, modeSwitch := request.modeSwitch, modeB := request.modeB,
         streamParams := streamParams }

/-! ## `generator_parameters` -/

/-- The axes in the order of their names. -/
def Axis.sorted : List Axis :=
  [.bankRandom, .bankSpread, .depFrac, .jitter, .mlp, .phaseOff, .phaseOffRandom, .phaseOn, .ppLead, .rowRandom,
    .rowRun, .thinkTime, .wbBatch, .wbMode, .wfracPct]

theorem Axis.sorted_pairwise : Axis.sorted.Pairwise fun a b => a.name.toList < b.name.toList := by
  decide

theorem Axis.sorted_perm : Axis.sorted.Perm Axis.all := by
  decide

/-- The text of a value: a truth value counts as an integer. -/
def valueText : Json → List Char
  | .bool b => intText (if b then 1 else 0)
  | .int n => intText n
  | .float x => (Json.encodeFloat x).getD []
  | _ => []

/-- The items of `encoded`. -/
def items (values : SyntheticAxes) : List (Axis × List Char) :=
  Axis.sorted.filterMap fun a => (values.given a).map fun v => (a, valueText v)

/-- `encoded`. -/
def encoded (values : SyntheticAxes) : List Char :=
  [';'].intercalate ((items values).map fun i => i.1.name.toList ++ '=' :: i.2)

/-- `generator_parameters`. -/
def generatorParameters (p : Parameters) : List (String × Json) :=
  Axis.all.map (fun a => (a.name, p.axes a)) ++
    [("num_requests", .int p.numRequests), ("streams", .int p.streams), ("seed", .int p.seed),
      ("share_region", .bool p.shareRegion), ("mode_switch", .int p.modeSwitch),
      ("mode_b", .str (String.ofList (encoded p.modeB))),
      ("stream_params", .str (String.ofList (['|'].intercalate (p.streamParams.map encoded))))]

/-- The items of the layout. -/
def Layout.items (layout : Layout) : List (String × Json) :=
  [("addr_vec_size", .int layout.addrVecSize),
    ("bank_positions", .arr (layout.bankPositions.map fun n : Nat => .int n)),
    ("bank_counts", .arr (layout.bankCounts.map fun n : Nat => .int n)),
    ("total_bank_units", .int layout.totalBankUnits), ("row_pos", .int layout.rowPos),
    ("col_pos", .int layout.colPos), ("num_rows", .int layout.numRows), ("num_cols", .int layout.numCols),
    ("internal_prefetch_size", .int layout.internalPrefetchSize), ("num_cls", .int layout.numCls)]

/-- The frontend's part of `configuration`. -/
def configuration (p : Parameters) (layout : Layout) : Json :=
  .obj (("impl", .str "SyntheticPattern") :: ("clock_ratio", .int 1) :: (layout.items ++ generatorParameters p))

end Ramulator.ChiaLoop.Diagnostic
