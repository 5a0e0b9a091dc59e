/-
# Ramulator.ChiaLoop.DiagnosticPattern — what is checked in Python is what the native generator runs.

`SyntheticRequest.parameters` checks merged dictionaries; the native `init` reads flat parameters and texts, merges
them again, and checks by itself. For a request that passes the one, the other makes the streams with the same
axes, `init_configuration`. The streams keep to their parts of the memory, so that the generator's addresses are
well formed.
-/
import Ramulator.ChiaLoop.DiagnosticCases
import Ramulator.Frontend.PatternAddresses

namespace Ramulator.ChiaLoop.Diagnostic

open Ramulator.Base Ramulator.Lib
open Ramulator.Frontend.Pattern (Axis Axes FloatReader)
open Ramulator.Frontend

/-! ## The axes of a dictionary -/

/-- The value of a truth value. -/
def boolOf : Json → Bool
  | .bool b => b
  | _ => false

/-- The axes that the native generator has for the values of a dictionary. -/
def nativeAxes (dep : List Char → Nat) (values : Axis → Json) : Axes where
  mlp := intOf (values .mlp)
  thinkTime := intOf (values .thinkTime)
  jitter := intOf (values .jitter)
  rowRun := intOf (values .rowRun)
  bankSpread := intOf (values .bankSpread)
  bankRandom := boolOf (values .bankRandom)
  rowRandom := boolOf (values .rowRandom)
  depFrac := dep (valueText (values .depFrac))
  wfracPct := intOf (values .wfracPct)
  wbMode := intOf (values .wbMode)
  wbBatch := intOf (values .wbBatch)
  phaseOn := intOf (values .phaseOn)
  phaseOff := intOf (values .phaseOff)
  phaseOffRandom := intOf (values .phaseOffRandom)
  ppLead := intOf (values .ppLead)

/-- What `std::stof` makes of a text, where it makes something of it. -/
def depOf (stof : FloatReader) (text : List Char) : Nat :=
  match stof text with
  | .ok d => d
  | .error _ => 0

/-- The text of a value of `dep_frac` parses. -/
def Parses (stof : FloatReader) (v : Json) : Prop := ∃ d, stof (valueText v) = .ok d

theorem Parses.eq {stof : FloatReader} {v : Json} (h : Parses stof v) :
    stof (valueText v) = .ok (depOf stof (valueText v)) := by
  obtain ⟨d, hd⟩ := h
  unfold depOf
  rw [hd]

/-- One axis set to a value. -/
def put (dep : List Char → Nat) (ax : Axes) (v : Json) : Axis → Axes
  | .depFrac => { ax with depFrac := dep (valueText v) }
  | .bankRandom => { ax with bankRandom := boolOf v }
  | .rowRandom => { ax with rowRandom := boolOf v }
  | a => ax.setInt (intOf v) a

variable {stof : FloatReader} {dep : List Char → Nat} {a : Axis} {v : Json} {ax : Axes}

theorem put_nativeAxes (values : Axis → Json) (a : Axis) (v : Json) :
    put dep (nativeAxes dep values) v a = nativeAxes dep (Function.update values a v) := by
  cases a <;> rfl

/-- The numbers of an axis fit. -/
theorem Axis.Allows.fits {n : Int} (h : Axis.Allows a (.int n)) : CInt.Fits 32 n := by
  obtain ⟨b, hb, hlow, hhigh⟩ := h
  have hbounds : 0 ≤ b.1 ∧ b.2 ≤ 2147483647 := by
    revert hb
    cases a <;> rintro ⟨⟩ <;> decide
  exact CInt.fits_32.mpr (by omega)

/-- What is allowed for an axis is of its kind. -/
theorem Axis.Allows.cases (h : Axis.Allows a v) :
    (∃ n, v = .int n ∧ Axis.bounds a ≠ none) ∨ (∃ b, v = .bool b ∧ (a = .bankRandom ∨ a = .rowRandom)) ∨
      ∃ x, v = .float (.finite x) ∧ a = .depFrac := by
  match v, h with
  | .int n, ⟨b, hb, _⟩ => exact .inl ⟨n, rfl, fun hnone => by rw [hnone] at hb; cases hb⟩
  | .bool b, h => exact .inr (.inl ⟨b, rfl, h⟩)
  | .float (.finite x), h => exact .inr (.inr ⟨x, rfl, h.1⟩)

/-- The assignment of a value's text. -/
theorem assign_valueText (h : Axis.Allows a v) (hparses : a = .depFrac → Parses stof v) :
    ax.assign stof a (valueText v) = .ok (put (depOf stof) ax v a) := by
  unfold Axes.assign
  rcases h.cases with ⟨n, rfl, hkind⟩ | ⟨b, rfl, rfl | rfl⟩ | ⟨x, rfl, rfl⟩
  · have hint : a ≠ .depFrac := fun heq => hkind (by rw [heq]; rfl)
    rw [if_neg hint]
    show (stoi (intText n)).map _ = _
    rw [stoi_intText h.fits]
    cases a <;> first | rfl | exact absurd rfl hkind
  · rw [if_neg (by decide)]
    cases b <;> rfl
  · rw [if_neg (by decide)]
    cases b <;> rfl
  · rw [if_pos rfl, (hparses rfl).eq]
    rfl

/-- The reading of a flat parameter. -/
theorem read_given {config : ConfigNode} (hget : config.get a.name = .ofJson v) (h : Axis.Allows a v)
    (hparses : a = .depFrac → Parses stof v) :
    Pattern.Axes.read stof config ax a = .ok (put (depOf stof) ax v a) := by
  have hparse {α : Type} {as : ConfigNode → Except Fault α} {x : α} (has : as (.ofJson v) = .ok x) :
      (Pattern.param config a.name as).parse = .ok x :=
    ParamReader.parse_eq_ok (by rw [← hget] at has; exact has)
  unfold Pattern.Axes.read
  rw [hget]
  rcases h.cases with ⟨n, rfl, hkind⟩ | ⟨b, rfl, rfl | rfl⟩ | ⟨x, rfl, rfl⟩
  · have hread := hparse (ConfigNode.asInt_ofJson h.fits)
    dsimp only [ConfigNode.ofJson]
    cases a <;> first | exact absurd rfl hkind | exact congrArg (Except.map _) hread
  · exact congrArg (Except.map _) (hparse (ConfigNode.asBool_ofJson b))
  · exact congrArg (Except.map _) (hparse (ConfigNode.asBool_ofJson b))
  · have hread : Pattern.asFloat stof (.ofJson (.float (.finite x))) = .ok _ := (hparses rfl).eq
    exact congrArg (Except.map _) (hparse hread)

/-- All flat parameters. -/
theorem read_all {config : ConfigNode} {values : Axis → Json}
    (hget : ∀ a : Axis, config.get a.name = .ofJson (values a)) (h : ∀ a, Axis.Allows a (values a))
    (hparses : Parses stof (values .depFrac)) :
    Axis.all.foldlM (Pattern.Axes.read stof config) {} = .ok (nativeAxes (depOf stof) values) := by
  have hstep (ax : Axes) (a : Axis) :
      Pattern.Axes.read stof config ax a = .ok (put (depOf stof) ax (values a) a) :=
    read_given (hget a) (h a) fun heq => heq ▸ hparses
  have hfold (l : List Axis) (ax : Axes) : l.foldlM (Pattern.Axes.read stof config) ax =
      .ok (l.foldl (fun ax a => put (depOf stof) ax (values a) a) ax) := by
    induction l generalizing ax with
    | nil => rfl
    | cons a l ih =>
        rw [List.foldlM_cons, hstep]
        exact ih _
  exact hfold Axis.all {}

/-! ## The texts of overrides -/

/-- The values after some overrides. -/
def overridden (given : Axis → Option Json) (values : Axis → Json) (a : Axis) : Json := (given a).getD (values a)

theorem numeral_valueText (h : Axis.Allows a v) : Numeral (valueText v) := by
  rcases h.cases with ⟨n, rfl, -⟩ | ⟨b, rfl, -⟩ | ⟨x, rfl, -⟩
  · exact numeral_intText n
  · exact numeral_intText _
  · exact (numeral_decimalText _).minusText _

theorem separators_not_mem {cs : List Char} (h : Numeral cs) : ';' ∉ cs ∧ '|' ∉ cs := by
  constructor
  · intro hmem
    rcases h _ hmem with hdigit | h | h | h | h <;> revert h <;> try decide
    exact absurd hdigit (by decide)
  · intro hmem
    rcases h _ hmem with hdigit | h | h | h | h <;> revert h <;> try decide
    exact absurd hdigit (by decide)

theorem mem_items {values : SyntheticAxes} {i : Axis × List Char} (h : i ∈ items values) :
    ∃ v, values.given i.1 = some v ∧ i.2 = valueText v := by
  obtain ⟨a, -, hi⟩ := List.mem_filterMap.mp h
  obtain ⟨v, hv, rfl⟩ := Option.map_eq_some_iff.mp hi
  exact ⟨v, hv, rfl⟩

theorem Axis.mem_sorted (a : Axis) : a ∈ Axis.sorted := Axis.sorted_perm.mem_iff.mpr a.mem_all

/-- The text of overrides, applied. -/
theorem apply_encoded (o : SyntheticAxes) (values : Axis → Json)
    (hparses : ∀ v, o.given .depFrac = some v → Parses stof v) :
    Pattern.apply stof (nativeAxes (depOf stof) values) (encoded o) =
      .ok (nativeAxes (depOf stof) (overridden o.given values)) := by
  have hplain : ∀ i ∈ items o, ';' ∉ i.2 := by
    intro i hi
    obtain ⟨v, hv, htext⟩ := mem_items hi
    rw [htext]
    exact (separators_not_mem (numeral_valueText (o.allowed i.1 v hv))).1
  unfold encoded
  rw [Pattern.apply_items _ hplain]
  unfold items
  have hfold (l : List Axis) (values : Axis → Json) :
      (l.filterMap fun a => (o.given a).map fun v => (a, valueText v)).foldlM
        (fun ax i => Axes.assign stof ax i.1 i.2) (nativeAxes (depOf stof) values) =
        .ok (nativeAxes (depOf stof) fun a => if a ∈ l then overridden o.given values a else values a) := by
    induction l generalizing values with
    | nil =>
        simp only [List.not_mem_nil, if_false]
        rfl
    | cons b l ih =>
        cases hb : o.given b with
        | none =>
            rw [List.filterMap_cons_none (by rw [hb]; rfl), ih]
            congr 2
            funext a
            by_cases hab : a = b
            · subst hab
              simp [overridden, hb]
            · simp [hab]
        | some v =>
            rw [List.filterMap_cons_some (by rw [hb]; rfl), List.foldlM_cons,
              assign_valueText (o.allowed b v hb) fun heq => hparses v (heq ▸ hb), put_nativeAxes]
            refine (ih _).trans ?_
            congr 2
            funext a
            by_cases hab : a = b
            · subst hab
              simp [overridden, hb]
            · simp [overridden, hab]
  rw [hfold]
  congr 2
  funext a
  rw [if_pos (Axis.mem_sorted a)]

theorem bar_not_mem_encoded (o : SyntheticAxes) : '|' ∉ encoded o := by
  have hitem : ∀ t ∈ (items o).map fun i => i.1.name.toList ++ '=' :: i.2, '|' ∉ t := by
    intro t ht
    obtain ⟨i, hi, rfl⟩ := List.mem_map.mp ht
    obtain ⟨v, hv, htext⟩ := mem_items hi
    refine Pattern.not_mem_item i.1 i.1.separators_not_mem_name.2.2 (by decide) ?_
    rw [htext]
    exact (separators_not_mem (numeral_valueText (o.allowed i.1 v hv))).2
  exact Pattern.not_mem_intercalate (by decide) hitem

/-! ## Streams -/

/-- The axes of a stream in a regime. -/
def Parameters.axesOf (p : Parameters) (i : Nat) (second : Bool) : Axis → Json :=
  merged p.axes (p.streamParams.getD i .unset) (if second then p.modeB else .unset)

/-- What a request's texts need to parse. -/
structure Parameters.DepsParse (p : Parameters) (stof : FloatReader) : Prop where
  base : Parses stof (p.axes .depFrac)
  modeB : ∀ v, p.modeB.given .depFrac = some v → Parses stof v
  streams : ∀ s ∈ p.streamParams, ∀ v, s.given .depFrac = some v → Parses stof v

variable {p : Parameters} {layout : Layout} {i : Nat}

/-- The first regime of a stream, from its segment of the text. -/
theorem regimeA_eq {setup : Pattern.Setup} (hdeps : p.DepsParse stof) (hi : i < p.streamParams.length)
    (hbase : setup.base = nativeAxes (depOf stof) p.axes)
    (hsegs : setup.segs = Pattern.split (['|'].intercalate (p.streamParams.map encoded)) '|') :
    setup.regimeA stof i = .ok (nativeAxes (depOf stof) (p.axesOf i false)) := by
  have hgetD : p.streamParams.getD i .unset = p.streamParams[i] := List.getD_eq_getElem _ _ hi
  have happly := apply_encoded p.streamParams[i] p.axes
    (hdeps.streams _ (List.getElem_mem hi))
  have htarget : p.axesOf i false = overridden p.streamParams[i].given p.axes := by
    unfold Parameters.axesOf
    rw [hgetD]
    rfl
  rw [Pattern.split_intercalate (fun t ht => by
    obtain ⟨o, -, rfl⟩ := List.mem_map.mp ht
    exact bar_not_mem_encoded o)] at hsegs
  unfold Pattern.Setup.regimeA
  rw [htarget, ← happly, hbase, hsegs]
  split_ifs with hlone
  · -- a single empty segment is no segment
    have hempty : encoded p.streamParams[i] = [] := by
      rcases hlone with hnil | hlone
      · rw [List.map_eq_nil_iff.mp hnil] at hi
        exact absurd hi (Nat.not_lt_zero i)
      · have hmem : encoded p.streamParams[i] ∈ p.streamParams.map encoded :=
          List.mem_map_of_mem (List.getElem_mem hi)
        rw [hlone] at hmem
        exact List.mem_singleton.mp hmem
    rw [hempty]
    rfl
  · rw [List.getElem?_map, List.getElem?_eq_getElem hi, Option.map_some]
    dsimp only
    split_ifs with hempty
    · rw [hempty]
      rfl
    · rfl

theorem regimeB_eq {setup : Pattern.Setup} (hdeps : p.DepsParse stof) (hmode : setup.modeB = encoded p.modeB) :
    setup.regimeB stof (nativeAxes (depOf stof) (p.axesOf i false)) =
      .ok (nativeAxes (depOf stof) (p.axesOf i true)) := by
  have happly := apply_encoded p.modeB (p.axesOf i false) hdeps.modeB
  have htarget : p.axesOf i true = overridden p.modeB.given (p.axesOf i false) := rfl
  unfold Pattern.Setup.regimeB
  rw [hmode, htarget, ← happly]
  split_ifs with hempty
  · rw [hempty]
    rfl
  · rfl

/-! ## What `parameters` has checked -/

/-- Among how many streams the memory is divided. -/
def Parameters.partitions (p : Parameters) : Int := if p.shareRegion then 1 else p.streams

/-- The banks of a stream. -/
def Parameters.banks (p : Parameters) (layout : Layout) : Int := (layout.totalBankUnits : Int) / p.partitions

/-- The rows of a stream: half of the memory's are divided. -/
def Parameters.rows (p : Parameters) (layout : Layout) : Int := (layout.numRows : Int) / 2 / p.partitions

/-- Parameters whose fields are in bounds and whose merged axes have been checked. -/
structure Parameters.Valid (p : Parameters) (layout : Layout) : Prop where
  axes : ∀ a : Axis, Axis.Allows a (p.axes a)
  requests : 1 ≤ p.numRequests ∧ p.numRequests ≤ intMax
  streams : 1 ≤ p.streams ∧ p.streams ≤ intMax
  seed : 0 ≤ p.seed ∧ p.seed ≤ 2 ^ 64 - 1
  modeSwitch : 0 ≤ p.modeSwitch ∧ p.modeSwitch ≤ intMax
  length : (p.streamParams.length : Int) = p.streams
  banks_pos : 0 < p.banks layout
  rows_pos : 0 < p.rows layout
  checked : ∀ i < p.streamParams.length, ∀ second,
    checkAxes layout (p.banks layout) p.numRequests (p.axesOf i second) = .ok ()

theorem parameters_valid {request : SyntheticRequest} {limits : SyntheticLimits}
    (h : request.parameters limits layout = .ok p) : p.Valid layout := by
  obtain ⟨_, hmax, h⟩ := except_bind_eq_ok.mp h
  obtain ⟨_, htotal, h⟩ := except_bind_eq_ok.mp h
  obtain ⟨_, hcount, h⟩ := except_bind_eq_ok.mp h
  obtain ⟨_, hregion, h⟩ := except_bind_eq_ok.mp h
  obtain ⟨_, hchecks, h⟩ := except_bind_eq_ok.mp h
  obtain rfl := Except.ok.inj h
  have hstreams := request.streams_allowed
  have hpartitions : 0 < if request.shareRegion = true then 1 else request.streams := by
    split_ifs
    · exact one_pos
    · omega
  have hregion := not_or.mp (Scoring.raiseIf_eq_ok.mp hregion)
  refine ⟨request.axes_allowed, ?_, hstreams, request.seed_allowed, request.modeSwitch_allowed, ?_,
    lt_of_le_of_ne (Int.ediv_nonneg (Int.natCast_nonneg _) hpartitions.le) (Ne.symm hregion.1),
    lt_of_le_of_ne (Int.ediv_nonneg (Int.ediv_nonneg (Int.natCast_nonneg _) (by decide)) hpartitions.le)
      (Ne.symm hregion.2), fun i hi second => ?_⟩
  · refine ⟨?_, not_lt.mp (Scoring.raiseIf_eq_ok.mp hmax)⟩
    cases hrequests : request.numRequests with
    | none => exact limits.requestsPerStream_pos
    | some n => exact (request.numRequests_allowed n hrequests).1
  · show ((if request.streamParams = [] then _ else _ : List SyntheticAxes).length : Int) = request.streams
    split_ifs with hnil
    · rw [List.length_replicate, Int.toNat_of_nonneg (by omega)]
    · by_contra hne
      exact Scoring.raiseIf_eq_ok.mp hcount ⟨hnil, hne⟩
  · have hmem := List.getElem_mem hi
    have hmode : (if second = true then request.modeB else .unset) ∈ [SyntheticAxes.unset, request.modeB] := by
      cases second
      · exact List.mem_cons_self
      · exact List.mem_cons_of_mem _ (List.mem_singleton.mpr rfl)
    have hcheck := forM_ok.mp (forM_ok.mp hchecks _ hmem) _ hmode
    unfold Parameters.axesOf
    rw [List.getD_eq_getElem _ _ hi]
    exact hcheck

/-- Merged values are allowed where their parts are. -/
theorem Parameters.Valid.allowed (h : p.Valid layout) (i : Nat) (second : Bool) (a : Axis) :
    Axis.Allows a (p.axesOf i second a) := by
  have hgiven (o : SyntheticAxes) (values : Axis → Json) (hv : Axis.Allows a (values a)) :
      Axis.Allows a (overridden o.given values a) := by
    unfold overridden
    cases ha : o.given a with
    | none => exact hv
    | some v => exact o.allowed a v ha
  exact hgiven _ _ (hgiven _ _ (h.axes a))

/-- The bounds of an integer axis. -/
theorem intOf_bounds {b : Int × Int} (h : Axis.Allows a v) (hb : Axis.bounds a = some b) :
    b.1 ≤ intOf v ∧ intOf v ≤ b.2 := by
  rcases h.cases with ⟨n, rfl, -⟩ | ⟨_, rfl, rfl | rfl⟩ | ⟨_, rfl, rfl⟩
  · obtain ⟨b', hb', hbounds⟩ := h
    obtain rfl := Option.some.inj (hb.symm.trans hb')
    exact hbounds
  · cases hb
  · cases hb
  · cases hb

/-- The checked axes keep to the part of a stream. -/
theorem Parameters.Valid.formed (h : p.Valid layout) (hi : i < p.streamParams.length) (second : Bool)
    (dep : List Char → Nat) :
    (nativeAxes dep (p.axesOf i second)).Formed (p.banks layout) layout.numCls p.numRequests := by
  obtain ⟨_, hlayout, hcheck⟩ := except_bind_eq_ok.mp (h.checked i hi second)
  obtain ⟨_, hsplit, hindex⟩ := except_bind_eq_ok.mp hcheck
  have hlayout := not_or.mp (Scoring.raiseIf_eq_ok.mp hlayout)
  have hsplit := Scoring.raiseIf_eq_ok.mp hsplit
  have hindex := Scoring.raiseIf_eq_ok.mp hindex
  have hspread := intOf_bounds (h.allowed i second .bankSpread) rfl
  have hrun := intOf_bounds (h.allowed i second .rowRun) rfl
  have hjitter := intOf_bounds (h.allowed i second .jitter) rfl
  have hrequests := h.requests
  unfold intMax at *
  refine ⟨?_, ?_, fun hmode => ?_, ?_, ?_, CInt.fits_32.mpr ?_, CInt.fits_32.mpr ?_⟩
  · exact Int.lt_of_lt_of_le one_pos hspread.1
  · exact not_lt.mp hlayout.2
  · have hle : intOf (p.axesOf i second .bankSpread) ≤ p.banks layout / 2 :=
      not_lt.mp fun hlt => hsplit ⟨hmode, hlt⟩
    show 2 * intOf (p.axesOf i second .bankSpread) ≤ p.banks layout
    omega
  · exact Int.lt_of_lt_of_le one_pos hrun.1
  · exact not_lt.mp hlayout.1
  · show _ ≤ intOf (p.axesOf i second .jitter) + 1 ∧ intOf (p.axesOf i second .jitter) + 1 ≤ _
    omega
  · show _ ≤ p.numRequests + intOf (p.axesOf i second .bankSpread) - 2 ∧
      p.numRequests + intOf (p.axesOf i second .bankSpread) - 2 ≤ _
    omega

/-! ## What `init` makes of the parameters -/

/-- The numbers of a layout. -/
def Layout.numbers (layout : Layout) : List Nat :=
  layout.bankPositions ++ (layout.bankCounts ++ [layout.addrVecSize, layout.totalBankUnits, layout.rowPos,
    layout.colPos, layout.numRows, layout.numCols, layout.internalPrefetchSize, layout.numCls])

/-- The numbers are native integers, as those of a memory are. -/
def Layout.Native (layout : Layout) : Prop := ∀ n ∈ layout.numbers, CInt.Fits 32 (n : Int)

/-- The recipe of the native generator. -/
def recipe (p : Parameters) (layout : Layout) (txBytes : Int) : Pattern.Recipe where
  addrVecSize := layout.addrVecSize
  bankPositions := layout.bankPositions
  bankCounts := layout.bankCounts.map fun n : Nat => (n : Int)
  totalBankUnits := layout.totalBankUnits
  rowPos := layout.rowPos
  colPos := layout.colPos
  numRows := layout.numRows
  numCls := layout.numCls
  internalPrefetchSize := layout.internalPrefetchSize
  rowsPerStream := p.rows layout
  txBytes := txBytes

/-- The native stream with index `i`. -/
def nativeStream (dep : List Char → Nat) (p : Parameters) (layout : Layout) (i : Nat) : Pattern.StreamConfig where
  id := i
  a := nativeAxes dep (p.axesOf i false)
  b := nativeAxes dep (p.axesOf i true)
  modeSwitch := p.modeSwitch
  numRequests := p.numRequests
  seed := UInt64.ofInt p.seed + 7919 * UInt64.ofNat i
  bankBase := if p.shareRegion then 0 else i * p.banks layout
  rowBase := if p.shareRegion then 0 else i * p.rows layout

/-- The native generator. -/
def native (dep : List Char → Nat) (p : Parameters) (layout : Layout) (txBytes : Int) : Pattern.PatternConfig where
  recipe := recipe p layout txBytes
  streams := (List.range p.streams.toNat).map (nativeStream dep p layout)

theorem Parameters.Valid.partitions_pos (h : p.Valid layout) : 0 < p.partitions := by
  have hstreams := h.streams
  unfold Parameters.partitions
  split_ifs <;> omega

/-- What the streams have of `total` is within it. -/
theorem Parameters.Valid.part_bounds (h : p.Valid layout) {total : Int} (htotal : 0 ≤ total) (hi : i < p.streamParams.length)
    (hshare : p.shareRegion = false) :
    0 ≤ (i : Int) * (total / p.partitions) ∧ (i + 1 : Int) * (total / p.partitions) ≤ total := by
  have hpart : 0 ≤ total / p.partitions := Int.ediv_nonneg htotal h.partitions_pos.le
  have hpartitions : p.partitions = p.streams := by
    unfold Parameters.partitions
    rw [hshare]
    rfl
  have hle : (i + 1 : Int) ≤ p.partitions := by
    have hlength := h.length
    rw [hpartitions]
    omega
  refine ⟨Int.mul_nonneg (Int.natCast_nonneg i) hpart, ?_⟩
  calc (i + 1 : Int) * (total / p.partitions) ≤ p.partitions * (total / p.partitions) :=
        Int.mul_le_mul_of_nonneg_right hle hpart
    _ ≤ total := Int.mul_ediv_self_le h.partitions_pos.ne'

theorem perStream_eq (h : p.Valid layout) {total : Int} (htotal : 0 ≤ total) (hfits : CInt.Fits 32 total)
    (hpos : 0 < total / p.partitions) : Pattern.perStream p.shareRegion total p.streams = .ok (total / p.partitions) := by
  unfold Pattern.perStream
  unfold Parameters.partitions at hpos ⊢
  split_ifs at hpos ⊢ with hshare
  · rw [Int.ediv_one]
  · have hstreams := h.streams
    rw [CInt.div_eq htotal hfits (by omega)]
    exact congrArg Except.ok (max_eq_left hpos)

/-- Checked axes pass the native checks, and nothing is clamped. -/
theorem settle_eq (setup : Pattern.Setup) {banks numRequests : Int} (h : ax.Formed banks setup.numCls numRequests)
    (hbanks : setup.banksPerStream = banks) (hfits : CInt.Fits 32 banks) : setup.settle ax = .ok ax := by
  have hspread := h.spread_pos
  have hle := h.spread_le
  have hrun := h.run_pos
  have hrunle := h.run_le
  unfold Pattern.Setup.settle
  rw [hbanks, if_neg (by omega)]
  dsimp only
  by_cases hmode : ax.wbMode = 3
  · have hsplit := h.split hmode
    rw [if_pos hmode, CInt.mul_eq (hfits.of_le (by omega) (by omega))]
    show (if _ then _ else _) = _
    rw [if_neg (by omega), if_neg (by omega)]
    rfl
  · rw [if_neg hmode]
    show (if _ then _ else _) = _
    rw [if_neg (fun hthree => hmode hthree.1), if_neg (by omega)]
    rfl

theorem Layout.Native.fits (h : layout.Native) {n : Nat} (hn : n ∈ layout.numbers) : CInt.Fits 32 (n : Int) := h n hn

theorem Parameters.Valid.banks_fits (h : p.Valid layout) (hnative : layout.Native) : CInt.Fits 32 (p.banks layout) :=
  (hnative.fits (n := layout.totalBankUnits) (by simp [Layout.numbers])).of_le h.banks_pos.le
    (Int.ediv_le_self _ (Int.natCast_nonneg _))

/-- The first unit of a stream. -/
theorem first_eq (setup : Pattern.Setup) (h : p.Valid layout) {total : Nat} (hfits : CInt.Fits 32 (total : Int))
    (hi : i < p.streamParams.length) (hshare : setup.shareRegion = p.shareRegion) :
    setup.first i ((total : Int) / p.partitions) =
      .ok (if p.shareRegion then 0 else i * ((total : Int) / p.partitions)) := by
  unfold Pattern.Setup.first
  rw [hshare]
  split_ifs with hshared
  · rfl
  · rw [Bool.not_eq_true] at hshared
    obtain ⟨hnonneg, hle⟩ := h.part_bounds (Int.natCast_nonneg total) hi hshared
    have hpart : 0 ≤ (total : Int) / p.partitions := Int.ediv_nonneg (Int.natCast_nonneg _) h.partitions_pos.le
    rw [add_mul, one_mul] at hle
    rw [CInt.mul_eq (hfits.of_le hnonneg (by omega))]
    rfl

/-- The setup that `init` makes of the parameters. -/
def setupOf (dep : List Char → Nat) (p : Parameters) (layout : Layout) : Pattern.Setup where
  numRequests := p.numRequests
  modeSwitch := p.modeSwitch
  seed := UInt64.ofInt p.seed
  shareRegion := p.shareRegion
  base := nativeAxes dep p.axes
  segs := Pattern.split (['|'].intercalate (p.streamParams.map encoded)) '|'
  modeB := encoded p.modeB
  banksPerStream := p.banks layout
  rowsPerStream := p.rows layout
  numCls := layout.numCls

theorem stream_eq (h : p.Valid layout) (hdeps : p.DepsParse stof) (hnative : layout.Native)
    (hi : i < p.streamParams.length) :
    (setupOf (depOf stof) p layout).stream stof i = .ok (nativeStream (depOf stof) p layout i) := by
  have htotal : CInt.Fits 32 (layout.totalBankUnits : Int) := hnative.fits (by simp [Layout.numbers])
  have hrows : CInt.Fits 32 ((layout.numRows / 2 : Nat) : Int) :=
    (hnative.fits (n := layout.numRows) (by simp [Layout.numbers])).of_le (Int.natCast_nonneg _) (by omega)
  have hbankBase := first_eq (setupOf (depOf stof) p layout) h htotal hi rfl
  have hrowBase := first_eq (setupOf (depOf stof) p layout) h hrows hi rfl
  have hbanks := h.banks_fits hnative
  have ha := settle_eq (setupOf (depOf stof) p layout) (h.formed hi false (depOf stof)) rfl hbanks
  have hb := settle_eq (setupOf (depOf stof) p layout) (h.formed hi true (depOf stof)) rfl hbanks
  have hhalf : ((layout.numRows / 2 : Nat) : Int) = (layout.numRows : Int) / 2 := Int.natCast_div ..
  rw [hhalf] at hrowBase
  refine except_bind_eq_ok.mpr ⟨_, regimeA_eq hdeps hi rfl rfl, ?_⟩
  refine except_bind_eq_ok.mpr ⟨_, regimeB_eq hdeps rfl, ?_⟩
  refine except_bind_eq_ok.mpr ⟨_, hbankBase, ?_⟩
  refine except_bind_eq_ok.mpr ⟨_, hrowBase, ?_⟩
  refine except_bind_eq_ok.mpr ⟨_, ha, ?_⟩
  exact except_bind_eq_ok.mpr ⟨_, hb, rfl⟩

section Reading

variable {config : ConfigNode} {name : String}

theorem int_required {n : Int} (hget : config.get name = .ofJson (.int n)) (hfits : CInt.Fits 32 n) :
    (Pattern.param config name ConfigNode.asInt).required = .ok n :=
  ParamReader.required_eq_ok (hget.trans_ne fun hnull => by cases hnull)
    ((congrArg ConfigNode.asInt hget).trans (ConfigNode.asInt_ofJson hfits))

theorem int_default {n d : Int} (hget : config.get name = .ofJson (.int n)) (hfits : CInt.Fits 32 n) :
    (Pattern.param config name ConfigNode.asInt).defaultVal d = .ok n :=
  ParamReader.defaultVal_eq_ok (hget.trans_ne fun hnull => by cases hnull)
    ((congrArg ConfigNode.asInt hget).trans (ConfigNode.asInt_ofJson hfits))

theorem bool_default {b d : Bool} (hget : config.get name = .ofJson (.bool b)) :
    (Pattern.param config name ConfigNode.asBool).defaultVal d = .ok b :=
  ParamReader.defaultVal_eq_ok (hget.trans_ne fun hnull => by cases hnull)
    ((congrArg ConfigNode.asBool hget).trans (ConfigNode.asBool_ofJson b))

theorem str_default {cs d : List Char} (hget : config.get name = .ofJson (.str (String.ofList cs))) :
    (Pattern.param config name ConfigNode.asString).defaultVal d = .ok cs :=
  ParamReader.defaultVal_eq_ok (hget.trans_ne fun hnull => by cases hnull)
    ((congrArg ConfigNode.asString hget).trans (congrArg Except.ok String.toList_ofList))

theorem ints_required {ns : List Nat} (hget : config.get name = .ofJson (.arr (ns.map fun n : Nat => .int n)))
    (hfits : ∀ n ∈ ns, CInt.Fits 32 (n : Int)) :
    (Pattern.param config name ConfigNode.asInts).required = .ok (ns.map fun n : Nat => (n : Int)) := by
  have hread : (ConfigNode.ofJson (.arr ((ns.map fun n : Nat => (n : Int)).map .int))).asInts = .ok _ :=
    ConfigNode.asInts_ofJson fun n hn => by
      obtain ⟨m, hm, rfl⟩ := List.mem_map.mp hn
      exact hfits m hm
  rw [List.map_map] at hread
  exact ParamReader.required_eq_ok (hget.trans_ne fun hnull => by cases hnull)
    ((congrArg ConfigNode.asInts hget).trans hread)

end Reading

theorem get_axis (p : Parameters) (layout : Layout) (a : Axis) :
    (ConfigNode.ofJson (configuration p layout)).get a.name = .ofJson (p.axes a) := by
  unfold configuration
  rw [ConfigNode.get_ofJson]
  cases a <;> simp [Layout.items, generatorParameters, Axis.all, Axis.name, List.lookup_cons]

/-- A parameter that stands in the configuration. -/
theorem get_of_lookup {name : String} (p : Parameters) (layout : Layout)
    (h : (("impl", Json.str "SyntheticPattern") :: ("clock_ratio", .int 1) ::
      (layout.items ++ generatorParameters p)).lookup name = some v) :
    (ConfigNode.ofJson (configuration p layout)).get name = .ofJson v := by
  unfold configuration
  rw [ConfigNode.get_ofJson, h]
  rfl

/-- The other parameters of the configuration. -/
structure Given (p : Parameters) (layout : Layout) (config : ConfigNode) : Prop where
  clockRatio : config.get "clock_ratio" = .ofJson (.int 1)
  numRequests : config.get "num_requests" = .ofJson (.int p.numRequests)
  streams : config.get "streams" = .ofJson (.int p.streams)
  streamParams : config.get "stream_params" =
    .ofJson (.str (String.ofList (['|'].intercalate (p.streamParams.map encoded))))
  modeSwitch : config.get "mode_switch" = .ofJson (.int p.modeSwitch)
  modeB : config.get "mode_b" = .ofJson (.str (String.ofList (encoded p.modeB)))
  shareRegion : config.get "share_region" = .ofJson (.bool p.shareRegion)
  seed : config.get "seed" = .ofJson (.int p.seed)
  addrVecSize : config.get "addr_vec_size" = .ofJson (.int layout.addrVecSize)
  totalBankUnits : config.get "total_bank_units" = .ofJson (.int layout.totalBankUnits)
  rowPos : config.get "row_pos" = .ofJson (.int layout.rowPos)
  colPos : config.get "col_pos" = .ofJson (.int layout.colPos)
  numRows : config.get "num_rows" = .ofJson (.int layout.numRows)
  numCols : config.get "num_cols" = .ofJson (.int layout.numCols)
  internalPrefetchSize : config.get "internal_prefetch_size" = .ofJson (.int layout.internalPrefetchSize)
  numCls : config.get "num_cls" = .ofJson (.int layout.numCls)
  bankPositions : config.get "bank_positions" = .ofJson (.arr (layout.bankPositions.map fun n : Nat => .int n))
  bankCounts : config.get "bank_counts" = .ofJson (.arr (layout.bankCounts.map fun n : Nat => .int n))

theorem given_configuration (p : Parameters) (layout : Layout) :
    Given p layout (.ofJson (configuration p layout)) := by
  constructor <;>
    exact get_of_lookup p layout (by simp [Layout.items, generatorParameters, Axis.all, Axis.name, List.lookup_cons])

/-- The native generator takes the parameters that `parameters` returns, with the same axes. -/
theorem init_configuration (h : p.Valid layout) (hdeps : p.DepsParse stof) (hnative : layout.Native) (txBytes : Int) :
    Pattern.init stof txBytes (.ofJson (configuration p layout)) = .ok (native (depOf stof) p layout txBytes) := by
  have hrequests := h.requests
  have hstreams := h.streams
  have hmodeSwitch := h.modeSwitch
  have hseed := h.seed
  unfold intMax at hrequests hstreams hmodeSwitch
  have hbanks := perStream_eq h (Int.natCast_nonneg layout.totalBankUnits)
    (hnative.fits (by simp [Layout.numbers])) h.banks_pos
  have hrowsFit : CInt.Fits 32 (layout.numRows : Int) := hnative.fits (by simp [Layout.numbers])
  have hhalf : 0 ≤ (layout.numRows : Int) / 2 := Int.ediv_nonneg (Int.natCast_nonneg _) (by decide)
  have hrows := perStream_eq h hhalf
    (hrowsFit.of_le hhalf (Int.ediv_le_self _ (Int.natCast_nonneg _))) h.rows_pos
  have hlength : p.streams.toNat = p.streamParams.length := by
    have hlen := h.length
    omega
  have hmapM : (List.range p.streams.toNat).mapM ((setupOf (depOf stof) p layout).stream stof) =
      .ok ((List.range p.streams.toNat).map (nativeStream (depOf stof) p layout)) := by
    refine mapM_ok.mpr (List.forall₂_map_right_iff.mpr (List.forall₂_same.mpr fun i hi => ?_))
    exact stream_eq h hdeps hnative (hlength ▸ List.mem_range.mp hi)
  have hcounts : ∀ n ∈ layout.bankCounts, CInt.Fits 32 (n : Int) := fun n hn =>
    hnative.fits (List.mem_append_right _ (List.mem_append_left _ hn))
  have hpositions : ∀ n ∈ layout.bankPositions, CInt.Fits 32 (n : Int) := fun n hn =>
    hnative.fits (List.mem_append_left _ hn)
  have hgiven := given_configuration p layout
  have hclock : (Pattern.param (.ofJson (configuration p layout)) "clock_ratio" ConfigNode.asUnsigned).required =
      .ok 1 :=
    ParamReader.required_eq_ok (hgiven.clockRatio.trans_ne fun hnull => by cases hnull)
      ((congrArg ConfigNode.asUnsigned hgiven.clockRatio).trans (by decide))
  have hseedRead : (Pattern.param (.ofJson (configuration p layout)) "seed" ConfigNode.asUInt64).defaultVal 1 =
      .ok (UInt64.ofInt p.seed) :=
    ParamReader.defaultVal_eq_ok (hgiven.seed.trans_ne fun hnull => by cases hnull)
      ((congrArg ConfigNode.asUInt64 hgiven.seed).trans (ConfigNode.asUInt64_ofJson (by omega)))
  have hlist {n : Nat} (hn : n ∈ [layout.addrVecSize, layout.totalBankUnits, layout.rowPos, layout.colPos,
      layout.numRows, layout.numCols, layout.internalPrefetchSize, layout.numCls]) : CInt.Fits 32 (n : Int) :=
    hnative.fits (List.mem_append_right _ (List.mem_append_right _ hn))
  -- the parameters, in the order in which `init` reads them
  unfold Pattern.init
  refine except_bind_eq_ok.mpr ⟨_, hclock, ?_⟩
  refine except_bind_eq_ok.mpr ⟨_, int_required hgiven.numRequests (CInt.fits_32.mpr (by omega)), ?_⟩
  refine except_bind_eq_ok.mpr ⟨_, int_default hgiven.streams (CInt.fits_32.mpr (by omega)), ?_⟩
  refine except_bind_eq_ok.mpr ⟨_, str_default hgiven.streamParams, ?_⟩
  refine except_bind_eq_ok.mpr ⟨_, int_default hgiven.modeSwitch (CInt.fits_32.mpr (by omega)), ?_⟩
  refine except_bind_eq_ok.mpr ⟨_, str_default hgiven.modeB, ?_⟩
  refine except_bind_eq_ok.mpr ⟨_, bool_default hgiven.shareRegion, ?_⟩
  refine except_bind_eq_ok.mpr ⟨_, read_all (get_axis p layout) h.axes hdeps.base, ?_⟩
  refine except_bind_eq_ok.mpr ⟨_, hseedRead, ?_⟩
  refine except_bind_eq_ok.mpr ⟨_, int_required hgiven.addrVecSize (hlist (by simp)), ?_⟩
  refine except_bind_eq_ok.mpr ⟨_, int_required hgiven.totalBankUnits (hlist (by simp)), ?_⟩
  refine except_bind_eq_ok.mpr ⟨_, int_required hgiven.rowPos (hlist (by simp)), ?_⟩
  refine except_bind_eq_ok.mpr ⟨_, int_required hgiven.colPos (hlist (by simp)), ?_⟩
  refine except_bind_eq_ok.mpr ⟨_, int_required hgiven.numRows (hlist (by simp)), ?_⟩
  refine except_bind_eq_ok.mpr ⟨_, int_required hgiven.numCols (hlist (by simp)), ?_⟩
  refine except_bind_eq_ok.mpr ⟨_, int_required hgiven.internalPrefetchSize (hlist (by simp)), ?_⟩
  refine except_bind_eq_ok.mpr ⟨_, int_required hgiven.numCls (hlist (by simp)), ?_⟩
  refine except_bind_eq_ok.mpr ⟨_, ints_required hgiven.bankPositions hpositions, ?_⟩
  refine except_bind_eq_ok.mpr ⟨_, ints_required hgiven.bankCounts hcounts, ?_⟩
  rw [if_neg (by omega)]
  refine except_bind_eq_ok.mpr ⟨_, hbanks, ?_⟩
  have hhalfRead : checked (CInt.div 32 (layout.numRows : Int) 2) = .ok ((layout.numRows : Int) / 2) := by
    rw [CInt.div_eq (Int.natCast_nonneg _) hrowsFit (by decide)]
    rfl
  refine except_bind_eq_ok.mpr ⟨_, hhalfRead, ?_⟩
  refine except_bind_eq_ok.mpr ⟨_, hrows, ?_⟩
  refine except_bind_eq_ok.mpr ⟨_, hmapM, ?_⟩
  have htoNat : (layout.bankPositions.map fun n : Nat => (n : Int)).map Int.toNat = layout.bankPositions := by
    rw [List.map_map]
    exact List.map_id'' (fun n => Int.toNat_natCast n) _
  rw [htoNat]
  rfl

/-! ## Addresses -/

/-- A layout of a memory of some size, whose cells have 64-bit numbers. -/
structure Layout.Sized (layout : Layout) : Prop where
  total_eq : layout.totalBankUnits = layout.bankCounts.prod
  rows_pos : 1 ≤ layout.numRows
  cls_pos : 1 ≤ layout.numCls
  column_fits : ∀ cl < layout.numCls, CInt.Fits 32 ((cl : Int) * layout.internalPrefetchSize)
  cells_lt : layout.totalBankUnits * layout.numRows * layout.numCls < 2 ^ 63

theorem volume_eq_prod (ns : List Nat) : MixedRadix.volume ns = ns.prod := by
  induction ns with
  | nil => rfl
  | cons n ns ih =>
      rw [List.prod_cons, ← ih]
      rfl

theorem counts_recipe (p : Parameters) (layout : Layout) (txBytes : Int) :
    (recipe p layout txBytes).counts = layout.bankCounts := by
  show (layout.bankCounts.map fun n : Nat => (n : Int)).map Int.toNat = _
  rw [List.map_map]
  exact List.map_id'' (fun n => Int.toNat_natCast n) _

theorem Parameters.Valid.total_pos (h : p.Valid layout) : 0 < layout.totalBankUnits := by
  refine Nat.pos_of_ne_zero fun hzero => absurd h.banks_pos ?_
  unfold Parameters.banks
  rw [hzero, Nat.cast_zero, Int.zero_ediv]
  exact lt_irrefl 0

theorem recipe_formed (h : p.Valid layout) (hshape : layout.Shaped) (hnative : layout.Native) (hsized : layout.Sized)
    (txBytes : Int) : (recipe p layout txBytes).Formed where
  length_counts := (List.length_map ..).trans hshape.length_counts
  positions_nodup := hshape.positions_nodup
  positions_lt := hshape.positions_lt
  row_lt := hshape.row_lt
  column_lt := hshape.column_lt
  row_not_mem := hshape.row_not_mem
  column_not_mem := hshape.column_not_mem
  row_ne_column := hshape.row_ne_column
  counts_pos n hn := by
    obtain ⟨m, hm, rfl⟩ := List.mem_map.mp hn
    have hne : m ≠ 0 := fun hzero => by
      have htotal := h.total_pos
      rw [hsized.total_eq, ← volume_eq_prod, MixedRadix.volume_eq_zero (hzero ▸ hm)] at htotal
      exact absurd htotal (lt_irrefl 0)
    exact Int.natCast_pos.mpr (Nat.pos_of_ne_zero hne)
  total_eq := by
    rw [counts_recipe, volume_eq_prod, ← hsized.total_eq]
    rfl
  total_fits := hnative.fits (by simp [Layout.numbers])
  rows_pos := Int.natCast_pos.mpr hsized.rows_pos
  rows_fits := hnative.fits (by simp [Layout.numbers])
  cls_pos := Int.natCast_pos.mpr hsized.cls_pos
  prefetch_pos := Int.natCast_pos.mpr hshape.prefetch_pos
  column_fits cl hnonneg hlt := by
    obtain ⟨m, rfl⟩ := Int.eq_ofNat_of_zero_le hnonneg
    exact hsized.column_fits m (Int.ofNat_lt.mp hlt)
  cells_fit := by
    have hcells := hsized.cells_lt
    show (layout.totalBankUnits : Int) * layout.numRows * layout.numCls < 2 ^ 63
    exact_mod_cast hcells
  rowsPerStream_nonneg := h.rows_pos.le
  rowsPerStream_fits := by
    have hrows : CInt.Fits 32 (layout.numRows : Int) := hnative.fits (by simp [Layout.numbers])
    have hhalf : 0 ≤ (layout.numRows : Int) / 2 := Int.ediv_nonneg (Int.natCast_nonneg _) (by decide)
    exact hrows.of_le h.rows_pos.le
      ((Int.ediv_le_self _ hhalf).trans (Int.ediv_le_self _ (Int.natCast_nonneg _)))

/-- A region of a stream, rounded up to two rows, lies within the rows of the memory. -/
theorem nativeStream_formed (h : p.Valid layout) (hi : i < p.streamParams.length) (dep : List Char → Nat)
    (txBytes : Int) :
    (nativeStream dep p layout i).Formed (recipe p layout txBytes) (p.banks layout) := by
  have hrequests := h.requests
  have htotal : (0 : Int) ≤ layout.totalBankUnits := Int.natCast_nonneg _
  have hhalf : 0 ≤ (layout.numRows : Int) / 2 := Int.ediv_nonneg (Int.natCast_nonneg _) (by decide)
  have hrows := h.rows_pos
  have hbase (part : Int) {total : Int} (hpart : part = total / p.partitions) (hnonneg : 0 ≤ total) :
      0 ≤ (if p.shareRegion then 0 else (i : Int) * part) ∧
        (if p.shareRegion then 0 else (i : Int) * part) + part ≤ total := by
    subst hpart
    split_ifs with hshare
    · rw [zero_add]
      exact ⟨le_rfl, Int.ediv_le_self _ hnonneg⟩
    · obtain ⟨hfirst, hlast⟩ := h.part_bounds hnonneg hi (Bool.not_eq_true _ ▸ hshare)
      rw [add_mul, one_mul] at hlast
      exact ⟨hfirst, hlast⟩
  obtain ⟨hbank, hbanks⟩ := hbase (p.banks layout) rfl htotal
  obtain ⟨hrow, hrowEnd⟩ := hbase (p.rows layout) rfl hhalf
  refine ⟨h.formed hi false dep, h.formed hi true dep, hbank, hbanks, hrow, ?_, CInt.fits_32.mpr ?_⟩
  · show (if p.shareRegion then 0 else (i : Int) * p.rows layout) + 2 * max (p.rows layout / 2) 1 ≤ layout.numRows
    omega
  · unfold intMax at hrequests
    show _ ≤ p.numRequests ∧ p.numRequests ≤ _
    omega

theorem mem_native {dep : List Char → Nat} {txBytes : Int} {sc : Pattern.StreamConfig} {j : Nat} (h : p.Valid layout)
    (hj : (native dep p layout txBytes).streams[j]? = some sc) :
    j < p.streamParams.length ∧ sc = nativeStream dep p layout j := by
  have hlength := h.length
  unfold native at hj
  rw [List.getElem?_map] at hj
  obtain ⟨i, hi, rfl⟩ := Option.map_eq_some_iff.mp hj
  obtain ⟨hlt, hvalue⟩ := List.getElem?_eq_some_iff.mp hi
  rw [List.getElem_range] at hvalue
  rw [List.length_range] at hlt
  exact ⟨by omega, by rw [hvalue]⟩

/-- For a request that passes the checks, the native generator starts with the same axes, and its addresses are well
formed. -/
theorem pattern_addresses (request : SyntheticRequest) (limits : SyntheticLimits) (layout : Layout) (p : Parameters)
    (stof : FloatReader) (txBytes : Int) (hshape : layout.Shaped) (hnative : layout.Native) (hsized : layout.Sized)
    (h : request.parameters limits layout = .ok p) (hdeps : p.DepsParse stof) :
    ∃ cfg, Pattern.init stof txBytes (.ofJson (configuration p layout)) = .ok cfg ∧
      (cfg.streams.length : Int) = p.streams ∧
      (∀ i sc, cfg.streams[i]? = some sc →
        sc.a = nativeAxes (depOf stof) (p.axesOf i false) ∧ sc.b = nativeAxes (depOf stof) (p.axesOf i true) ∧
          sc.numRequests = p.numRequests ∧ sc.modeSwitch = p.modeSwitch) ∧
      cfg.AddressesFormed p.shareRegion := by
  have hvalid := parameters_valid h
  refine ⟨native (depOf stof) p layout txBytes, init_configuration hvalid hdeps hnative txBytes, ?_, ?_, ?_⟩
  · have hstreams := hvalid.streams
    show (((List.range p.streams.toNat).map _).length : Int) = p.streams
    rw [List.length_map, List.length_range]
    omega
  · intro i sc hi
    obtain ⟨-, rfl⟩ := mem_native hvalid hi
    exact ⟨rfl, rfl, rfl, rfl⟩
  · refine Pattern.addressesFormed (p.banks layout) (recipe_formed hvalid hshape hnative hsized txBytes)
      (fun sc hmem => ?_) fun hshare j k sc sc' hjk hj hk => ?_
    · obtain ⟨j, hj⟩ := List.mem_iff_getElem?.mp hmem
      obtain ⟨hlt, rfl⟩ := mem_native hvalid hj
      exact nativeStream_formed hvalid hlt (depOf stof) txBytes
    · obtain ⟨-, rfl⟩ := mem_native hvalid hj
      obtain ⟨-, rfl⟩ := mem_native hvalid hk
      have hbanks := hvalid.banks_pos.le
      have hstep {m n : Nat} (hmn : m < n) : (m : Int) * p.banks layout + p.banks layout ≤ n * p.banks layout := by
        have hle := Int.mul_le_mul_of_nonneg_right (show (m + 1 : Int) ≤ n by omega) hbanks
        rwa [add_mul, one_mul] at hle
      show (if p.shareRegion then 0 else (j : Int) * p.banks layout) + p.banks layout ≤
          (if p.shareRegion then 0 else (k : Int) * p.banks layout) ∨
        (if p.shareRegion then 0 else (k : Int) * p.banks layout) + p.banks layout ≤
          (if p.shareRegion then 0 else (j : Int) * p.banks layout)
      rw [hshare]
      rcases Nat.lt_or_gt_of_ne hjk with hlt | hlt
      · exact .inl (hstep hlt)
      · exact .inr (hstep hlt)

/-- Four banks, eight rows and four lines. -/
def smallLayout : Layout where
  addrVecSize := 5
  bankPositions := [2, 1]
  bankCounts := [2, 2]
  totalBankUnits := 4
  rowPos := 3
  colPos := 4
  numRows := 8
  numCols := 64
  internalPrefetchSize := 16
  numCls := 4

/-- Two streams of five reads, that write to other banks in the second regime. -/
def smallRequest : SyntheticRequest where
  axes := Function.update Axis.default .rowRun (.int 3)
  numRequests := some 5
  streams := 2
  seed := 1
  shareRegion := false
  modeSwitch := 2
  modeB := ⟨fun a => if a = .wbMode then some (.int 3) else none, fun a v h => by
    split_ifs at h with hmode
    obtain rfl := Option.some.inj h
    exact hmode ▸ ⟨_, rfl, by decide, by decide⟩⟩
  streamParams := []
  axes_allowed a := by
    by_cases hrun : a = .rowRun
    · subst hrun
      rw [Function.update_self]
      exact ⟨_, rfl, by decide, by decide⟩
    · rw [Function.update_of_ne hrun]
      exact Axis.default_allowed a
  numRequests_allowed n h := Option.some.inj h ▸ ⟨by decide, by decide⟩
  streams_allowed := ⟨by decide, by decide⟩
  seed_allowed := ⟨by decide, by decide⟩
  modeSwitch_allowed := ⟨by decide, by decide⟩

def smallLimits : SyntheticLimits where
  requestsPerStream := 10
  maximumTotalReads := 100
  requestsPerStream_pos := by decide
  population_fits := by decide

/-- The parameters of the small request. -/
def smallParameters : Parameters where
  axes := smallRequest.axes
  numRequests := 5
  streams := 2
  seed := 1
  shareRegion := false
  modeSwitch := 2
  modeB := smallRequest.modeB
  streamParams := [.unset, .unset]

theorem pattern_addresses_small : ∃ cfg,
    Pattern.init (fun _ => .ok 0) 64 (.ofJson (configuration smallParameters smallLayout)) = .ok cfg ∧
      (cfg.streams.length : Int) = smallParameters.streams ∧
      (∀ i sc, cfg.streams[i]? = some sc →
        sc.a = nativeAxes (depOf fun _ => .ok 0) (smallParameters.axesOf i false) ∧
          sc.b = nativeAxes (depOf fun _ => .ok 0) (smallParameters.axesOf i true) ∧
          sc.numRequests = smallParameters.numRequests ∧ sc.modeSwitch = smallParameters.modeSwitch) ∧
      cfg.AddressesFormed smallParameters.shareRegion :=
  pattern_addresses smallRequest smallLimits smallLayout smallParameters (fun _ => .ok 0) 64
    ⟨rfl, by decide, by decide, by decide, by decide, by decide, by decide, by decide, by decide⟩
    (by unfold Layout.Native; decide)
    ⟨rfl, by decide, by decide, by decide, by decide⟩ rfl
    ⟨⟨0, rfl⟩, fun _ _ => ⟨0, rfl⟩, fun _ _ _ _ => ⟨0, rfl⟩⟩

end Ramulator.ChiaLoop.Diagnostic
