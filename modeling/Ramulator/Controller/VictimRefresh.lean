/-
# Ramulator.Controller.VictimRefresh — plugins that count activations and request victim-row refreshes.

`Graphene`, `TWiCeIdeal`, `OracleRH` and `Hydra` (`controller/plugin/impl`) count the activations of rows,
each in tables of its own. A row whose count reaches the threshold gets a `VRR` through `priority_send`,
and its counter starts again. None of them looks at what `priority_send` returns. So a notification is a
function of the tables, and its requests are what the tick enqueues on the issued command; whether the
`VRR` is among those that were accepted depends on the room left in the buffer.

Loops over hash maps take the order of their entries as an input, the eviction policy its random number.
-/
import Ramulator.Controller.RowSwap
import Mathlib.Data.Nat.Log

namespace Ramulator.Controller

open Ramulator.Base (Request)
open Ramulator.Dram Ramulator.Lib

variable {K : Type}

/-- A notification: the tables afterwards, the requests in the order in which they are sent, and the bank
and row whose counter was reset because it reached the threshold. Nothing reads `reset`. -/
structure Outcome (σ K : Type) where
  state : σ
  sends : List (Request Command K) := []
  reset : Option (Int × Int) := none

/-- What a notification does not determine by itself: the order in which entries of a hash map are
visited, and a random number. -/
structure Visit where
  order : List Int := []
  draw : Nat := 0

/-- The command opens a row of one bank. -/
def isActivation (c : Command) : Bool := c.commandMeta.isOpening && c.bankTarget == .single

/-- The command refreshes all banks. -/
def isAllBankRefresh (c : Command) : Bool := c.commandMeta.isRefreshing && c.bankTarget == .all

/-- The request with the address of the activation. -/
def vrrRequest (addr : AddrVec) : Request Command K := Request.ofCommand addr .VRR

/-! ## Graphene -/

structure GrapheneConfig where
  spec : Standard
  numTableEntries : Nat
  activationThreshold : Int
  resetPeriodClk : Int

structure Graphene where
  clk : Int := 0
  activationCountTable : Int → List (Int × Int)
  spilloverCounter : Int → Int := fun _ => 0

namespace Graphene

/-- `setup` fills every table with entries of rows that do not exist. -/
def init (cfg : GrapheneConfig) : Graphene where
  activationCountTable := fun _ =>
    (List.range cfg.numTableEntries).map fun j => (-(cfg.spec.levelSize cfg.spec.rowLevel : Int) + j, 0)

/-- `pre_schedule`: periodically, all counts are zeroed. -/
def preSchedule (cfg : GrapheneConfig) (s : Graphene) : Except String Graphene :=
  let s := { s with clk := s.clk + 1 }
  if cfg.resetPeriodClk = 0 then .error "reset_period_ns is less than a cycle"
  else if s.clk % cfg.resetPeriodClk = 0 then
    .ok { s with
      activationCountTable := fun b => (s.activationCountTable b).map fun e => (e.1, 0)
      spilloverCounter := fun _ => 0 }
  else .ok s

def setTable (bank : Int) (m : List (Int × Int)) (s : Graphene) : Graphene :=
  { s with activationCountTable := Function.update s.activationCountTable bank m }

/-- `on_issue`. A row that enters the table is not compared with the threshold. -/
def onIssue (cfg : GrapheneConfig) (c : Command) (addr : AddrVec) (visiting : Visit) (s : Graphene) :
    Outcome Graphene K :=
  if isActivation c = false then { state := s }
  else
    let bank := cfg.spec.flatBankId addr
    let row := addr.coord cfg.spec.rowLevel
    let m := s.activationCountTable bank
    let spillover := s.spilloverCounter bank
    match m.lookup row with
    | none =>
        match (visit visiting.order m).find? (fun e => e.2 = spillover) with
        | some (toRemove, value) =>
            { state := s.setTable bank (assign row (value + 1) (eraseKey toRemove m)) }
        | none =>
            { state := { s with spilloverCounter := Function.update s.spilloverCounter bank (spillover + 1) } }
    | some count =>
        if count + 1 ≥ cfg.activationThreshold then
          { state := s.setTable bank (assign row spillover m)
            sends := [vrrRequest addr]
            reset := some (bank, row) }
        else { state := s.setTable bank (assign row (count + 1) m) }

end Graphene

/-! ## TWiCe -/

/-- The configuration of `TWiCeIdeal`. `prunes count life` is the comparison
`act_count < life * twice_pruning_interval_threshold` of floats. -/
structure TWiCeConfig where
  spec : Standard
  twiceRhThreshold : Int
  prunes : Int → Int → Bool

structure TwiCeEntry where
  actCount : Int
  life : Int

structure TWiCeIdeal where
  twiceTable : Int → List (Int × TwiCeEntry) := fun _ => []

namespace TWiCeIdeal

/-- What a refresh of all banks does to a table: rows with few activations for their life are pruned. -/
def prune (cfg : TWiCeConfig) (m : List (Int × TwiCeEntry)) : List (Int × TwiCeEntry) :=
  (m.filter fun e => !cfg.prunes e.2.actCount e.2.life).map fun e =>
    (e.1, { e.2 with life := e.2.life + 1 })

def setTable (bank : Int) (m : List (Int × TwiCeEntry)) (s : TWiCeIdeal) : TWiCeIdeal :=
  { twiceTable := Function.update s.twiceTable bank m }

/-- `on_issue`. A row that enters the table is not compared with the threshold. -/
def onIssue (cfg : TWiCeConfig) (c : Command) (addr : AddrVec) (s : TWiCeIdeal) :
    Outcome TWiCeIdeal K :=
  if isAllBankRefresh c then { state := { twiceTable := fun b => prune cfg (s.twiceTable b) } }
  else if isActivation c = false then { state := s }
  else
    let bank := cfg.spec.flatBankId addr
    let row := addr.coord cfg.spec.rowLevel
    let m := s.twiceTable bank
    match m.lookup row with
    | none => { state := s.setTable bank (assign row ⟨1, 0⟩ m) }
    | some entry =>
        if entry.actCount + 1 ≥ cfg.twiceRhThreshold then
          { state := s.setTable bank (eraseKey row m)
            sends := [vrrRequest addr]
            reset := some (bank, row) }
        else { state := s.setTable bank (assign row { entry with actCount := entry.actCount + 1 } m) }

end TWiCeIdeal

/-! ## OracleRH -/

structure OracleRHConfig where
  spec : Standard
  rhThreshold : Int
  rankLevel : Nat

/-- `m_num_banks_per_rank`. -/
def OracleRHConfig.numBanksPerRank (cfg : OracleRHConfig) : Int :=
  cfg.spec.bankCount / cfg.spec.levelSize cfg.rankLevel

/-- The counts, zero for a row that has none. -/
structure OracleRH where
  table : Int → Int → Int := fun _ _ => 0

namespace OracleRH

/-- The tables of the banks of a rank are cleared. -/
def clearRank (cfg : OracleRHConfig) (rank : Int) (s : OracleRH) : OracleRH :=
  { table := fun b =>
      if rank * cfg.numBanksPerRank ≤ b ∧ b < (rank + 1) * cfg.numBanksPerRank then fun _ => 0
      else s.table b }

def setCount (bank row count : Int) (s : OracleRH) : OracleRH :=
  { table := Function.update s.table bank (Function.update (s.table bank) row count) }

/-- `on_issue`: an activation is counted; a refresh of all banks of a rank clears their counts. -/
def onIssue (cfg : OracleRHConfig) (c : Command) (addr : AddrVec) (s : OracleRH) :
    Outcome OracleRH K :=
  let out : Outcome OracleRH K :=
    if isActivation c then
      let bank := cfg.spec.flatBankId addr
      let row := addr.coord cfg.spec.rowLevel
      let count := s.table bank row + 1
      if count ≥ cfg.rhThreshold then
        { state := s.setCount bank row 0
          sends := [vrrRequest addr]
          reset := some (bank, row) }
      else { state := s.setCount bank row count }
    else { state := s }
  if isAllBankRefresh c then
    { out with state := out.state.clearRank cfg (addr.coord cfg.rankLevel) }
  else out

end OracleRH

/-! ## Hydra -/

inductive RCCPolicy where
  | random
  | minCount
  | unknown (name : String)

/-- The parameters of `Hydra`, and what its `setup` derives from them. `totalRctRowSize` comes from a
division of floats. The bounds are what `setup` needs to go through: a threshold of one makes counters of
no bits, by whose width it divides; fewer than sixteen cache entries make no set; and with more sets than
rows tags are shifted by a negative number. -/
structure HydraConfig where
  spec : Standard
  rankLevel : Nat
  colLevel : Nat
  trackingThreshold : Int
  groupThreshold : Int
  rowGroupSize : Nat
  resetPeriodClk : Int
  rccNumPerRank : Nat
  rccPolicy : RCCPolicy
  totalRctRowSize : Nat
  tracking_gt : 1 < trackingThreshold
  rowGroup_pos : 0 < rowGroupSize
  rcc_ge : 16 ≤ rccNumPerRank
  rcc_le : (rccNumPerRank / 16).log2 ≤ (spec.levelSize spec.rowLevel).log2

namespace HydraConfig

def numBanksPerRank (cfg : HydraConfig) : Int := cfg.spec.bankCount / cfg.spec.levelSize cfg.rankLevel

def numRowsPerBank (cfg : HydraConfig) : Nat := cfg.spec.levelSize cfg.spec.rowLevel

def numCls (cfg : HydraConfig) : Nat := cfg.spec.levelSize cfg.colLevel / 8

def rowAddressBits (cfg : HydraConfig) : Nat := cfg.numRowsPerBank.log2

/-- `m_counter_bits`: whole bytes. -/
def counterBits (cfg : HydraConfig) : Nat := (Nat.clog 2 cfg.trackingThreshold.toNat + 7) / 8 * 8

/-- `m_gct_index_bits`. Where a group has more rows than a bank, the table has no entries and the source
converts `std::log2(0)` to an integer, which is no defined value; here it is zero. -/
def gctIndexBits (cfg : HydraConfig) : Nat := (cfg.numRowsPerBank / cfg.rowGroupSize).log2

def rccIndexBits (cfg : HydraConfig) : Nat := (cfg.rccNumPerRank / 16).log2

def rccTagRowBits (cfg : HydraConfig) : Nat := cfg.rowAddressBits - cfg.rccIndexBits

def rctPerRow (cfg : HydraConfig) : Nat := cfg.numCls * 512 / cfg.counterBits

def rctPerCl (cfg : HydraConfig) : Nat := 512 / cfg.counterBits

def groupRctClSize (cfg : HydraConfig) : Nat := cfg.rowGroupSize * cfg.counterBits / 512

def gctIndex (cfg : HydraConfig) (row : Nat) : Nat := row >>> (cfg.rowAddressBits - cfg.gctIndexBits)

def rccIndex (cfg : HydraConfig) (row : Nat) : Nat := row % 2 ^ cfg.rccIndexBits

/-- `rcc_tag`: the upper bits of the row, and above them the bank within the rank. -/
def rccTag (cfg : HydraConfig) (row bank : Nat) : Nat :=
  row >>> (cfg.rowAddressBits - cfg.rccTagRowBits) ||| bank <<< cfg.rccTagRowBits

end HydraConfig

structure GCTEntry where
  groupCount : Int := 0
  initialized : Bool := false

structure RCCEntry where
  rowId : Nat
  flatBankId : Int
  count : Int
  dirty : Bool
  addrTemplate : AddrVec

/-- The tables of the plugin. Maps that are only asked for single keys are functions, with the value that
a missing key is given. -/
structure Hydra where
  clk : Int := 0
  gct : Int → Nat → GCTEntry := fun _ _ => {}
  rct : Int → Nat → Int := fun _ _ => 0
  rctct : Int → Int → Int := fun _ _ => 0
  rcc : Int → Nat → List (Nat × RCCEntry) := fun _ _ => []

namespace Hydra

/-- `pre_schedule`: periodically, all tables are cleared. -/
def preSchedule (cfg : HydraConfig) (s : Hydra) : Except String Hydra :=
  let clk := s.clk + 1
  if cfg.resetPeriodClk = 0 then .error "hydra_reset_period_ns is less than a cycle"
  else if clk % cfg.resetPeriodClk = 0 then .ok { clk := clk }
  else .ok { s with clk := clk }

/-- `generate_row_col_id`. -/
def generateRowColId (cfg : HydraConfig) (workloadRow : Nat) : Nat × Nat :=
  (workloadRow / cfg.rctPerRow, (workloadRow % cfg.rctPerRow * cfg.counterBits / 512) <<< 3)

/-- `issue_rct_access`: an `ACT` and a column command at the row that holds the counter. -/
def issueRctAccess (cfg : HydraConfig) (isWrite : Bool) (workloadRow : Nat) (template : AddrVec) :
    List (Request Command K) :=
  let (rctRow, rctCol) := generateRowColId cfg workloadRow
  let addr := (template.set cfg.spec.rowLevel rctRow).set cfg.colLevel rctCol
  [.ofCommand addr .ACT, .ofCommand addr (if isWrite then .WR else .RD)]

/-- The first of the entries of the least count. -/
def leastCount : List (Nat × RCCEntry) → Option (Nat × RCCEntry)
  | [] => none
  | e :: es => some (es.foldl (fun least e => if e.2.count < least.2.count then e else least) e)

/-- `get_tag_to_evict`. -/
def getTagToEvict (cfg : HydraConfig) (visiting : Visit) (set : List (Nat × RCCEntry)) :
    Except String (Option Nat) :=
  let entries := visit (visiting.order.map Int.toNat) set
  match cfg.rccPolicy with
  | .random => .ok (entries[visiting.draw % set.length]?.map Prod.fst)
  | .minCount => .ok ((leastCount entries).map Prod.fst)
  | .unknown name => .error ("Hydra: Unknown RCC eviction policy: " ++ name)

def setRct (bank : Int) (row : Nat) (count : Int) (s : Hydra) : Hydra :=
  { s with rct := Function.update s.rct bank (Function.update (s.rct bank) row count) }

def setGct (bank : Int) (i : Nat) (entry : GCTEntry) (s : Hydra) : Hydra :=
  { s with gct := Function.update s.gct bank (Function.update (s.gct bank) i entry) }

def setRctct (bank row count : Int) (s : Hydra) : Hydra :=
  { s with rctct := Function.update s.rctct bank (Function.update (s.rctct bank) row count) }

def setRcc (rank : Int) (i : Nat) (set : List (Nat × RCCEntry)) (s : Hydra) : Hydra :=
  { s with rcc := Function.update s.rcc rank (Function.update (s.rcc rank) i set) }

/-- The branch for an activation inside the region of the counters. -/
def onRctRow (cfg : HydraConfig) (addr : AddrVec) (bank row : Int) (s : Hydra) : Outcome Hydra K :=
  let count := s.rctct bank row + 1
  if count ≥ cfg.trackingThreshold then
    { state := s.setRctct bank row 0
      sends := [vrrRequest addr]
      reset := some (bank, row) }
  else { state := s.setRctct bank row count }

/-- Step 2: the first time a group is past its threshold, its counters are written. -/
def initializeGroup (cfg : HydraConfig) (addr : AddrVec) (bank : Int) (i : Nat) (s : Hydra) :
    Hydra × List (Request Command K) :=
  let entry := s.gct bank i
  if entry.initialized then (s, [])
  else
    let start := i * cfg.rowGroupSize
    let s := s.setGct bank i { entry with initialized := true }
    ({ s with rct := Function.update s.rct bank fun row =>
        if start ≤ row ∧ row < start + cfg.rowGroupSize then cfg.groupThreshold else s.rct bank row },
      (List.range cfg.groupRctClSize).flatMap fun j =>
        issueRctAccess cfg true (start + j * cfg.rctPerCl) addr)

/-- Make room in a full set: the evicted counter is written back. -/
def evict (cfg : HydraConfig) (visiting : Visit) (set : List (Nat × RCCEntry)) :
    Except String (List (Nat × RCCEntry) × List (Request Command K)) :=
  if set.length = 16 then do
    match ← getTagToEvict cfg visiting set with
    | none => pure (set, [])
    | some tag =>
        match set.lookup tag with
        | none => pure (set, [])
        | some evicted =>
            pure (eraseKey tag set, issueRctAccess cfg true evicted.rowId evicted.addrTemplate)
  else pure (set, [])

/-- Step 3: the counter in the cache, counted, with the set and the requests of a miss. -/
def access (cfg : HydraConfig) (visiting : Visit) (addr : AddrVec) (bank : Int) (row tag : Nat)
    (count : Int) (set : List (Nat × RCCEntry)) :
    Except String (RCCEntry × List (Nat × RCCEntry) × List (Request Command K)) :=
  match set.lookup tag with
  | some entry => .ok ({ entry with count := entry.count + 1, dirty := true }, set, [])
  | none => do
      let (set, writeBack) ← evict cfg visiting set
      pure (⟨row, bank, count, true, addr⟩, set, writeBack ++ issueRctAccess cfg false row addr)

/-- Steps 3 and 4: count in the cache, and compare with the threshold. -/
def trackRow (cfg : HydraConfig) (visiting : Visit) (addr : AddrVec) (rank bank : Int) (row : Nat)
    (s : Hydra) : Except String (Outcome Hydra K) := do
  let i := cfg.rccIndex row
  let tag := cfg.rccTag row (bank % cfg.numBanksPerRank).toNat
  let count := s.rct bank row + 1
  let (entry, set, sends) ← access cfg visiting addr bank row tag count (s.rcc rank i)
  if entry.count ≥ cfg.trackingThreshold then
    pure
      { state := (s.setRct bank row 0).setRcc rank i (assign tag { entry with count := 0 } set)
        sends := sends ++ [vrrRequest addr]
        reset := some (entry.flatBankId, entry.rowId) }
  else pure { state := (s.setRct bank row count).setRcc rank i (assign tag entry set), sends := sends }

/-- `on_issue`. -/
def onIssue (cfg : HydraConfig) (c : Command) (addr : AddrVec) (visiting : Visit) (s : Hydra) :
    Except String (Outcome Hydra K) :=
  if isActivation c = false then .ok { state := s }
  else
    let row := addr.coord cfg.spec.rowLevel
    let bank := cfg.spec.flatBankId addr
    if row < cfg.totalRctRowSize then .ok (s.onRctRow cfg addr bank row)
    else
      let i := cfg.gctIndex row.toNat
      let group := s.gct bank i
      if group.groupCount < cfg.groupThreshold then
        .ok { state := s.setGct bank i { group with groupCount := group.groupCount + 1 } }
      else
        let (s, writes) := s.initializeGroup cfg addr bank i
        (s.trackRow cfg visiting addr (addr.coord cfg.rankLevel) bank row.toNat).map fun out =>
          { out with sends := writes ++ out.sends }

end Hydra

/-! ## A controller with one of the plugins -/

inductive RowTracker where
  | graphene (cfg : GrapheneConfig)
  | twice (cfg : TWiCeConfig)
  | oracleRH (cfg : OracleRHConfig)
  | hydra (cfg : HydraConfig)

namespace RowTracker

def spec : RowTracker → Standard
  | graphene cfg => cfg.spec
  | twice cfg => cfg.spec
  | oracleRH cfg => cfg.spec
  | hydra cfg => cfg.spec

/-- The fields of the plugin. -/
def Tables : RowTracker → Type
  | graphene _ => Graphene
  | twice _ => TWiCeIdeal
  | oracleRH _ => OracleRH
  | hydra _ => Hydra

/-- After `setup`. -/
def init : (t : RowTracker) → t.Tables
  | graphene cfg => Graphene.init cfg
  | twice _ => ({} : TWiCeIdeal)
  | oracleRH _ => ({} : OracleRH)
  | hydra _ => ({} : Hydra)

def preSchedule : (t : RowTracker) → t.Tables → Except String t.Tables
  | graphene cfg => Graphene.preSchedule cfg
  | twice _ => .ok
  | oracleRH _ => .ok
  | hydra cfg => Hydra.preSchedule cfg

def onIssue (c : Command) (addr : AddrVec) (visiting : Visit) :
    (t : RowTracker) → t.Tables → Except String (Outcome t.Tables K)
  | graphene cfg => fun s => .ok (Graphene.onIssue cfg c addr visiting s)
  | twice cfg => fun s => .ok (TWiCeIdeal.onIssue cfg c addr s)
  | oracleRH cfg => fun s => .ok (OracleRH.onIssue cfg c addr s)
  | hydra cfg => Hydra.onIssue cfg c addr visiting

/-- A controller with the plugin's fields. -/
structure Tracked (K : Type) (t : RowTracker) where
  base : ControllerBase K
  tables : t.Tables

/-- A notification of an issued command: the plugin's requests go to the priority buffer one by one. -/
def notify (cfg : Config) (t : RowTracker) (c : Command) (addr : AddrVec) (visiting : Visit)
    (s : Tracked K t) : Except String (Outcome t.Tables K × Tracked K t) := do
  let out ← t.onIssue c addr visiting s.tables
  let base ← s.base.prioritySendAll cfg out.sends
  pure (out, ⟨base, out.state⟩)

/-- What happens to a controller with the plugin: the plugin's hooks, and whatever the controller and its
other plugins do in between. -/
inductive Happening (K : Type) where
  | preSchedule
  | onIssue (c : Command) (addr : AddrVec) (visiting : Visit)
  | other (base : ControllerBase K)

def happen (cfg : Config) (t : RowTracker) (e : Happening K) (s : Tracked K t) :
    Except String (Tracked K t) :=
  match e with
  | .preSchedule => (t.preSchedule s.tables).map fun tables => { s with tables := tables }
  | .onIssue c addr visiting => (t.notify cfg c addr visiting s).map Prod.snd
  | .other base => .ok { s with base := base }

/-- An activation that Hydra can tell apart from every other one: its cache keeps as many bits of a row as
the number of rows has, and its sets belong to the rank of the bank. The other plugins take any address. -/
def Distinct : RowTracker → Command → AddrVec → Prop
  | hydra cfg, c, addr => isActivation c = true → cfg.totalRctRowSize ≤ addr.coord cfg.spec.rowLevel →
      addr.coord cfg.spec.rowLevel < 2 ^ cfg.rowAddressBits ∧ 0 ≤ cfg.spec.flatBankId addr ∧
        addr.coord cfg.rankLevel = cfg.spec.flatBankId addr / cfg.numBanksPerRank
  | _, _, _ => True

instance (t : RowTracker) (c : Command) (addr : AddrVec) : Decidable (Distinct t c addr) :=
  match t with
  | hydra _ => inferInstanceAs (Decidable (_ → _ → _ ∧ _ ∧ _))
  | graphene _ => inferInstanceAs (Decidable True)
  | twice _ => inferInstanceAs (Decidable True)
  | oracleRH _ => inferInstanceAs (Decidable True)

/-- The states that runs with such activations reach, from any controller. -/
def ReachedFrom (cfg : Config) (t : RowTracker) (base : ControllerBase K) : Tracked K t → Prop :=
  Reachable ⟨base, t.init⟩ fun s e s' =>
    (∀ c addr visiting, e = .onIssue c addr visiting → Distinct t c addr) ∧
      happen cfg t e s = .ok s'

/-- A `VRR` with the given address is among the requests that entered the priority buffer. -/
def Requested (s s' : ControllerBase K) (addr : AddrVec) : Prop :=
  ∃ new, s'.priority = s.priority ++ new ∧
    ∃ e ∈ new, e.finalCommand = some .VRR ∧ e.addrVec = addr

/-- The buffer has room for all that the notification sends. -/
def Room (cfg : Config) (t : RowTracker) (s : ControllerBase K) (out : Outcome t.Tables K) : Prop :=
  s.priority.length + out.sends.length ≤ cfg.priorityBufferSize

/-! ## What is accepted -/

variable {cfg : Config} {s s' : ControllerBase K}

/-- Of the requests that a hook sends, those enter the buffer that find room. -/
theorem priority_prioritySendAll {reqs : List (Request Command K)}
    (h : s.prioritySendAll cfg reqs = .ok s') :
    ∃ new, s'.priority = s.priority ++ new ∧
      new.map Entry.toRequest = reqs.take (cfg.priorityBufferSize - s.priority.length) := by
  induction reqs generalizing s with
  | nil =>
      cases h
      exact ⟨[], (List.append_nil _).symm, List.take_nil.symm⟩
  | cons r reqs ih =>
      unfold ControllerBase.prioritySendAll at h
      rw [List.foldlM_cons, except_bind_eq_ok] at h
      obtain ⟨u, hu, h⟩ := h
      obtain ⟨⟨accepted, u'⟩, hsend, rfl⟩ := except_map_eq_ok.mp hu
      obtain ⟨new, hnew, hmap⟩ := ih h
      unfold ControllerBase.prioritySend at hsend
      split_ifs at hsend with hcmd hroom
      · cases hsend
        have hbuf : (s.enqueuePriority r).priority = s.priority ++ [Entry.ofRequest s.nextUid r] :=
          Function.update_self Buf.priority _ s.bufs
        have hnew : s'.priority = (s.enqueuePriority r).priority ++ new := hnew
        have hmap : new.map Entry.toRequest =
            reqs.take (cfg.priorityBufferSize - (s.enqueuePriority r).priority.length) := hmap
        refine ⟨Entry.ofRequest s.nextUid r :: new, ?_, ?_⟩
        · rw [hnew, hbuf, List.append_assoc]
          rfl
        · have hlen : cfg.priorityBufferSize - s.priority.length =
              (cfg.priorityBufferSize - (s.enqueuePriority r).priority.length) + 1 := by
            rw [hbuf, List.length_append, List.length_singleton]
            omega
          rw [hlen, List.take_succ_cons, List.map_cons, hmap]
          rfl
      · cases hsend
        have hnew : s'.priority = s.priority ++ new := hnew
        have hmap : new.map Entry.toRequest =
            reqs.take (cfg.priorityBufferSize - s.priority.length) := hmap
        have hfull : cfg.priorityBufferSize - s.priority.length = 0 := by omega
        rw [hfull] at hmap ⊢
        exact ⟨new, hnew, hmap⟩

/-- The last of the requests of a hook enters the buffer if and only if there is room for all. -/
theorem requested_iff {pre : List (Request Command K)} {addr : AddrVec}
    (hpre : ∀ r ∈ pre, r.finalCommand ≠ some .VRR)
    (h : s.prioritySendAll cfg (pre ++ [vrrRequest addr]) = .ok s') :
    Requested s s' addr ↔
      s.priority.length + (pre ++ [vrrRequest (K := K) addr]).length ≤ cfg.priorityBufferSize := by
  obtain ⟨new, hnew, hmap⟩ := priority_prioritySendAll h
  rw [List.length_append, List.length_singleton]
  constructor
  · rintro ⟨new', hnew', e, he, hcmd, -⟩
    obtain rfl : new = new' := List.append_cancel_left (hnew.symm.trans hnew')
    by_contra hfull
    have hmem : e.toRequest ∈ pre := by
      have hmem : e.toRequest ∈ new.map Entry.toRequest := List.mem_map_of_mem he
      rw [hmap, List.take_append_of_le_length (by omega)] at hmem
      exact List.mem_of_mem_take hmem
    exact hpre _ hmem hcmd
  · intro hroom
    have hall : vrrRequest addr ∈ new.map Entry.toRequest := by
      rw [hmap, List.take_of_length_le (by rw [List.length_append, List.length_singleton]; omega)]
      exact List.mem_append_right _ List.mem_cons_self
    obtain ⟨e, he, heq⟩ := List.mem_map.mp hall
    exact ⟨new, hnew, e, he, congrArg Request.finalCommand heq, congrArg Request.addrVec heq⟩

end RowTracker

/-! ## What a notification sends -/

/-- A notification that resets a counter sends a `VRR` with the address of the activation, last. -/
def Outcome.SendsVrr {σ : Type} (out : Outcome σ K) (addr : AddrVec) : Prop :=
  out.reset ≠ none →
    ∃ pre, out.sends = pre ++ [vrrRequest addr] ∧ ∀ r ∈ pre, r.finalCommand ≠ some .VRR

variable {c : Command} {addr : AddrVec} {visiting : Visit}

theorem Outcome.SendsVrr.of_none {σ : Type} {out : Outcome σ K} (h : out.reset = none) :
    out.SendsVrr addr := fun hsome => absurd h hsome

theorem Outcome.SendsVrr.of_single {σ : Type} {out : Outcome σ K} (h : out.sends = [vrrRequest addr]) :
    out.SendsVrr addr := fun _ => ⟨[], h, fun _ hr => absurd hr List.not_mem_nil⟩

/-- The bank and the row of an activation. -/
def rowOf (spec : Standard) (addr : AddrVec) : Int × Int :=
  (spec.flatBankId addr, addr.coord spec.rowLevel)

theorem Graphene.onIssue_reset (cfg : GrapheneConfig) (s : Graphene) :
    (s.onIssue (K := K) cfg c addr visiting).SendsVrr addr ∧
      ∀ x ∈ (s.onIssue (K := K) cfg c addr visiting).reset, x = rowOf cfg.spec addr := by
  unfold onIssue
  dsimp only
  split_ifs
  · exact ⟨.of_none rfl, nofun⟩
  · cases (s.activationCountTable (cfg.spec.flatBankId addr)).lookup (addr.coord cfg.spec.rowLevel) with
    | none =>
        dsimp only
        cases (visit visiting.order (s.activationCountTable (cfg.spec.flatBankId addr))).find?
            (fun e => e.2 = s.spilloverCounter (cfg.spec.flatBankId addr)) with
        | none => exact ⟨.of_none rfl, nofun⟩
        | some e => exact ⟨.of_none rfl, nofun⟩
    | some count =>
        dsimp only
        split_ifs
        · exact ⟨.of_single rfl, fun x hx => (Option.some.inj hx).symm⟩
        · exact ⟨.of_none rfl, nofun⟩

theorem TWiCeIdeal.onIssue_reset (cfg : TWiCeConfig) (s : TWiCeIdeal) :
    (s.onIssue (K := K) cfg c addr).SendsVrr addr ∧
      ∀ x ∈ (s.onIssue (K := K) cfg c addr).reset, x = rowOf cfg.spec addr := by
  unfold onIssue
  dsimp only
  split_ifs
  · exact ⟨.of_none rfl, nofun⟩
  · exact ⟨.of_none rfl, nofun⟩
  · cases (s.twiceTable (cfg.spec.flatBankId addr)).lookup (addr.coord cfg.spec.rowLevel) with
    | none => exact ⟨.of_none rfl, nofun⟩
    | some entry =>
        dsimp only
        split_ifs
        · exact ⟨.of_single rfl, fun x hx => (Option.some.inj hx).symm⟩
        · exact ⟨.of_none rfl, nofun⟩

theorem OracleRH.onIssue_reset (cfg : OracleRHConfig) (s : OracleRH) :
    (s.onIssue (K := K) cfg c addr).SendsVrr addr ∧
      ∀ x ∈ (s.onIssue (K := K) cfg c addr).reset, x = rowOf cfg.spec addr := by
  unfold onIssue
  dsimp only
  -- the second test leaves the requests alone
  split_ifs
  all_goals
    first
      | exact ⟨.of_none rfl, nofun⟩
      | exact ⟨.of_single rfl, fun x hx => (Option.some.inj hx).symm⟩

/-! ### Hydra's cache -/

namespace Hydra

variable {cfg : HydraConfig} {s : Hydra} {rank bank : Int} {i tag row : Nat} {e : RCCEntry}
  {set set' : List (Nat × RCCEntry)} {reqs : List (Request Command K)}

/-- The entry stands where its own row and bank belong. -/
structure Cached (cfg : HydraConfig) (rank : Int) (i tag : Nat) (e : RCCEntry) : Prop where
  row_lt : e.rowId < 2 ^ cfg.rowAddressBits
  bank_nonneg : 0 ≤ e.flatBankId
  rank_eq : rank = e.flatBankId / cfg.numBanksPerRank
  index_eq : i = cfg.rccIndex e.rowId
  tag_eq : tag = cfg.rccTag e.rowId (e.flatBankId % cfg.numBanksPerRank).toNat

def Inv (cfg : HydraConfig) (s : Hydra) : Prop :=
  ∀ rank i tag e, (s.rcc rank i).lookup tag = some e → Cached cfg rank i tag e

/-- The place of an entry depends on its row and bank only. -/
theorem Cached.congr {e' : RCCEntry} (h : Cached cfg rank i tag e) (hrow : e'.rowId = e.rowId)
    (hbank : e'.flatBankId = e.flatBankId) : Cached cfg rank i tag e' := by
  obtain ⟨hlt, hnonneg, hrank, hindex, htag⟩ := h
  exact ⟨hrow ▸ hlt, hbank ▸ hnonneg, hbank ▸ hrank, hrow ▸ hindex, by rw [hrow, hbank]; exact htag⟩

/-- Index and tag together are the row and the bank. -/
theorem rccTag_injective {row' b b' : Nat} (hrow : row < 2 ^ cfg.rowAddressBits)
    (hrow' : row' < 2 ^ cfg.rowAddressBits) (hindex : cfg.rccIndex row = cfg.rccIndex row')
    (htag : cfg.rccTag row b = cfg.rccTag row' b') : row = row' ∧ b = b' := by
  have hle : cfg.rccIndexBits ≤ cfg.rowAddressBits := cfg.rcc_le
  have htagBits : cfg.rccTagRowBits = cfg.rowAddressBits - cfg.rccIndexBits := rfl
  have hbits : cfg.rowAddressBits - cfg.rccTagRowBits = cfg.rccIndexBits := by omega
  have hpow : 2 ^ cfg.rowAddressBits = 2 ^ cfg.rccIndexBits * 2 ^ cfg.rccTagRowBits := by
    rw [← Nat.pow_add]
    congr 1
    omega
  -- the upper bits of a row fit below the bank
  have hhigh : ∀ r, r < 2 ^ cfg.rowAddressBits → r >>> cfg.rccIndexBits < 2 ^ cfg.rccTagRowBits := by
    intro r hr
    rw [Nat.shiftRight_eq_div_pow]
    exact Nat.div_lt_of_lt_mul (hpow ▸ hr)
  have hsum : ∀ r b, r < 2 ^ cfg.rowAddressBits →
      cfg.rccTag r b = 2 ^ cfg.rccTagRowBits * b + r >>> cfg.rccIndexBits := by
    intro r b hr
    unfold HydraConfig.rccTag
    rw [hbits, Nat.or_comm, ← Nat.shiftLeft_add_eq_or_of_lt (hhigh r hr), Nat.shiftLeft_eq, Nat.mul_comm]
  rw [hsum row b hrow, hsum row' b' hrow'] at htag
  have hpos : 0 < 2 ^ cfg.rccTagRowBits := Nat.two_pow_pos _
  have hb : b = b' := by
    have hdiv := congrArg (· / 2 ^ cfg.rccTagRowBits) htag
    rwa [Nat.mul_add_div hpos, Nat.mul_add_div hpos, Nat.div_eq_of_lt (hhigh row hrow),
      Nat.div_eq_of_lt (hhigh row' hrow'), Nat.add_zero, Nat.add_zero] at hdiv
  subst hb
  refine ⟨?_, rfl⟩
  have hupper := Nat.add_left_cancel htag
  rw [Nat.shiftRight_eq_div_pow, Nat.shiftRight_eq_div_pow] at hupper
  have hlower : row % 2 ^ cfg.rccIndexBits = row' % 2 ^ cfg.rccIndexBits := hindex
  rw [← Nat.div_add_mod row (2 ^ cfg.rccIndexBits), ← Nat.div_add_mod row' (2 ^ cfg.rccIndexBits), hupper,
    hlower]

/-- Entries with one place count one row. -/
theorem Cached.unique {e' : RCCEntry} (h : Cached cfg rank i tag e) (h' : Cached cfg rank i tag e') :
    e.rowId = e'.rowId ∧ e.flatBankId = e'.flatBankId := by
  obtain ⟨hrow, hbank⟩ := rccTag_injective h.row_lt h'.row_lt (h.index_eq.symm.trans h'.index_eq)
    (h.tag_eq.symm.trans h'.tag_eq)
  refine ⟨hrow, ?_⟩
  by_cases hzero : cfg.numBanksPerRank = 0
  · rw [hzero, Int.emod_zero, Int.emod_zero] at hbank
    have hnonneg := h.bank_nonneg
    have hnonneg' := h'.bank_nonneg
    omega
  · have hmod := Int.emod_nonneg e.flatBankId hzero
    have hmod' := Int.emod_nonneg e'.flatBankId hzero
    have hquot : e.flatBankId / cfg.numBanksPerRank = e'.flatBankId / cfg.numBanksPerRank :=
      h.rank_eq.symm.trans h'.rank_eq
    rw [← Int.mul_ediv_add_emod e.flatBankId cfg.numBanksPerRank,
      ← Int.mul_ediv_add_emod e'.flatBankId cfg.numBanksPerRank, hquot]
    omega

theorem issueRctAccess_ne (isWrite : Bool) (workloadRow : Nat) (template : AddrVec) :
    ∀ r ∈ issueRctAccess (K := K) cfg isWrite workloadRow template, r.finalCommand ≠ some .VRR := by
  intro r hr
  rcases List.mem_cons.mp hr with rfl | hr
  · nofun
  · obtain rfl := List.mem_singleton.mp hr
    cases isWrite <;> nofun

/-- Evicting only drops an entry. -/
theorem evict_eq_ok (h : evict cfg visiting set = .ok (set', reqs)) :
    (∀ tag e, set'.lookup tag = some e → set.lookup tag = some e) ∧
      ∀ r ∈ reqs, r.finalCommand ≠ some .VRR := by
  unfold evict at h
  split_ifs at h
  · rw [except_bind_eq_ok] at h
    obtain ⟨chosen, -, h⟩ := h
    cases chosen with
    | none =>
        cases h
        exact ⟨fun _ _ hlookup => hlookup, List.forall_mem_nil _⟩
    | some tag =>
        cases hevicted : set.lookup tag with
        | none =>
            simp only [hevicted] at h
            cases h
            exact ⟨fun _ _ hlookup => hlookup, List.forall_mem_nil _⟩
        | some evicted =>
            simp only [hevicted] at h
            cases h
            refine ⟨fun tag' e hlookup => ?_, issueRctAccess_ne _ _ _⟩
            rw [lookup_eraseKey] at hlookup
            split_ifs at hlookup
            exact hlookup
  · cases h
    exact ⟨fun _ _ hlookup => hlookup, List.forall_mem_nil _⟩

/-- An access finds or makes the entry of its place. -/
theorem access_eq_ok {count : Int} {entry : RCCEntry}
    (hset : ∀ tag e, set.lookup tag = some e → Cached cfg rank i tag e)
    (hown : Cached cfg rank i tag ⟨row, bank, count, true, addr⟩)
    (h : access cfg visiting addr bank row tag count set = .ok (entry, set', reqs)) :
    Cached cfg rank i tag entry ∧ (∀ tag e, set'.lookup tag = some e → Cached cfg rank i tag e) ∧
      ∀ r ∈ reqs, r.finalCommand ≠ some .VRR := by
  unfold access at h
  cases hhit : set.lookup tag with
  | some e =>
      simp only [hhit] at h
      cases h
      exact ⟨(hset tag e hhit).congr rfl rfl, hset, List.forall_mem_nil _⟩
  | none =>
      simp only [hhit] at h
      rw [except_bind_eq_ok] at h
      obtain ⟨⟨room, writeBack⟩, hevict, h⟩ := h
      cases h
      obtain ⟨hkept, hsends⟩ := evict_eq_ok hevict
      refine ⟨hown, fun tag e hlookup => hset tag e (hkept tag e hlookup), fun r hr => ?_⟩
      rcases List.mem_append.mp hr with hr | hr
      · exact hsends r hr
      · exact issueRctAccess_ne _ _ _ r hr

theorem Inv.setRcc (h : Inv cfg s) (hset : ∀ tag e, set.lookup tag = some e → Cached cfg rank i tag e) :
    Inv cfg (s.setRcc rank i set) := by
  intro rank' i' tag e hlookup
  have hrcc : (s.setRcc rank i set).rcc rank' i' =
      if rank' = rank ∧ i' = i then set else s.rcc rank' i' := by
    show Function.update s.rcc rank (Function.update (s.rcc rank) i set) rank' i' = _
    by_cases hrank : rank' = rank
    · subst hrank
      rw [Function.update_self]
      by_cases hi : i' = i
      · subst hi
        rw [Function.update_self, if_pos ⟨rfl, rfl⟩]
      · rw [Function.update_of_ne hi, if_neg fun hand => hi hand.2]
    · rw [Function.update_of_ne hrank, if_neg fun hand => hrank hand.1]
  rw [hrcc] at hlookup
  split_ifs at hlookup with heq
  · obtain ⟨rfl, rfl⟩ := heq
    exact hset tag e hlookup
  · exact h rank' i' tag e hlookup

/-- Counting in the cache keeps entries in their places, and what it resets is the counter of the row. -/
theorem Inv.trackRow {out : Outcome Hydra K} (h : Inv cfg s)
    (hown : Cached cfg rank (cfg.rccIndex row) (cfg.rccTag row (bank % cfg.numBanksPerRank).toNat)
      ⟨row, bank, s.rct bank row + 1, true, addr⟩)
    (htrack : s.trackRow cfg visiting addr rank bank row = .ok out) :
    Inv cfg out.state ∧ out.SendsVrr addr ∧ ∀ x ∈ out.reset, x = (bank, (row : Int)) := by
  unfold Hydra.trackRow at htrack
  dsimp only at htrack
  rw [except_bind_eq_ok] at htrack
  obtain ⟨⟨entry, set, sends⟩, haccess, htrack⟩ := htrack
  obtain ⟨hentry, hset, hsends⟩ := access_eq_ok (h rank (cfg.rccIndex row)) hown haccess
  have hassign : ∀ entry', entry'.rowId = entry.rowId → entry'.flatBankId = entry.flatBankId →
      ∀ tag e, (assign (cfg.rccTag row (bank % cfg.numBanksPerRank).toNat) entry' set).lookup tag = some e →
        Cached cfg rank (cfg.rccIndex row) tag e := by
    intro entry' hrow hbank tag e hlookup
    rw [lookup_assign] at hlookup
    split_ifs at hlookup with htag
    · obtain rfl := Option.some.inj hlookup
      rw [beq_iff_eq.mp htag]
      exact hentry.congr hrow hbank
    · exact hset tag e hlookup
  dsimp only at htrack
  split_ifs at htrack
  · cases htrack
    refine ⟨Inv.setRcc (s := s.setRct bank row 0) h (hassign _ rfl rfl), fun _ => ⟨sends, rfl, hsends⟩,
      fun x hx => ?_⟩
    obtain ⟨hrow, hbank⟩ := hentry.unique hown
    rw [← Option.some.inj hx, hrow, hbank]
  · cases htrack
    exact ⟨Inv.setRcc (s := s.setRct bank row _) h (hassign _ rfl rfl), .of_none rfl, nofun⟩

theorem initializeGroup_spec (cfg : HydraConfig) (addr : AddrVec) (bank : Int) (i : Nat) (s : Hydra) :
    (s.initializeGroup (K := K) cfg addr bank i).1.rcc = s.rcc ∧
      ∀ r ∈ (s.initializeGroup (K := K) cfg addr bank i).2, r.finalCommand ≠ some .VRR := by
  unfold initializeGroup
  dsimp only
  split_ifs
  · exact ⟨rfl, List.forall_mem_nil _⟩
  · refine ⟨rfl, fun r hr => ?_⟩
    obtain ⟨j, -, hr⟩ := List.mem_flatMap.mp hr
    exact issueRctAccess_ne _ _ _ r hr

/-- A notification keeps the places of the cache, and what it resets is the counter of the row. -/
theorem Inv.onIssue {out : Outcome Hydra K} (h : Inv cfg s)
    (hdistinct : RowTracker.Distinct (.hydra cfg) c addr)
    (hissue : s.onIssue cfg c addr visiting = .ok out) :
    Inv cfg out.state ∧ out.SendsVrr addr ∧ ∀ x ∈ out.reset, x = rowOf cfg.spec addr := by
  unfold Hydra.onIssue at hissue
  dsimp only at hissue
  split_ifs at hissue with hact hrct hgroup
  · cases hissue
    exact ⟨h, .of_none rfl, nofun⟩
  · cases hissue
    unfold onRctRow
    dsimp only
    split_ifs
    · exact ⟨h, .of_single rfl, fun x hx => (Option.some.inj hx).symm⟩
    · exact ⟨h, .of_none rfl, nofun⟩
  · cases hissue
    exact ⟨h, .of_none rfl, nofun⟩
  · obtain ⟨out', htrack, rfl⟩ := except_map_eq_ok.mp hissue
    obtain ⟨hrcc, hwrites⟩ := initializeGroup_spec (K := K) cfg addr (cfg.spec.flatBankId addr)
      (cfg.gctIndex (addr.coord cfg.spec.rowLevel).toNat) s
    have hinit : Inv cfg (s.initializeGroup (K := K) cfg addr (cfg.spec.flatBankId addr)
        (cfg.gctIndex (addr.coord cfg.spec.rowLevel).toNat)).1 := by
      intro rank i tag e hlookup
      rw [hrcc] at hlookup
      exact h rank i tag e hlookup
    have hrow := Int.not_lt.mp hrct
    obtain ⟨hlt, hnonneg, hrank⟩ := hdistinct ((Bool.not_eq_false _).mp hact) hrow
    have htoNat : ((addr.coord cfg.spec.rowLevel).toNat : Int) = addr.coord cfg.spec.rowLevel :=
      Int.toNat_of_nonneg (Int.le_trans (Int.natCast_nonneg _) hrow)
    have hltNat : (addr.coord cfg.spec.rowLevel).toNat < 2 ^ cfg.rowAddressBits := by
      rw [← Int.ofNat_lt, htoNat]
      exact_mod_cast hlt
    obtain ⟨hinv, hsends, hreset⟩ := hinit.trackRow ⟨hltNat, hnonneg, hrank, rfl, rfl⟩ htrack
    refine ⟨hinv, fun hsome => ?_, fun x hx => (hreset x hx).trans (congrArg _ htoNat)⟩
    obtain ⟨pre, hpre, hne⟩ := hsends hsome
    refine ⟨_ ++ pre, by rw [hpre, List.append_assoc], fun r hr => ?_⟩
    rcases List.mem_append.mp hr with hr | hr
    · exact hwrites r hr
    · exact hne r hr

end Hydra

/-! ## Runs -/

namespace RowTracker

variable {cfg : Config} {t : RowTracker} {base : ControllerBase K} {s s' : Tracked K t}

/-- The invariant of the tables. -/
def Inv : (t : RowTracker) → t.Tables → Prop
  | graphene _ => fun _ => True
  | twice _ => fun _ => True
  | oracleRH _ => fun _ => True
  | hydra cfg => Hydra.Inv cfg

theorem inv_init (t : RowTracker) : Inv t t.init := by
  cases t with
  | graphene cfg => trivial
  | twice cfg => trivial
  | oracleRH cfg => trivial
  | hydra cfg => exact fun _ _ _ _ h => nomatch h

theorem Inv.preSchedule {tables tables' : t.Tables} (h : Inv t tables)
    (hpre : t.preSchedule tables = .ok tables') : Inv t tables' := by
  cases t with
  | graphene cfg => trivial
  | twice cfg => trivial
  | oracleRH cfg => trivial
  | hydra cfg =>
      have hpre : Hydra.preSchedule cfg tables = .ok tables' := hpre
      unfold Hydra.preSchedule at hpre
      dsimp only at hpre
      split_ifs at hpre
      · cases hpre
        exact fun _ _ _ _ hlookup => nomatch hlookup
      · cases hpre
        exact h

theorem Inv.onIssue {tables : t.Tables} {out : Outcome t.Tables K} (h : Inv t tables)
    (hdistinct : Distinct t c addr) (hissue : t.onIssue c addr visiting tables = .ok out) :
    Inv t out.state ∧ out.SendsVrr addr ∧ ∀ x ∈ out.reset, x = rowOf t.spec addr := by
  cases t with
  | graphene cfg =>
      cases hissue
      exact ⟨trivial, Graphene.onIssue_reset cfg tables⟩
  | twice cfg =>
      cases hissue
      exact ⟨trivial, TWiCeIdeal.onIssue_reset cfg tables⟩
  | oracleRH cfg =>
      cases hissue
      exact ⟨trivial, OracleRH.onIssue_reset cfg tables⟩
  | hydra cfg => exact Hydra.Inv.onIssue h hdistinct hissue

theorem Inv.happen {e : Happening K} (h : Inv t s.tables)
    (hdistinct : ∀ c addr visiting, e = .onIssue c addr visiting → Distinct t c addr)
    (hstep : happen cfg t e s = .ok s') : Inv t s'.tables := by
  cases e with
  | preSchedule =>
      obtain ⟨tables, hpre, rfl⟩ := except_map_eq_ok.mp hstep
      exact h.preSchedule hpre
  | onIssue c addr visiting =>
      obtain ⟨⟨out, u⟩, hnotify, rfl⟩ := except_map_eq_ok.mp hstep
      unfold notify at hnotify
      rw [except_bind_eq_ok] at hnotify
      obtain ⟨out', hissue, hnotify⟩ := hnotify
      rw [except_bind_eq_ok] at hnotify
      obtain ⟨b, -, hnotify⟩ := hnotify
      cases hnotify
      exact (h.onIssue (hdistinct c addr visiting rfl) hissue).1
  | other b =>
      cases hstep
      exact h

/-- In every run, a notification that resets a counter because it reached the threshold resets the counter
of the bank and the row of the activation, and the `VRR` for them is accepted if and only if the priority
buffer has room for all that the notification sends. -/
theorem refresh_requested_iff (hs : ReachedFrom cfg t base s) (hdistinct : Distinct t c addr)
    {out : Outcome t.Tables K} (hnotify : t.notify cfg c addr visiting s = .ok (out, s'))
    {x : Int × Int} (hreset : out.reset = some x) :
    x = (t.spec.flatBankId addr, addr.coord t.spec.rowLevel) ∧
      (Requested s.base s'.base addr ↔ Room cfg t s.base out) := by
  have hinv : Inv t s.tables := hs.invariant (fun s => Inv t s.tables) (inv_init t)
    fun s e s' h ⟨hdist, hstep⟩ => h.happen hdist hstep
  unfold notify at hnotify
  rw [except_bind_eq_ok] at hnotify
  obtain ⟨out', hissue, hnotify⟩ := hnotify
  rw [except_bind_eq_ok] at hnotify
  obtain ⟨b, hsend, hnotify⟩ := hnotify
  cases hnotify
  obtain ⟨-, hsends, hrow⟩ := hinv.onIssue hdistinct hissue
  obtain ⟨pre, hpre, hne⟩ := hsends (by rw [hreset]; nofun)
  refine ⟨hrow x hreset, ?_⟩
  rw [Room, hpre]
  rw [hpre] at hsend
  exact requested_iff hne hsend

/-! ### Concrete runs -/

/-- The small instance with victim-row refreshes. -/
def smallVRR (rows : Nat) : Standard :=
  { smallDDR with
    levelSizes := [1, 1, 1, 2, rows, 16]
    supports := fun c => smallDDR.supports c || c == .VRR }

def vrrConfig (rows priorityBufferSize : Nat) : Config :=
  { smallConfig with
    spec := smallVRR rows
    priorityBufferSize := priorityBufferSize
    rowPolicy := .opened }

theorem one_lt_smallThreshold : (1 : Int) < 2 := Int.ofNat_lt.mpr (Nat.lt_succ_self 1)

theorem smallRowGroup_pos : 0 < 4 := Nat.succ_pos 3

theorem smallSet_le : 16 ≤ 16 := Nat.le_refl 16

theorem smallSets_le (rows : Nat) :
    (16 / 16 : Nat).log2 ≤ ((smallVRR rows).levelSize (smallVRR rows).rowLevel).log2 := Nat.zero_le _

/-- Hydra with one set in its cache, which requests a refresh on the second activation. -/
def smallHydra (rows : Nat) : HydraConfig where
  spec := smallVRR rows
  rankLevel := 1
  colLevel := 5
  trackingThreshold := 2
  groupThreshold := 0
  rowGroupSize := 4
  resetPeriodClk := 64
  rccNumPerRank := 16
  rccPolicy := .minCount
  totalRctRowSize := 0
  tracking_gt := one_lt_smallThreshold
  rowGroup_pos := smallRowGroup_pos
  rcc_ge := smallSet_le
  rcc_le := smallSets_le rows

def smallAddr (bank row : Int) : AddrVec := [0, 0, 0, bank, row, 0]

/-- The second activation of a row resets its counter, and its `VRR` joins the requests of the first. -/
theorem refresh_requested_small :
    ∃ (s s' : Tracked Unit (.hydra (smallHydra 16))) (out : Outcome Hydra Unit),
      ReachedFrom (vrrConfig 16 8) (.hydra (smallHydra 16)) (ControllerBase.init (vrrConfig 16 8)) s ∧
      notify (vrrConfig 16 8) (.hydra (smallHydra 16)) .ACT (smallAddr 0 5) {} s = .ok (out, s') ∧
      out.reset = some (0, 5) ∧ Requested s.base s'.base (smallAddr 0 5) := by
  obtain ⟨s, hs, s', out, hnotify, hreset, hroom⟩ :
      ∃ s : Tracked Unit (.hydra (smallHydra 16)),
        ReachedFrom (vrrConfig 16 8) (.hydra (smallHydra 16)) (ControllerBase.init (vrrConfig 16 8)) s ∧
        ∃ (s' : Tracked Unit (.hydra (smallHydra 16))) (out : Outcome Hydra Unit),
          notify (vrrConfig 16 8) (.hydra (smallHydra 16)) .ACT (smallAddr 0 5) {} s = .ok (out, s') ∧
          out.reset = some (0, 5) ∧ Room (vrrConfig 16 8) (.hydra (smallHydra 16)) s.base out :=
    ⟨_, .step (.onIssue .ACT (smallAddr 0 5) {}) .start ⟨fun _ _ _ h => by cases h; decide, rfl⟩,
      _, _, rfl, rfl, Nat.le_of_ble_eq_true rfl⟩
  exact ⟨s, s', out, hs, hnotify, hreset,
    (refresh_requested_iff hs (by decide) hnotify hreset).2.mpr hroom⟩

/-- A column command waits in a priority buffer of one place. When its row is opened for it, the counter
of the row is reset and the `VRR` is dropped. And in a bank of 24 rows Hydra counts row 16 of a bank and
row 0 of the next one together. -/
theorem refresh_dropped :
    (∃ (s s' : ControllerBase Unit) (out : Outcome OracleRH Unit),
      ReachableIf (vrrConfig 16 1) (fun _ _ => True) s ∧
      RowTracker.onIssue .ACT (smallAddr 0 5) {} (.oracleRH ⟨smallVRR 16, 1, 1⟩) {} = .ok out ∧
      call (vrrConfig 16 1) (.tick { onIssue := out.sends }) s = .ok s' ∧
      s'.log = s.log ++ [.issued 0 .ACT (smallAddr 0 5) [(0, ⟨.closed, []⟩)] []] ∧
      out.reset = some (0, 5) ∧ ¬Requested s s' (smallAddr 0 5)) ∧
    ∃ (s s' : Tracked Unit (.hydra (smallHydra 24))) (out : Outcome Hydra Unit),
      Reachable ⟨ControllerBase.init (vrrConfig 24 8), (RowTracker.hydra (smallHydra 24)).init⟩
        (fun s e s' => happen (vrrConfig 24 8) (.hydra (smallHydra 24)) e s = .ok s') s ∧
      notify (vrrConfig 24 8) (.hydra (smallHydra 24)) .ACT (smallAddr 1 0) {} s = .ok (out, s') ∧
      out.reset = some (0, 16) ∧ ¬Requested s.base s'.base (smallAddr 0 16) := by
  constructor
  · refine ⟨_, _, _, .step (.prioritySend (Request.ofCommand (smallAddr 0 5) .RD)) .start ⟨trivial, rfl⟩,
      rfl, rfl, rfl, rfl, ?_⟩
    rintro ⟨new, hnew, -⟩
    have hnil : ([] : List (Entry Unit)) = _ :: new := hnew
    cases hnil
  · refine ⟨_, _, _, .step (.onIssue .ACT (smallAddr 0 16) {}) .start rfl, rfl, rfl, ?_⟩
    rintro ⟨new, hnew, e, he, -, haddr⟩
    have hsent : _ :: _ :: [_] = _ :: _ :: new := hnew
    cases hsent
    obtain rfl := List.mem_singleton.mp he
    exact absurd haddr (by decide)

end RowTracker

end Ramulator.Controller
