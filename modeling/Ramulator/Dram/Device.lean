/-
# Ramulator.Dram.Device — the DRAM device: timing tree and bank states.

`DRAMDevice` (`dram/device.{h,cpp}`) owns the node tree and a flat array of its bank nodes. Timing
walks the tree (`Ramulator.Dram.Node`); prerequisites and state changes visit the target banks of a
command, found by index (`get_flat_bank_id`) or by matching every bank node against the address.
-/
import Ramulator.Dram.Command
import Ramulator.Dram.Node

namespace Ramulator.Dram

/-- What the device and the controllers read of a DRAM standard. -/
structure Standard extends DRAMSpec Command where
  bankLevel : Nat
  supports : Command → Bool
  readLatency : Int
  /-- `supported_requests[Read]` and `supported_requests[Write]`. -/
  readCommand : Command
  writeCommand : Command

namespace Standard

/-- The coordinates of all nodes below one of given sizes, in the order of a depth-first walk. -/
def coordinates : List Nat → List (List Nat)
  | [] => [[]]
  | n :: ns => (List.range n).flatMap fun i => (coordinates ns).map (i :: ·)

/-- The bank nodes, `m_bank_nodes`: each with its coordinates at levels `1 .. bankLevel`. -/
def bankNodes (spec : Standard) : List (List Nat) :=
  coordinates ((List.range spec.bankLevel).map fun l => spec.levelSize (l + 1))

def bankCount (spec : Standard) : Nat := spec.bankNodes.length

/-- The node id of a bank at its own level. -/
def bankId (spec : Standard) (i : Nat) : Int := (spec.bankNodes.getD i []).getLastD 0

/-- `get_flat_bank_id`. -/
def flatBankId (spec : Standard) (addr : AddrVec) : Int :=
  (List.range spec.bankLevel).foldl
    (fun id l => id * spec.levelSize (l + 1) + addr.coord (l + 1)) 0

/-- `bank_matches`: every coordinate up to the channel is addressed, by name or by wildcard. -/
def bankMatches (spec : Standard) (channelId : Int) (i : Nat) (addr : AddrVec) : Bool :=
  (addr.coord 0 == -1 || addr.coord 0 == channelId) &&
    (List.range spec.bankLevel).all fun l =>
      addr.coord (l + 1) == -1 || addr.coord (l + 1) == ((spec.bankNodes.getD i []).getD l 0 : Int)

/-- The banks that `for_each_target_bank` visits, in order. -/
def targetBanks (spec : Standard) (channelId : Int) (c : Command) (addr : AddrVec) : List Int :=
  match c.bankTarget with
  | .single => [spec.flatBankId addr]
  | .all => ((List.range spec.bankCount).filter (spec.bankMatches channelId · addr)).map Nat.cast
  | .sameBank =>
      ((List.range spec.bankCount).filter fun i =>
        spec.bankId i == addr.coord spec.bankLevel && spec.bankMatches channelId i addr).map Nat.cast

end Standard

/-- The device. Banks are indexed by flat id; the array is read as a function, where the source would
run out of its bounds. -/
structure DRAMDevice where
  root : DRAMNode Command
  banks : Int → BankState

namespace DRAMDevice

/-- The device after `init` and `set_channel_id`. -/
def init (spec : Standard) (channelId : Int) : DRAMDevice where
  root := DRAMNode.root spec.toDRAMSpec channelId
  banks := fun _ => {}

/-- The channel id is the id of the root node. -/
def channelId (d : DRAMDevice) : Int :=
  match d.root with
  | .mk _ id _ _ _ => id

def targetBanks (spec : Standard) (d : DRAMDevice) (c : Command) (addr : AddrVec) : List Int :=
  spec.targetBanks d.channelId c addr

def checkTiming (d : DRAMDevice) (c : Command) (addr : AddrVec) (clk : Int) : Bool :=
  d.root.checkTiming c addr clk

/-- `get_preq_command`: the prerequisite of the first target bank that has one. -/
def getPreqCommand (spec : Standard) (d : DRAMDevice) (c : Command) (addr : AddrVec) : Command :=
  (((d.targetBanks spec c addr).map fun b =>
    c.preq (spec.supports .ACT2) (addr.coord spec.rowLevel) (d.banks b)).find? (· ≠ c)).getD c

/-- `issue_command`: timing first, then the action on every target bank. -/
def issueCommand (spec : Standard) (d : DRAMDevice) (c : Command) (addr : AddrVec) (clk : Int) :
    DRAMDevice where
  root := d.root.updateTiming spec.toDRAMSpec c addr clk
  banks := fun b =>
    if b ∈ d.targetBanks spec c addr then c.action (addr.coord spec.rowLevel) (d.banks b)
    else d.banks b

def checkRowbufferHit (spec : Standard) (d : DRAMDevice) (c : Command) (addr : AddrVec) : Bool :=
  c.rowhit (addr.coord spec.rowLevel) (d.banks (spec.flatBankId addr))

def checkNodeOpen (spec : Standard) (d : DRAMDevice) (c : Command) (addr : AddrVec) : Bool :=
  c.rowopen (d.banks (spec.flatBankId addr))

@[simp] theorem channelId_issueCommand (spec : Standard) (d : DRAMDevice) (c : Command)
    (addr : AddrVec) (clk : Int) : (d.issueCommand spec c addr clk).channelId = d.channelId := by
  unfold issueCommand channelId
  cases d.root with
  | mk level id tm n child =>
      simp only [DRAMNode.updateTiming]
      split_ifs <;> rfl

end DRAMDevice

end Ramulator.Dram
