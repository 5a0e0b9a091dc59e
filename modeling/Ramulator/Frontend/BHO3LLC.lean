/-
# Ramulator.Frontend.BHO3LLC — the last-level cache of the BHO3 frontend.

`BHO3LLC` (`frontend/impl/processor/bhO3/bhllc.{h,cpp}`) is the cache of SimpleO3 with a cap on the MSHRs
of blacklisted cores and a flush. Hits and misses are completed through one map, keyed by address, and one
callback: `BHO3::receive` serves the requests that the map has under the address of the request that came
back, be it from memory or from the cache itself.

Iterators into the sets are numbers: each line gets a new one. The memory system is what the cache sees of
it, which takes a request or not and calls back what it has taken. Admission numbers, the requests with the
memory system and the lists of accepted and completed requests are added for the sake of statements.
-/
import Ramulator.Base.Request
import Ramulator.Dram.Command
import Ramulator.Lib.Run
import Mathlib.Data.Int.Bitwise

namespace Ramulator.Frontend.BHO3

open Ramulator.Base (Request)
open Ramulator.Dram Ramulator.Lib

/-! ## Configuration -/

/-- The arguments of the constructor. Nothing is asked of the sizes. -/
structure LLCConfig where
  latency : Int := 47
  sizeBytes : Nat
  linesizeBytes : Nat := 64
  associativity : Nat := 8
  numMshrs : Nat
  numCores : Nat

namespace LLCConfig

def setSize (cfg : LLCConfig) : Nat := cfg.sizeBytes / (cfg.linesizeBytes * cfg.associativity)

def indexMask (cfg : LLCConfig) : Int := cfg.setSize - 1

def indexOffset (cfg : LLCConfig) : Nat := cfg.linesizeBytes.log2

def tagOffset (cfg : LLCConfig) : Nat := cfg.setSize.log2 + cfg.indexOffset

/-- `m_mshr_per_core`. -/
def mshrPerCore (cfg : LLCConfig) : Nat :=
  if 0 < cfg.numCores then cfg.numMshrs / cfg.numCores else cfg.numMshrs

def getIndex (cfg : LLCConfig) (addr : Int) : Int := Int.land (addr >>> cfg.indexOffset) cfg.indexMask

def getTag (cfg : LLCConfig) (addr : Int) : Int := addr >>> cfg.tagOffset

def align (cfg : LLCConfig) (addr : Int) : Int := Int.land addr (Int.lnot (cfg.linesizeBytes - 1))

/-- The requests whose source is a core; others are neither charged nor throttled. -/
def isCore (cfg : LLCConfig) (source : Int) : Bool := 0 ≤ source && source < cfg.numCores

end LLCConfig

/-! ## State -/

/-- The one callback is that of the frontend. Requests of cores carry it, writebacks do not. -/
abbrev Req : Type := Request Command Unit

/-- `Request(addr, type, source_id, callback)`, as a core makes it. -/
def coreRequest (addr type source : Int) : Req :=
  { addr := addr, typeId := type, sourceId := source, callback := some () }

/-- An accepted request with its admission number. -/
structure Admitted where
  req : Req
  uid : Nat
  deriving DecidableEq, Repr

structure Line where
  node : Nat
  addr : Int
  tag : Int
  dirty : Bool := false
  ready : Bool := false
  deriving DecidableEq, Repr

/-- The state. `clk` is the frontend's clock, to which the cache has a reference. -/
structure LLC where
  clk : Int := 0
  cacheSets : Int → List Line := fun _ => []
  nextNode : Nat := 0
  mshrs : List (Int × Nat) := []
  receiveRequests : Int → List Admitted := fun _ => []
  missList : List (Int × Req) := []
  hitList : List (Int × Admitted) := []
  allocatedMshrs : Int → Int := fun _ => 0
  blacklistMaxMshrs : Int → Int := fun _ => 0
  blacklistStatus : Int → Bool := fun _ => false
  llcReadAccess : Nat := 0
  llcWriteAccess : Nat := 0
  llcReadMisses : Nat := 0
  llcWriteMisses : Nat := 0
  llcEviction : Nat := 0
  llcMshrUnavailable : Nat := 0
  llcMshrBlacklisted : Nat := 0
  memory : List Req := []
  nextUid : Nat := 0
  accepted : List Admitted := []
  completed : List Admitted := []

namespace LLC

/-! ## Sets -/

/-- The first line with the tag of an address. -/
def findLine (cfg : LLCConfig) (addr : Int) (s : LLC) : Option Line :=
  (s.cacheSets (cfg.getIndex addr)).find? (·.tag = cfg.getTag addr)

/-- `check_set_hit`. -/
def checkSetHit (cfg : LLCConfig) (addr : Int) (s : LLC) : Option Line :=
  (s.findLine cfg addr).filter (·.ready)

/-- `check_mshr_hit`. -/
def checkMshrHit (cfg : LLCConfig) (addr : Int) (s : LLC) : Option (Int × Nat) :=
  s.mshrs.find? fun m => cfg.align m.1 = cfg.align addr

def setCacheSet (index : Int) (set : List Line) (s : LLC) : LLC :=
  { s with cacheSets := Function.update s.cacheSets index set }

/-- Write through an iterator. Where its line is gone, which the source does not look at, nothing is
written. -/
def modifyLine (cfg : LLCConfig) (addr : Int) (node : Nat) (f : Line → Line) (s : LLC) : LLC :=
  s.setCacheSet (cfg.getIndex addr)
    ((s.cacheSets (cfg.getIndex addr)).map fun l => if l.node = node then f l else l)

/-- `evict_line`: a dirty line is written back, by a request without a callback. -/
def evictLine (cfg : LLCConfig) (index : Int) (victim : Line) (s : LLC) : LLC :=
  let s := { s with llcEviction := s.llcEviction + 1 }
  let s := if victim.dirty then
      { s with missList := s.missList ++ [(s.clk + cfg.latency,
        { addr := victim.addr, typeId := Request.write, sizeBytes := cfg.linesizeBytes })] }
    else s
  s.setCacheSet index ((s.cacheSets index).filter (·.node ≠ victim.node))

/-- `need_eviction`. A line with the tag in the set is an assertion that fails; without assertions there is
no eviction then. -/
def needEviction (cfg : LLCConfig) (addr : Int) (s : LLC) : Bool :=
  let set := s.cacheSets (cfg.getIndex addr)
  if set.any (·.tag = cfg.getTag addr) then false else cfg.associativity ≤ set.length

/-- The new line at the back of its set. -/
def pushLine (cfg : LLCConfig) (addr : Int) (dirty : Bool) (s : LLC) : LLC :=
  let index := cfg.getIndex addr
  { s.setCacheSet index (s.cacheSets index ++ [⟨s.nextNode, addr, cfg.getTag addr, dirty, false⟩]) with
    nextNode := s.nextNode + 1 }

/-- `allocate_line`, with the `dirty` bit that `send` sets. -/
def allocateLine (cfg : LLCConfig) (addr : Int) (dirty : Bool) (s : LLC) : Option LLC :=
  if s.needEviction cfg addr then
    match (s.cacheSets (cfg.getIndex addr)).find? (·.ready) with
    | none => none
    | some victim => some ((s.evictLine cfg (cfg.getIndex addr) victim).pushLine cfg addr dirty)
  else some (s.pushLine cfg addr dirty)

/-! ## `send` -/

def countAccess (req : Req) (s : LLC) : LLC :=
  if req.typeId = Request.read then { s with llcReadAccess := s.llcReadAccess + 1 }
  else if req.typeId = Request.write then { s with llcWriteAccess := s.llcWriteAccess + 1 }
  else s

def countMiss (req : Req) (s : LLC) : LLC :=
  if req.typeId = Request.read then { s with llcReadMisses := s.llcReadMisses + 1 }
  else if req.typeId = Request.write then { s with llcWriteMisses := s.llcWriteMisses + 1 }
  else s

/-- A request is accepted: it gets its number. -/
def accept (req : Req) (s : LLC) : LLC :=
  { s with nextUid := s.nextUid + 1, accepted := s.accepted ++ [⟨req, s.nextUid⟩] }

/-- The branch for hits: the line becomes the most recently used one. -/
def sendHit (cfg : LLCConfig) (req : Req) (line : Line) (s : LLC) : LLC :=
  let index := cfg.getIndex req.addr
  let moved : Line := ⟨s.nextNode, req.addr, cfg.getTag req.addr,
    line.dirty || req.typeId = Request.write, true⟩
  let t : LLC := s.setCacheSet index ((s.cacheSets index).filter (·.node ≠ line.node) ++ [moved])
  accept req
    { t with
      nextNode := s.nextNode + 1
      hitList := s.hitList ++ [(s.clk + cfg.latency, ⟨req, s.nextUid⟩)] }

/-- A miss reads its line, also for a write. -/
def fillOf (req : Req) : Req :=
  if req.typeId = Request.write then { req with typeId := Request.read } else req

/-- The branch for misses to a line that is under way. -/
def sendMerge (cfg : LLCConfig) (req : Req) (mshr : Int × Nat) (s : LLC) : LLC :=
  let t : LLC := { s with
    receiveRequests := Function.update s.receiveRequests mshr.1
      (s.receiveRequests mshr.1 ++ [⟨fillOf req, s.nextUid⟩]) }
  accept (fillOf req)
    (t.modifyLine cfg mshr.1 mshr.2 fun l =>
      { l with dirty := decide (req.typeId = Request.write) || l.dirty })

/-- The blacklist check: a positive cap that the core has reached. -/
def isCapped (cfg : LLCConfig) (source : Int) (s : LLC) : Bool :=
  cfg.isCore source && s.blacklistStatus source &&
    (0 < s.blacklistMaxMshrs source && s.blacklistMaxMshrs source ≤ s.allocatedMshrs source)

/-- There is room in the set, or a line that may go. -/
def lineAvailable (cfg : LLCConfig) (addr : Int) (s : LLC) : Bool :=
  let set := s.cacheSets (cfg.getIndex addr)
  set.length < cfg.associativity || set.any (·.ready)

/-- An MSHR is charged to its core. -/
def charge (cfg : LLCConfig) (source : Int) (s : LLC) : LLC :=
  if cfg.isCore source then
    { s with allocatedMshrs := Function.update s.allocatedMshrs source (s.allocatedMshrs source + 1) }
  else s

/-- The branch for misses that fetch their line. -/
def sendMiss (cfg : LLCConfig) (req : Req) (s : LLC) : Except String LLC :=
  match s.allocateLine cfg req.addr (req.typeId = Request.write) with
  | none => .error "BHO3LLC: failed to allocate line when entry was available."
  | some t =>
      let fill := fillOf req
      let t : LLC := { t with
        mshrs := t.mshrs ++ [(req.addr, s.nextNode)]
        receiveRequests := Function.update t.receiveRequests req.addr [⟨fill, t.nextUid⟩]
        missList := t.missList ++ [(t.clk + cfg.latency, { fill with sizeBytes := cfg.linesizeBytes })] }
      .ok (accept fill (t.charge cfg req.sourceId))

/-- `send`. -/
def send (cfg : LLCConfig) (req : Req) (s : LLC) : Except String (Bool × LLC) :=
  let s := s.countAccess req
  match s.checkSetHit cfg req.addr with
  | some line => .ok (true, s.sendHit cfg req line)
  | none =>
      let s := s.countMiss req
      match s.checkMshrHit cfg req.addr with
      | some mshr => .ok (true, s.sendMerge cfg req mshr)
      | none =>
          if s.isCapped cfg req.sourceId then
            .ok (false, { s with llcMshrBlacklisted := s.llcMshrBlacklisted + 1 })
          else if s.mshrs.length = cfg.numMshrs then
            .ok (false, { s with llcMshrUnavailable := s.llcMshrUnavailable + 1 })
          else if s.lineAvailable cfg req.addr = false then .ok (false, s)
          else (s.sendMiss cfg req).map fun s => (true, s)

/-! ## Completions -/

/-- `BHO3LLC::receive`. -/
def receive (cfg : LLCConfig) (req : Req) (s : LLC) : LLC :=
  match s.checkMshrHit cfg req.addr with
  | none => s
  | some mshr =>
      let s := { s.modifyLine cfg mshr.1 mshr.2 fun l => { l with ready := true } with
        mshrs := s.mshrs.erase mshr }
      if cfg.isCore req.sourceId && 0 < s.allocatedMshrs req.sourceId then
        { s with allocatedMshrs :=
            Function.update s.allocatedMshrs req.sourceId (s.allocatedMshrs req.sourceId - 1) }
      else s

/-- `BHO3::receive`: every request that waits under the address is answered. -/
def frontendReceive (cfg : LLCConfig) (req : Req) (s : LLC) : LLC :=
  let s := s.receive cfg req
  { s with
    completed := s.completed ++ s.receiveRequests req.addr
    receiveRequests := Function.update s.receiveRequests req.addr [] }

/-- A hit comes back from the cache itself. -/
def completeHit (cfg : LLCConfig) (hit : Admitted) (s : LLC) : LLC :=
  { s with receiveRequests := Function.update s.receiveRequests hit.req.addr [hit] }.frontendReceive cfg hit.req

/-! ## Ticks -/

/-- The answer of the memory system to a request: it may call it back before it returns. -/
inductive Decision where
  | reject
  | accept
  | acceptNow (arrive depart : Int)
  deriving DecidableEq, Repr

/-- The memory system has taken a request. It owes a callback only to those that have one. -/
def takeMiss (req : Req) (s : LLC) : LLC :=
  if req.callback.isSome then { s with memory := s.memory ++ [req] } else s

/-- It takes a request and calls it back at once. -/
def serveMiss (cfg : LLCConfig) (req : Req) (arrive depart : Int) (s : LLC) : LLC :=
  if req.callback.isSome then s.frontendReceive cfg { req with arrive := arrive, depart := depart } else s

/-- The loop over the misses; what is not taken stays in the list. `decisions` are the answers, by the
place in the list. -/
def sendMisses (cfg : LLCConfig) (decisions : Nat → Decision) : Nat → List (Int × Req) → LLC → LLC
  | _, [], s => s
  | i, (due, req) :: rest, s =>
      if due ≤ s.clk then
        match decisions i with
        | .reject =>
            sendMisses cfg decisions (i + 1) rest { s with missList := s.missList ++ [(due, req)] }
        | .accept => sendMisses cfg decisions (i + 1) rest (s.takeMiss req)
        | .acceptNow arrive depart =>
            sendMisses cfg decisions (i + 1) rest (s.serveMiss cfg req arrive depart)
      else sendMisses cfg decisions (i + 1) rest { s with missList := s.missList ++ [(due, req)] }

/-- The loop over the hits. -/
def finishHits (cfg : LLCConfig) : List (Int × Admitted) → LLC → LLC
  | [], s => s
  | (due, hit) :: rest, s =>
      if due ≤ s.clk then finishHits cfg rest (s.completeHit cfg hit)
      else finishHits cfg rest { s with hitList := s.hitList ++ [(due, hit)] }

/-- The part of a tick that hands misses to memory. -/
def tickMisses (cfg : LLCConfig) (decisions : Nat → Decision) (s : LLC) : LLC :=
  sendMisses cfg decisions 0 s.missList { s with missList := [] }

/-- The part of a tick that completes hits. -/
def tickHits (cfg : LLCConfig) (s : LLC) : LLC := finishHits cfg s.hitList { s with hitList := [] }

/-- `BHO3::tick` moves the clock, and the cache ticks. -/
def tick (cfg : LLCConfig) (decisions : Nat → Decision) (s : LLC) : LLC :=
  ({ s with clk := s.clk + 1 }.tickMisses cfg decisions).tickHits cfg

/-- The memory system calls back the `j`-th request that it has taken. -/
def callBack (cfg : LLCConfig) (j : Nat) (arrive depart : Int) (s : LLC) : LLC :=
  match s.memory[j]? with
  | none => s
  | some req =>
      { s with memory := s.memory.eraseIdx j }.frontendReceive cfg
        { req with arrive := arrive, depart := depart }

/-! ## Flush and blacklist -/

/-- `clflush`. -/
def clflush (cfg : LLCConfig) (addr : Int) (s : LLC) : Bool × LLC :=
  match s.findLine cfg addr with
  | none => (false, s)
  | some line => (true, s.evictLine cfg (cfg.getIndex addr) line)

def addBlacklist (cfg : LLCConfig) (source : Int) (s : LLC) : LLC :=
  if cfg.isCore source then { s with blacklistStatus := Function.update s.blacklistStatus source true } else s

def eraseBlacklist (cfg : LLCConfig) (source : Int) (s : LLC) : LLC :=
  if cfg.isCore source then { s with blacklistStatus := Function.update s.blacklistStatus source false } else s

def setBlacklistMaxMshrs (cfg : LLCConfig) (source maxMshr : Int) (s : LLC) : LLC :=
  if cfg.isCore source then
    { s with blacklistMaxMshrs := Function.update s.blacklistMaxMshrs source maxMshr }
  else s

/-! ## Runs -/

/-- What can happen to the cache. -/
inductive Call where
  | send (addr type source : Int)
  | tick (decisions : Nat → Decision)
  | callBack (j : Nat) (arrive depart : Int)
  | clflush (addr : Int)
  | addBlacklist (source : Int)
  | eraseBlacklist (source : Int)
  | setBlacklistMaxMshrs (source maxMshr : Int)

def call (cfg : LLCConfig) (c : Call) (s : LLC) : Except String LLC :=
  match c with
  | .send addr type source => (s.send cfg (coreRequest addr type source)).map (·.2)
  | .tick decisions => .ok (s.tick cfg decisions)
  | .callBack j arrive depart => .ok (s.callBack cfg j arrive depart)
  | .clflush addr => .ok (s.clflush cfg addr).2
  | .addBlacklist source => .ok (s.addBlacklist cfg source)
  | .eraseBlacklist source => .ok (s.eraseBlacklist cfg source)
  | .setBlacklistMaxMshrs source maxMshr => .ok (s.setBlacklistMaxMshrs cfg source maxMshr)

end LLC

end Ramulator.Frontend.BHO3
