/-
# Ramulator.Frontend.SimpleO3LLC — the last-level cache of the SimpleO3 frontend.

`SimpleO3LLC` (`frontend/impl/processor/simpleO3/llc.{h,cpp}`) keeps sets of lines in LRU order, a miss
status holding register (MSHR) for each line under way, and for each of these a bucket with the requests
that wait for it. Requests leave through two lists: hits wait for the latency of the cache, misses and
the writebacks of evicted lines for the memory system to take them. A line that is larger than a
transaction of the memory system is fetched in parts that share a counter.

Iterators into the sets are numbers: each line gets a new one. The completion of a line
(`SimpleO3::receive`) and the memory system as the cache sees it, which takes a request or not and calls
back what it has taken, are part of this model. The lists of accepted and completed requests, the number
of attempts to send and the record of the parts of a line are added for the sake of statements.
-/
import Ramulator.Frontend.SimpleO3Core
import Mathlib.Data.Int.Bitwise

namespace Ramulator.Frontend.O3

open Ramulator.Base (Request)
open Ramulator.Dram Ramulator.Lib

/-! ## Configuration -/

/-- The parameters. The constructor accepts powers of two for the sizes of lines and of sets, and
positive numbers of ways and of MSHRs. `txBytes` is `get_tx_bytes` of the memory system. -/
structure LLCConfig where
  latency : Nat := 47
  lineBits : Nat := 6
  setBits : Nat
  associativity : Nat := 8
  numMshrs : Nat := 16
  txBytes : Nat := 64
  associativity_pos : 0 < associativity := by decide
  numMshrs_pos : 0 < numMshrs := by decide
  txBytes_pos : 0 < txBytes := by decide

namespace LLCConfig

/-- `m_linesize_bytes`. -/
def linesizeBytes (cfg : LLCConfig) : Nat := 2 ^ cfg.lineBits

def getIndex (cfg : LLCConfig) (addr : Int) : Int := (addr >>> cfg.lineBits) % 2 ^ cfg.setBits

def getTag (cfg : LLCConfig) (addr : Int) : Int := addr >>> (cfg.setBits + cfg.lineBits)

/-- `align` clears the offset in the line. -/
def align (cfg : LLCConfig) (addr : Int) : Int := (addr >>> cfg.lineBits) * 2 ^ cfg.lineBits

end LLCConfig

/-! ## State -/

inductive LogicalPath where
  | hit
  | mshrMerge
  | missOwner
  deriving DecidableEq, Repr

structure LogicalKey where
  sourceId : Int
  frontendId : Int
  frontendSubId : Int
  deriving DecidableEq, Repr

/-- A request of a core, as the cache keeps it until it is completed. -/
structure LogicalRequest where
  req : Req
  arrive : Int
  originalType : Int
  admissionOrdinal : Nat
  path : LogicalPath
  deriving DecidableEq, Repr

/-- `logical_key`. -/
def logicalKey (req : Req) : LogicalKey := ⟨req.sourceId, req.frontendId, req.frontendSubId⟩

def LogicalRequest.key (l : LogicalRequest) : LogicalKey := logicalKey l.req

/-- The answer to a core. -/
def LogicalRequest.answer (l : LogicalRequest) (arrive depart : Int) : Req :=
  { l.req with typeId := l.originalType, arrive := arrive, depart := depart }

structure Line where
  node : Nat
  addr : Int
  tag : Int
  dirty : Bool := false
  ready : Bool := false
  deriving DecidableEq, Repr

/-- The shared counter of the parts of one line, with the callback of the original request. -/
structure Split where
  remaining : Int
  original : Req
  callback : Completion
  parts : List (Int × Int)
  fired : Nat := 0
  deriving DecidableEq, Repr

/-- The state. `clk` is the frontend's clock, to which the cache has a reference. -/
structure LLC where
  clk : Int := 0
  cacheSets : Int → List Line := fun _ => []
  nextNode : Nat := 0
  mshrs : List (Int × Nat) := []
  receiveRequests : List (Int × List LogicalRequest) := []
  liveLogicalIds : List LogicalKey := []
  missList : List (Int × Req) := []
  hitList : List (Int × LogicalRequest) := []
  splits : List Split := []
  nextLogicalAdmissionOrdinal : Nat := 0
  llcReadAccess : Nat := 0
  llcWriteAccess : Nat := 0
  llcReadMisses : Nat := 0
  llcWriteMisses : Nat := 0
  llcEviction : Nat := 0
  llcMshrUnavailable : Nat := 0
  logicalRequestsCompleted : Int := 0
  logicalRequestsLive : Int := 0
  logicalRequestsPeak : Int := 0
  logicalRequestsHit : Int := 0
  logicalRequestsMshrMerge : Int := 0
  logicalRequestsMissOwner : Int := 0
  internalWritebacksGenerated : Int := 0
  internalWritebacksCompleted : Int := 0
  internalWritebacksLive : Int := 0
  memory : List Req := []
  attempts : Nat := 0
  accepted : List LogicalRequest := []
  completed : List LogicalRequest := []

namespace LLC

/-! ## Logical requests -/

/-- `validate_logical_identity`. -/
def validate (req : Req) (s : LLC) : Except Fault Unit :=
  if req.sourceId < 0 ∨ req.frontendId < 0 ∨ req.frontendSubId < 0 then
    .error (.request "SimpleO3 LLC request is missing a valid stable frontend identity")
  else if req.typeId ≠ Request.read ∧ req.typeId ≠ Request.write then
    .error (.request "SimpleO3 LLC received an unsupported logical request type")
  else if logicalKey req ∈ s.liveLogicalIds then
    .error (.request "SimpleO3 LLC received a duplicate live stable frontend identity")
  else .ok ()

/-- The counter of a path. -/
def countPath (path : LogicalPath) (s : LLC) : LLC :=
  match path with
  | .hit => { s with logicalRequestsHit := s.logicalRequestsHit + 1 }
  | .mshrMerge => { s with logicalRequestsMshrMerge := s.logicalRequestsMshrMerge + 1 }
  | .missOwner => { s with logicalRequestsMissOwner := s.logicalRequestsMissOwner + 1 }

/-- `begin_logical_request`. -/
def beginLogicalRequest (req : Req) (originalType : Int) (path : LogicalPath) (s : LLC) :
    Except Fault (LogicalRequest × LLC) :=
  if logicalKey req ∈ s.liveLogicalIds then
    .error (.cache "SimpleO3 LLC failed to register a unique live frontend identity")
  else
    let logical : LogicalRequest := ⟨req, s.clk, originalType, s.nextLogicalAdmissionOrdinal, path⟩
    .ok (logical, countPath path { s with
      liveLogicalIds := s.liveLogicalIds ++ [logicalKey req]
      logicalRequestsLive := s.logicalRequestsLive + 1
      logicalRequestsPeak := max s.logicalRequestsPeak (s.logicalRequestsLive + 1)
      nextLogicalAdmissionOrdinal := s.nextLogicalAdmissionOrdinal + 1
      accepted := s.accepted ++ [logical] })

/-- `complete_logical_request`. -/
def completeLogicalRequest (logical : LogicalRequest) (s : LLC) : Except Fault LLC :=
  if s.clk < logical.arrive then
    .error (.cache "SimpleO3 logical request completed before it arrived at the LLC")
  else if logical.key ∉ s.liveLogicalIds then
    .error (.cache "SimpleO3 logical request completion has no unique live identity")
  else if s.logicalRequestsLive ≤ 0 then
    .error (.cache "SimpleO3 logical live-request count underflow")
  else .ok { s with
    liveLogicalIds := s.liveLogicalIds.erase logical.key
    logicalRequestsLive := s.logicalRequestsLive - 1
    logicalRequestsCompleted := s.logicalRequestsCompleted + 1
    completed := s.completed ++ [logical] }

/-! ## Sets -/

/-- `check_set_hit`: the first line with the tag, if it is ready. -/
def checkSetHit (cfg : LLCConfig) (addr : Int) (set : List Line) : Option Line :=
  (set.find? (·.tag = cfg.getTag addr)).filter (·.ready)

/-- `check_mshr_hit`. -/
def checkMshrHit (cfg : LLCConfig) (addr : Int) (s : LLC) : Option (Int × Nat) :=
  s.mshrs.find? fun m => cfg.align m.1 = cfg.align addr

def setCacheSet (index : Int) (set : List Line) (s : LLC) : LLC :=
  { s with cacheSets := Function.update s.cacheSets index set }

/-- Write through an iterator. -/
def modifyLine (cfg : LLCConfig) (addr : Int) (node : Nat) (f : Line → Line) (s : LLC) : LLC :=
  s.setCacheSet (cfg.getIndex addr)
    ((s.cacheSets (cfg.getIndex addr)).map fun l => if l.node = node then f l else l)

/-! ## Requests to memory -/

/-- The parts of a line: their addresses and sizes. -/
def partsOf (cfg : LLCConfig) (addr : Int) : List (Int × Int) :=
  (List.range (cfg.linesizeBytes / cfg.txBytes)).map fun (i : Nat) =>
    (cfg.align addr + i * cfg.txBytes, (cfg.txBytes : Int))

/-- `enqueue_miss`: a request of line size, whole or in parts. -/
def enqueueMiss (cfg : LLCConfig) (c : Completion) (req : Req) (s : LLC) : LLC :=
  if cfg.txBytes ≥ cfg.linesizeBytes then
    { s with missList := s.missList ++ [(s.clk + cfg.latency, { req with callback := some (.whole c) })] }
  else
    let parts := partsOf cfg req.addr
    let sub (part : (Int × Int) × Nat) : Int × Req :=
      (s.clk + cfg.latency, { req with
        addr := part.1.1
        sizeBytes := part.1.2
        frontendSubId := part.2
        callback := some (.part s.splits.length) })
    { s with
      missList := s.missList ++ parts.zipIdx.map sub
      splits := s.splits ++ [⟨parts.length, req, c, parts, 0⟩] }

/-- `evict_line`. -/
def evictLine (cfg : LLCConfig) (index : Int) (victim : Line) (s : LLC) : LLC :=
  let s := { s with llcEviction := s.llcEviction + 1 }
  let s := if victim.dirty then
      { s with
        internalWritebacksGenerated := s.internalWritebacksGenerated + 1
        internalWritebacksLive := s.internalWritebacksLive + 1 }.enqueueMiss cfg .writebackDone
        { addr := victim.addr, typeId := Request.write, sizeBytes := cfg.linesizeBytes }
    else s
  s.setCacheSet index ((s.cacheSets index).filter (·.node ≠ victim.node))

/-- `allocate_line`, which makes room if the set is full. -/
def allocateLine (cfg : LLCConfig) (addr : Int) (dirty : Bool) (s : LLC) : Except Fault LLC :=
  let index := cfg.getIndex addr
  let set := s.cacheSets index
  let push (s : LLC) : LLC :=
    { s.setCacheSet index (s.cacheSets index ++ [⟨s.nextNode, addr, cfg.getTag addr, dirty, false⟩]) with
      nextNode := s.nextNode + 1 }
  if set.any (·.tag = cfg.getTag addr) then .error (.cache "assert in need_eviction")
  else if set.length < cfg.associativity then .ok (push s)
  else
    match set.find? (·.ready) with
    | none => .error (.cache "Failed to allocate new line when there is available entry.")
    | some victim => .ok (push (s.evictLine cfg index victim))

/-! ## `send` -/

/-- The counters of accesses. -/
def countAccess (req : Req) (s : LLC) : LLC :=
  if req.typeId = Request.read then { s with llcReadAccess := s.llcReadAccess + 1 }
  else { s with llcWriteAccess := s.llcWriteAccess + 1 }

def countMiss (req : Req) (s : LLC) : LLC :=
  if req.typeId = Request.read then { s with llcReadMisses := s.llcReadMisses + 1 }
  else { s with llcWriteMisses := s.llcWriteMisses + 1 }

/-- The branch for hits: the line becomes the most recently used one. -/
def sendHit (cfg : LLCConfig) (req : Req) (line : Line) (s : LLC) : Except Fault LLC :=
  let index := cfg.getIndex req.addr
  let moved : Line := ⟨s.nextNode, req.addr, cfg.getTag req.addr,
    line.dirty || req.typeId = Request.write, true⟩
  let s := { s.setCacheSet index ((s.cacheSets index).filter (·.node ≠ line.node) ++ [moved]) with
    nextNode := s.nextNode + 1 }
  (s.beginLogicalRequest req req.typeId .hit).map fun (logical, s) =>
    { s with hitList := s.hitList ++ [(s.clk + cfg.latency, logical)] }

/-- One more request in the bucket of `addr`. -/
def addTo (addr : Int) (logical : LogicalRequest) (bucket : Int × List LogicalRequest) :
    Int × List LogicalRequest :=
  if bucket.1 = addr then (bucket.1, bucket.2 ++ [logical]) else bucket

/-- The branch for misses to a line that is under way. -/
def sendMerge (cfg : LLCConfig) (req : Req) (mshr : Int × Nat) (s : LLC) : Except Fault LLC :=
  if mshr.1 ∉ s.receiveRequests.map (·.1) then
    .error (.cache "SimpleO3 MSHR has no logical owner bucket")
  else
    (s.beginLogicalRequest { req with typeId := Request.read } req.typeId .mshrMerge).map
      fun (logical, s) =>
        { s with
          receiveRequests := s.receiveRequests.map (addTo mshr.1 logical) }.modifyLine cfg mshr.1 mshr.2
          fun l => { l with dirty := decide (req.typeId = Request.write) || l.dirty }

/-- The branch for misses that fetch their line. -/
def sendMiss (cfg : LLCConfig) (req : Req) (s : LLC) : Except Fault LLC := do
  let node := s.nextNode
  let s ← s.allocateLine cfg req.addr (req.typeId = Request.write)
  if req.addr ∈ s.receiveRequests.map (·.1) then
    .error (.cache "SimpleO3 new miss collided with a live completion bucket")
  else
    let fill := { req with typeId := Request.read }
    let (logical, s) ← s.beginLogicalRequest fill req.typeId .missOwner
    let s := { s with
      mshrs := s.mshrs ++ [(req.addr, node)]
      receiveRequests := s.receiveRequests ++ [(req.addr, [logical])] }
    pure (s.enqueueMiss cfg .receive { fill with sizeBytes := cfg.linesizeBytes })

/-- A line of the set may be replaced, or there is room. -/
def lineAvailable (cfg : LLCConfig) (set : List Line) : Bool :=
  set.length < cfg.associativity || set.any (·.ready)

/-- `send` of a valid request. -/
def sendValid (cfg : LLCConfig) (req : Req) (s : LLC) : Except Fault (Bool × LLC) :=
  match checkSetHit cfg req.addr (s.cacheSets (cfg.getIndex req.addr)) with
  | some line => (s.sendHit cfg req line).map fun s => (true, s)
  | none =>
      let s := s.countMiss req
      match s.checkMshrHit cfg req.addr with
      | some mshr => (s.sendMerge cfg req mshr).map fun s => (true, s)
      | none =>
          if s.mshrs.length = cfg.numMshrs then
            .ok (false, { s with llcMshrUnavailable := s.llcMshrUnavailable + 1 })
          else if !lineAvailable cfg (s.cacheSets (cfg.getIndex req.addr)) then .ok (false, s)
          else (s.sendMiss cfg req).map fun s => (true, s)

/-- `SimpleO3LLC::send`. -/
def send (cfg : LLCConfig) (req : Req) (s : LLC) : Except Fault (Bool × LLC) :=
  s.validate req >>= fun _ => (s.countAccess req).sendValid cfg req

/-! ## Completions -/

/-- `take_receive_requests`. -/
def takeReceiveRequests (addr : Int) (s : LLC) : Except Fault (List LogicalRequest × LLC) :=
  match s.receiveRequests.find? (·.1 = addr) with
  | none => .error (.cache "SimpleO3 LLC completion has no logical request bucket")
  | some bucket =>
      if bucket.2 = [] then .error (.cache "SimpleO3 LLC completion has no logical request bucket")
      else .ok (bucket.2, { s with receiveRequests := s.receiveRequests.filter (·.1 ≠ addr) })

/-- `SimpleO3LLC::receive`: the line is there. -/
def receive (cfg : LLCConfig) (addr : Int) (s : LLC) : Except Fault LLC :=
  match s.checkMshrHit cfg addr with
  | none => .error (.cache "SimpleO3 memory completion has no matching live MSHR")
  | some mshr =>
      .ok { s.modifyLine cfg mshr.1 mshr.2 fun l => { l with ready := true } with
        mshrs := s.mshrs.erase mshr }

/-- `SimpleO3::receive`: the answers to the cores that waited for the line. -/
def receiveLine (cfg : LLCConfig) (addr arrive depart : Int) (s : LLC) :
    Except Fault (List Req × LLC) := do
  let (requests, s) ← s.takeReceiveRequests addr
  if requests.any (·.path = .hit) then
    .error (.cache "SimpleO3 memory completion contains an LLC-hit request")
  else
    let s ← s.receive cfg addr
    let s ← requests.foldlM (fun s l => completeLogicalRequest l s) s
    pure (requests.map (LogicalRequest.answer · arrive depart), s)

/-- The callback of an internal writeback. -/
def writebackDone (s : LLC) : Except Fault LLC :=
  if s.internalWritebacksLive ≤ 0 then
    .error (.cache "SimpleO3 LLC internal-writeback completion underflow")
  else .ok { s with
    internalWritebacksLive := s.internalWritebacksLive - 1
    internalWritebacksCompleted := s.internalWritebacksCompleted + 1 }

/-- The callback of a request of line size. -/
def complete (cfg : LLCConfig) (c : Completion) (addr arrive depart : Int) (s : LLC) :
    Except Fault (List Req × LLC) :=
  match c with
  | .receive => s.receiveLine cfg addr arrive depart
  | .writebackDone => s.writebackDone.map fun s => ([], s)

/-- A request comes back from memory. The last part of a line calls the callback of the original
request with a copy of it. -/
def callBack (cfg : LLCConfig) (req : Req) (s : LLC) : Except Fault (List Req × LLC) :=
  match req.callback with
  | none => .ok ([], s)
  | some (.whole c) => s.complete cfg c req.addr req.arrive req.depart
  | some (.part g) =>
      match s.splits[g]? with
      | none => .error (.cache "no such split request")
      | some split =>
          let last : Bool := split.remaining - 1 = 0
          let fired := if last then split.fired + 1 else split.fired
          let s := { s with
            splits := s.splits.set g { split with remaining := split.remaining - 1, fired := fired } }
          if last then
            s.complete cfg split.callback split.original.addr split.original.arrive split.original.depart
          else .ok ([], s)

/-! ## Ticks -/

/-- The answer of the memory system to a request: it may call it back before it returns. -/
inductive Decision where
  | reject
  | accept
  | acceptNow (arrive depart : Int)
  deriving DecidableEq, Repr

/-- The memory system takes the `i`-th request of the list. -/
def takeMiss (i : Nat) (req : Req) (s : LLC) : LLC :=
  { s with missList := s.missList.eraseIdx i, memory := s.memory ++ [req] }

/-- It calls back the `j`-th request that it has taken. -/
def deliver (cfg : LLCConfig) (j : Nat) (arrive depart : Int) (s : LLC) :
    Except Fault (List Req × LLC) :=
  match s.memory[j]? with
  | none => .ok ([], s)
  | some req =>
      { s with memory := s.memory.eraseIdx j }.callBack cfg { req with arrive := arrive, depart := depart }

/-- The loop over the misses from the `i`-th on. `decisions` are the answers to the attempts of this
tick, `answers` those to the cores. -/
def sendMisses (cfg : LLCConfig) (decisions : Nat → Decision) :
    Nat → Nat → List Req → LLC → Except Fault (List Req × LLC)
  | 0, _, answers, s => .ok (answers, s)
  | n + 1, i, answers, s =>
      match s.missList[i]? with
      | none => .ok (answers, s)
      | some (due, req) =>
          if s.clk ≥ due then
            let s := { s with attempts := s.attempts + 1 }
            match decisions s.attempts with
            | .reject => sendMisses cfg decisions n (i + 1) answers s
            | .accept => sendMisses cfg decisions n i answers (s.takeMiss i req)
            | .acceptNow arrive depart =>
                (s.takeMiss i req).deliver cfg s.memory.length arrive depart >>= fun (done, s) =>
                  sendMisses cfg decisions n i (answers ++ done) s
          else sendMisses cfg decisions n (i + 1) answers s

/-- The loop over the hits (`SimpleO3::receive_hit`). -/
def finishHits : Nat → Nat → List Req → LLC → Except Fault (List Req × LLC)
  | 0, _, answers, s => .ok (answers, s)
  | n + 1, i, answers, s =>
      match s.hitList[i]? with
      | none => .ok (answers, s)
      | some (due, logical) =>
          if s.clk ≥ due then
            if logical.path ≠ .hit then
              .error (.cache "SimpleO3 hit completion has a non-hit logical path")
            else
              completeLogicalRequest logical { s with hitList := s.hitList.eraseIdx i } >>= fun s =>
                finishHits n i (answers ++ [logical.answer logical.req.arrive logical.req.depart]) s
          else finishHits n (i + 1) answers s

/-- `SimpleO3LLC::tick`. -/
def tick (cfg : LLCConfig) (decisions : Nat → Decision) (s : LLC) : Except Fault (List Req × LLC) :=
  sendMisses cfg decisions s.missList.length 0 [] s >>= fun (answers, s) =>
    finishHits s.hitList.length 0 answers s

/-! ## Idle ticks and the end -/

/-- `next_event`: the earliest cycle at which `tick` would do something, `0` if it is due. -/
def nextEvent (never : Int) (s : LLC) : Int :=
  let dues := s.missList.map (·.1) ++ s.hitList.map (·.1)
  if dues.any (· ≤ s.clk) then 0 else dues.foldl min never

/-- `is_quiescent`. -/
def isQuiescent (s : LLC) : Except Fault Bool :=
  if s.logicalRequestsLive ≠ s.liveLogicalIds.length then
    .error (.cache "SimpleO3 LLC live-request accounting is inconsistent")
  else if s.receiveRequests = [] ∧ s.hitList = [] ∧ s.liveLogicalIds ≠ [] then
    .error (.cache "SimpleO3 LLC lost a live logical request")
  else if s.internalWritebacksLive < 0 ∨
      s.internalWritebacksCompleted > s.internalWritebacksGenerated ∨
      s.internalWritebacksLive + s.internalWritebacksCompleted ≠ s.internalWritebacksGenerated then
    .error (.cache "SimpleO3 LLC internal-writeback accounting is inconsistent")
  else .ok (s.missList.isEmpty && s.hitList.isEmpty && s.mshrs.isEmpty && s.receiveRequests.isEmpty &&
    s.liveLogicalIds.isEmpty && s.internalWritebacksLive == 0)

/-! ## Only the frontend moves the clock -/

variable {cfg : LLCConfig} {s s' : LLC}

@[simp] theorem clk_countPath (path : LogicalPath) (s : LLC) : (s.countPath path).clk = s.clk := by
  cases path <;> rfl

theorem clk_beginLogicalRequest {req : Req} {type : Int} {path : LogicalPath} {l : LogicalRequest}
    (h : s.beginLogicalRequest req type path = .ok (l, s')) : s'.clk = s.clk := by
  unfold beginLogicalRequest at h
  split_ifs at h
  cases h
  exact clk_countPath path _

theorem clk_completeLogicalRequest {l : LogicalRequest} (h : completeLogicalRequest l s = .ok s') :
    s'.clk = s.clk := by
  unfold completeLogicalRequest at h
  split_ifs at h
  cases h
  rfl

@[simp] theorem clk_enqueueMiss (cfg : LLCConfig) (c : Completion) (req : Req) (s : LLC) :
    (s.enqueueMiss cfg c req).clk = s.clk := by
  unfold enqueueMiss
  split_ifs <;> rfl

@[simp] theorem clk_evictLine (cfg : LLCConfig) (index : Int) (victim : Line) (s : LLC) :
    (s.evictLine cfg index victim).clk = s.clk := by
  unfold evictLine setCacheSet
  dsimp only
  split_ifs
  · exact clk_enqueueMiss cfg _ _ _
  · rfl

theorem clk_allocateLine {addr : Int} {dirty : Bool} (h : s.allocateLine cfg addr dirty = .ok s') :
    s'.clk = s.clk := by
  unfold allocateLine at h
  dsimp only at h
  split_ifs at h
  · cases h
    rfl
  · split at h
    · cases h
    · cases h
      exact clk_evictLine cfg (cfg.getIndex addr) _ s

theorem clk_sendValid {req : Req} {b : Bool} (h : s.sendValid cfg req = .ok (b, s')) :
    s'.clk = s.clk := by
  have hmiss : (s.countMiss req).clk = s.clk := by
    unfold countMiss
    split_ifs <;> rfl
  unfold sendValid at h
  dsimp only at h
  split at h
  · obtain ⟨t, ht, heq⟩ := except_map_eq_ok.mp h
    cases heq
    obtain ⟨⟨l, u⟩, hu, rfl⟩ := except_map_eq_ok.mp ht
    exact (clk_beginLogicalRequest hu).trans rfl
  · split at h
    · obtain ⟨t, ht, heq⟩ := except_map_eq_ok.mp h
      cases heq
      unfold sendMerge at ht
      split_ifs at ht
      obtain ⟨⟨l, u⟩, hu, rfl⟩ := except_map_eq_ok.mp ht
      exact (clk_beginLogicalRequest hu).trans hmiss
    · split_ifs at h
      · cases h
        exact hmiss
      · cases h
        exact hmiss
      · obtain ⟨t, ht, heq⟩ := except_map_eq_ok.mp h
        cases heq
        obtain ⟨u, hu, ht⟩ := except_bind_eq_ok.mp ht
        split_ifs at ht
        obtain ⟨⟨l, v⟩, hv, ht⟩ := except_bind_eq_ok.mp ht
        cases ht
        rw [clk_enqueueMiss]
        exact (clk_beginLogicalRequest hv).trans ((clk_allocateLine hu).trans hmiss)

theorem clk_send {req : Req} {b : Bool} (h : s.send cfg req = .ok (b, s')) : s'.clk = s.clk := by
  obtain ⟨-, -, h⟩ := except_bind_eq_ok.mp h
  have haccess : (s.countAccess req).clk = s.clk := by
    unfold countAccess
    split_ifs <;> rfl
  exact (clk_sendValid h).trans haccess

theorem clk_complete {c : Completion} {addr arrive depart : Int} {answers : List Req}
    (h : s.complete cfg c addr arrive depart = .ok (answers, s')) : s'.clk = s.clk := by
  cases c with
  | writebackDone =>
      obtain ⟨t, ht, heq⟩ := except_map_eq_ok.mp h
      cases heq
      unfold writebackDone at ht
      split_ifs at ht
      cases ht
      rfl
  | receive =>
      obtain ⟨⟨requests, t⟩, ht, h⟩ := except_bind_eq_ok.mp h
      have htake : t.clk = s.clk := by
        unfold takeReceiveRequests at ht
        split at ht
        · cases ht
        · split_ifs at ht
          cases ht
          rfl
      dsimp only at h
      split_ifs at h
      obtain ⟨u, hu, h⟩ := except_bind_eq_ok.mp h
      have hreceive : u.clk = t.clk := by
        unfold receive at hu
        split at hu
        · cases hu
        · cases hu
          rfl
      obtain ⟨v, hv, h⟩ := except_bind_eq_ok.mp h
      cases h
      refine foldlM_preserves (P := fun w => w.clk = s.clk) ?_ (hreceive.trans htake) hv
      intro w l w' _ hw hstep
      exact (clk_completeLogicalRequest hstep).trans hw

theorem clk_deliver {j : Nat} {arrive depart : Int} {answers : List Req}
    (h : s.deliver cfg j arrive depart = .ok (answers, s')) : s'.clk = s.clk := by
  unfold deliver at h
  split at h
  · cases h
    rfl
  · unfold callBack at h
    split at h
    · cases h
      rfl
    · exact (clk_complete h).trans rfl
    · split at h
      · cases h
      · dsimp only at h
        split_ifs at h
        · exact (clk_complete h).trans rfl
        · cases h
          rfl

theorem clk_sendMisses {decisions : Nat → Decision} {n i : Nat} {answers answers' : List Req}
    (h : sendMisses cfg decisions n i answers s = .ok (answers', s')) : s'.clk = s.clk := by
  induction n generalizing i answers s with
  | zero =>
      cases h
      rfl
  | succ n ih =>
      unfold sendMisses at h
      split at h
      · cases h
        rfl
      · dsimp only at h
        split_ifs at h
        · split at h
          · exact (ih h).trans rfl
          · exact (ih h).trans rfl
          · obtain ⟨⟨done, t⟩, ht, h⟩ := except_bind_eq_ok.mp h
            exact (ih h).trans ((clk_deliver ht).trans rfl)
        · exact ih h

theorem clk_finishHits {n i : Nat} {answers answers' : List Req}
    (h : finishHits n i answers s = .ok (answers', s')) : s'.clk = s.clk := by
  induction n generalizing i answers s with
  | zero =>
      cases h
      rfl
  | succ n ih =>
      unfold finishHits at h
      split at h
      · cases h
        rfl
      · split_ifs at h
        · obtain ⟨t, ht, h⟩ := except_bind_eq_ok.mp h
          exact (ih h).trans ((clk_completeLogicalRequest ht).trans rfl)
        · exact ih h

theorem clk_tick {decisions : Nat → Decision} {answers : List Req}
    (h : s.tick cfg decisions = .ok (answers, s')) : s'.clk = s.clk := by
  obtain ⟨⟨answers', t⟩, ht, h⟩ := except_bind_eq_ok.mp h
  exact (clk_finishHits h).trans (clk_sendMisses ht)

/-! ## Before the next event -/

/-- Every entry of the two lists is later than `t`. -/
def QuietUntil (t : Int) (s : LLC) : Prop :=
  (∀ m ∈ s.missList, t < m.1) ∧ ∀ h ∈ s.hitList, t < h.1

/-- What `next_event` says of the lists. -/
theorem quietUntil_of_nextEvent {never t : Int} {s : LLC} (hpos : 0 ≤ t) (h : t < s.nextEvent never) :
    s.QuietUntil t := by
  have hfold : ∀ (dues : List Int) (start : Int), t < dues.foldl min start → ∀ d ∈ dues, t < d := by
    intro dues
    induction dues with
    | nil => simp
    | cons d dues ih =>
        intro start hlt x hx
        rw [List.foldl_cons] at hlt
        have hstart : ∀ (l : List Int) (a : Int), l.foldl min a ≤ a := by
          intro l
          induction l with
          | nil => exact fun a => le_refl a
          | cons b l ihl => exact fun a => (ihl (min a b)).trans (min_le_left a b)
        rcases List.mem_cons.mp hx with rfl | hx
        · exact lt_of_lt_of_le hlt ((hstart dues _).trans (min_le_right start x))
        · exact ih (min start d) hlt x hx
  unfold nextEvent at h
  dsimp only at h
  split_ifs at h
  · omega
  · have hall := hfold _ _ h
    exact ⟨fun m hm => hall m.1 (List.mem_append_left _ (List.mem_map_of_mem hm)),
      fun x hx => hall x.1 (List.mem_append_right _ (List.mem_map_of_mem hx))⟩

/-- A tick before the next event does nothing. -/
theorem tick_of_quiet {cfg : LLCConfig} {s : LLC} (h : s.QuietUntil s.clk)
    (decisions : Nat → Decision) : s.tick cfg decisions = .ok ([], s) := by
  have hmisses : ∀ n i, sendMisses cfg decisions n i [] s = .ok ([], s) := by
    intro n
    induction n with
    | zero => exact fun i => rfl
    | succ n ih =>
        intro i
        unfold sendMisses
        cases hi : s.missList[i]? with
        | none => rfl
        | some m =>
            have hlt := h.1 m (List.mem_of_getElem? hi)
            simp only
            rw [if_neg (not_le.mpr hlt)]
            exact ih (i + 1)
  have hhits : ∀ n i, finishHits n i [] s = .ok ([], s) := by
    intro n
    induction n with
    | zero => exact fun i => rfl
    | succ n ih =>
        intro i
        unfold finishHits
        cases hi : s.hitList[i]? with
        | none => rfl
        | some x =>
            have hlt := h.2 x (List.mem_of_getElem? hi)
            simp only
            rw [if_neg (not_le.mpr hlt)]
            exact ih (i + 1)
  unfold tick
  rw [hmisses]
  exact hhits _ 0

end LLC

end Ramulator.Frontend.O3
