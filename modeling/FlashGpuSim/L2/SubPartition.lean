import FlashGpuSim.Cache.TagArray
import FlashGpuSim.L2.SectorCoalescer
import FlashGpuSim.Lib.Reach

/-!
The request and response queues of an L2 sub-partition, after `memory_sub_partition` in
`l2cache.cc`. The cache and the DRAM behind it are the environment: they take requests from
the queue in front of L2 and answer what they took, in any order. TMA reads of a sector
whose response is outstanding join its master instead of entering the queue.
-/

namespace FlashGpuSim

open Lib

/-- A request to L2. A child of a broken-down request has no instruction of its own, and
`originalIsAtomic` is what the instruction of its original says. -/
structure L2Fetch extends MemFetch where
  isTexture : Bool
  sid : Nat
  originalIsAtomic : Bool
  deriving DecidableEq

structure SubPartitionConfig where
  cacheType : CacheType
  l2TmaRequestCoalescing : Bool
  ropLatency : Nat
  l2PartitionExtraLatency : Nat
  l2PartitionCount : Nat
  numShader : Nat
  nMemSubPartition : Nat
  subPartitionId : Nat
  ropDelayOutputSectorsPerCycle : Nat
  icntL2Length : Nat
  l2IcntLength : Nat

/-- `coarse_l2_partition_id` -/
def coarseL2PartitionId (id total partitionCount : Nat) : Nat :=
  min (id * partitionCount / total) (partitionCount - 1)

namespace L2Fetch

variable (mf : L2Fetch)

def sectorAddr : NewAddrType := mf.addr - mf.addr % 32

/-- The requests that coalesce: TMA reads of one sector. -/
def isTmaSector : Bool :=
  !mf.isWrite && !mf.isAtomic && decide (mf.accessType = .tmaAccR) && decide (mf.dataSize = 32)

def isWriteback : Bool :=
  decide (mf.accessType = .l2WrbkAcc) || decide (mf.accessType = .l1WrbkAcc)

/-- The sectors a request is broken into; a request of one sector stays whole. -/
def childSectorMask : MemAccessSectorMask :=
  if mf.dataSize = 128 then BitVec.allOnes sectorChunckSize
  else if mf.dataSize = 64 ∧ (mf.sectorMask = BitVec.allOnes sectorChunckSize ∨ mf.sectorMask = 0)
    then if mf.addr % 128 = 0 then 0b0011 else 0b1100
  else mf.sectorMask

/-- The child for sector `i`, with the pointer `id`. -/
def sectorChild (id i : Nat) : L2Fetch where
  id := id
  addr := mf.addr - mf.addr % 128 + BitVec.ofNat 64 (32 * i)
  dataSize := 32
  isWrite := mf.isWrite
  isAtomic := false
  accessType := mf.accessType
  byteMask := mf.byteMask &&& ((BitVec.allOnes 32).setWidth 128 <<< (32 * i))
  sectorMask := 1 <<< i
  isTexture := false
  sid := mf.sid
  originalIsAtomic := mf.isAtomic

/-- `breakdown_request_to_sector_requests`; the children take the pointers from `id` on. -/
def breakdown (id : Nat) : Except L2Failure (List L2Fetch) :=
  if mf.dataSize = 32 ∧ (List.range 4).countP mf.sectorMask.getLsbD = 1 then .ok [mf]
  else do
    let children := ((List.range 4).filter mf.childSectorMask.getLsbD).map
      (fun i => mf.sectorChild (id + i) i)
    require (!children.isEmpty) .noRequest
    pure children

end L2Fetch

/-- An entry of `rop_delay_output_queue` -/
structure RopEntry where
  readyCycle : Nat
  sequence : Nat
  item : L2Fetch

/-- The order of the entries of a delay queue. -/
def RopEntry.earlier (x y : RopEntry) : Prop :=
  x.readyCycle < y.readyCycle ∨ (x.readyCycle = y.readyCycle ∧ x.sequence < y.sequence)

instance : DecidableRel RopEntry.earlier := fun x y =>
  inferInstanceAs (Decidable (x.readyCycle < y.readyCycle ∨
    (x.readyCycle = y.readyCycle ∧ x.sequence < y.sequence)))

/-- What happens to the requests: one enters the queue in front of L2, joins a master, has
its response enqueued, or is delivered. -/
inductive L2Event where
  | entered (mf : L2Fetch)
  | joined (mf master : L2Fetch)
  | responded (mf : L2Fetch)
  | delivered (mf : L2Fetch)
  deriving DecidableEq

/-- `inService` is what L2 has taken and not answered. The two delay queues stand in the order in
which they are served. `log` is the history, which the code does not keep, and `nextId` the
next pointer of the allocator. -/
structure SubPartition (cfg : SubPartitionConfig) where
  nextId : Nat
  ropLocal : List RopEntry
  ropRemote : List RopEntry
  nextSequence : Nat
  icntL2Queue : List L2Fetch
  inService : List L2Fetch
  l2IcntQueue : List L2Fetch
  coalescer : SectorCoalescer L2Fetch NewAddrType
  responseWaiters : L2Fetch → Option (List L2Fetch)
  log : List L2Event

namespace SubPartition

variable {cfg : SubPartitionConfig}

def init (cfg : SubPartitionConfig) : SubPartition cfg where
  nextId := 0
  ropLocal := []
  ropRemote := []
  nextSequence := 0
  icntL2Queue := []
  inService := []
  l2IcntQueue := []
  coalescer := .empty
  responseWaiters := fun _ => none
  log := []

variable (c : SubPartition cfg) (mf : L2Fetch)

/-- `l2_partition_extra_latency` -/
def extraLatency (cfg : SubPartitionConfig) (mf : L2Fetch) : Nat :=
  if cfg.l2PartitionExtraLatency = 0 ∨ cfg.l2PartitionCount ≤ 1 then 0
  else if cfg.numShader ≤ mf.sid then 0
  else if coarseL2PartitionId mf.sid cfg.numShader cfg.l2PartitionCount =
      coarseL2PartitionId cfg.subPartitionId cfg.nMemSubPartition cfg.l2PartitionCount then 0
  else cfg.l2PartitionExtraLatency

/-- `coalesce_l2_tma_request`; the result is the state in which the read has joined. -/
def coalesceL2TmaRequest : Except L2Failure (Option (SubPartition cfg)) :=
  if !cfg.l2TmaRequestCoalescing || !mf.isTmaSector then .ok none
  else do
    match ← c.coalescer.admitWaiter mf.sectorAddr mf with
    | none => pure none
    | some (coalescer, _) =>
      let joined := (c.coalescer.activeMaster mf.sectorAddr).map (L2Event.joined mf)
      pure (some { c with coalescer := coalescer, log := c.log ++ joined.toList })

/-- `register_l2_tma_request` -/
def registerL2TmaRequest : Except L2Failure (SubPartition cfg) :=
  if !cfg.l2TmaRequestCoalescing then .ok c
  else if mf.isWrite || mf.isAtomic then
    .ok { c with coalescer := c.coalescer.closeAddress mf.sectorAddr }
  else if !mf.isTmaSector then .ok c
  else do
    let (coalescer, opened, waiterCount) ← c.coalescer.admitItem mf.sectorAddr mf
    require (opened && decide (waiterCount = 0)) .notOpened
    pure { c with coalescer := coalescer }

def enqueueL2Request : Except L2Failure (SubPartition cfg) := do
  let c ← c.registerL2TmaRequest mf
  require (decide (c.icntL2Queue.length < cfg.icntL2Length)) .queueOverflow
  pure { c with icntL2Queue := c.icntL2Queue ++ [mf], log := c.log ++ [.entered mf] }

def pushRopDelay (readyCycle : Nat) (remote : Bool) : SubPartition cfg :=
  let entry : RopEntry := ⟨readyCycle, c.nextSequence, mf⟩
  if remote then
    { c with
      ropRemote := c.ropRemote.orderedInsert RopEntry.earlier entry
      nextSequence := c.nextSequence + 1 }
  else
    { c with
      ropLocal := c.ropLocal.orderedInsert RopEntry.earlier entry
      nextSequence := c.nextSequence + 1 }

/-- A request of `push`, after it was broken down. -/
def pushRequest (cycle : Nat) : Except L2Failure (SubPartition cfg) :=
  let extra := extraLatency cfg mf
  if mf.isTexture && decide (extra = 0) then do
    match ← c.coalesceL2TmaRequest mf with
    | some c => pure c
    | none => c.enqueueL2Request mf
  else
    let readyCycle := cycle + extra + if mf.isTexture then 0 else cfg.ropLatency
    .ok (c.pushRopDelay mf readyCycle (decide (0 < extra)))

def requests (cfg : SubPartitionConfig) (mf : L2Fetch) (id : Nat) :
    Except L2Failure (List L2Fetch) :=
  match cfg.cacheType with
  | .sector => mf.breakdown id
  | .normal => .ok [mf]

/-- The allocator hands out the pointers of the request and of its children. -/
def push (cycle : Nat) : Except L2Failure (SubPartition cfg) := do
  let reqs ← requests cfg mf (c.nextId + 1)
  reqs.foldlM (fun c req => c.pushRequest req cycle) { c with nextId := c.nextId + 5 }

/-- `rop_delay_output_queue::next_ready_queue`: true stands for the remote queue. -/
def nextReadyQueue (cycle : Nat) : Option Bool :=
  match c.ropLocal, c.ropRemote with
  | [], [] => none
  | x :: _, [] => if x.readyCycle ≤ cycle then some false else none
  | [], y :: _ => if y.readyCycle ≤ cycle then some true else none
  | x :: _, y :: _ =>
    if x.readyCycle ≤ cycle then
      if y.readyCycle ≤ cycle then some (decide (y.readyCycle < x.readyCycle)) else some false
    else if y.readyCycle ≤ cycle then some true
    else none

/-- The next ready request and the state without it. -/
def popReady (cycle : Nat) : Option (L2Fetch × SubPartition cfg) :=
  match c.nextReadyQueue cycle with
  | none => none
  | some false =>
    match c.ropLocal with
    | [] => none
    | x :: rest => some (x.item, { c with ropLocal := rest })
  | some true =>
    match c.ropRemote with
    | [] => none
    | y :: rest => some (y.item, { c with ropRemote := rest })

/-- The sectors of a request, as `enqueue_ready_rop` counts them. -/
def ropSectors : Except L2Failure Nat := do
  require (decide (0 < mf.dataSize)) .noSectors
  pure ((mf.dataSize + 31) / 32)

/-- Whether the width of the output lets a request through, after `items` requests with
`sectors` sectors. -/
def widthAllows (cfg : SubPartitionConfig) (mf : L2Fetch) (items sectors : Nat) :
    Except L2Failure Bool := do
  let n ← ropSectors mf
  if cfg.ropDelayOutputSectorsPerCycle = 1 then pure (decide (items ≠ 1))
  else do
    require (decide (n = 1)) .sectorChildren
    pure (decide (sectors + n ≤ cfg.ropDelayOutputSectorsPerCycle))

/-- The loop of `rop_delay_output_queue::service`. A read that joins a master takes no part
of the width. -/
def ropService (cycle : Nat) :
    Nat → SubPartition cfg → Nat → Nat → Except L2Failure (SubPartition cfg)
  | 0, c, _, _ => .ok c
  | turns + 1, c, items, sectors =>
    match c.popReady cycle with
    | none => .ok c
    | some (mf, popped) => do
      match ← popped.coalesceL2TmaRequest mf with
      | some joined => ropService cycle turns joined items sectors
      | none => do
        let fits ← widthAllows cfg mf items sectors
        if !fits then pure c
        else if decide (cfg.icntL2Length ≤ c.icntL2Queue.length) then pure c
        else do
          let n ← ropSectors mf
          let accepted ← popped.enqueueL2Request mf
          ropService cycle turns accepted (items + 1) (sectors + n)

def enqueueReadyRop (cycle : Nat) : Except L2Failure (SubPartition cfg) := do
  require (decide (0 < cfg.ropDelayOutputSectorsPerCycle)) .ropWidth
  ropService cycle (c.ropLocal.length + c.ropRemote.length) c 0 0

/-- `finalize_l2_tma_coalesced_response` -/
def finalizeL2TmaCoalescedResponse : Except L2Failure (SubPartition cfg) :=
  if !cfg.l2TmaRequestCoalescing || decide (mf.accessType ≠ .tmaAccR) then .ok c
  else
    match c.coalescer.closeMaster mf with
    | none => .ok c
    | some (coalescer, waiters) => do
      require (c.responseWaiters mf).isNone .responseWaitersExist
      pure
        { c with
          coalescer := coalescer
          responseWaiters :=
            if waiters.isEmpty then c.responseWaiters
            else Function.update c.responseWaiters mf (some waiters) }

def enqueueL2Response : Except L2Failure (SubPartition cfg) := do
  let c ← c.finalizeL2TmaCoalescedResponse mf
  require (decide (c.l2IcntQueue.length < cfg.l2IcntLength)) .queueOverflow
  pure { c with l2IcntQueue := c.l2IcntQueue ++ [mf], log := c.log ++ [.responded mf] }

/-- `release_next_l2_tma_coalesced_response` -/
def releaseNext : Except L2Failure (SubPartition cfg) :=
  if !cfg.l2TmaRequestCoalescing || decide (mf.accessType ≠ .tmaAccR) then .ok c
  else
    match c.responseWaiters mf with
    | none => .ok c
    | some [] => .error .emptyResponseWaiters
    | some (next :: remaining) => do
      let erased := Function.update c.responseWaiters mf none
      let c :=
        { c with
          responseWaiters :=
            if remaining.isEmpty then erased else Function.update erased next (some remaining) }
      require (decide (c.l2IcntQueue.length < cfg.l2IcntLength)) .responseQueueFull
      c.enqueueL2Response next

/-- `extract_l2_tma_coalesced_responses`: all waiters leave with the response. -/
def extract : SubPartition cfg :=
  if !cfg.l2TmaRequestCoalescing || decide (mf.accessType ≠ .tmaAccR) then c
  else
    match c.responseWaiters mf with
    | none => c
    | some waiters =>
      { c with
        responseWaiters := Function.update c.responseWaiters mf none
        log := c.log ++ waiters.map L2Event.delivered }

def pop (multicast : Bool) : Except L2Failure (SubPartition cfg) :=
  match c.l2IcntQueue with
  | [] => .ok c
  | mf :: rest =>
    let delivered := if mf.isWriteback then [] else [L2Event.delivered mf]
    let popped := { c with l2IcntQueue := rest, log := c.log ++ delivered }
    if multicast then .ok (popped.extract mf) else popped.releaseNext mf

/-- Write-backs at the head are dropped. -/
def top : SubPartition cfg :=
  match c.l2IcntQueue with
  | [] => c
  | mf :: rest => if mf.isWriteback then { c with l2IcntQueue := rest } else c

end SubPartition

/-- What happens to a sub-partition: the interconnect pushes a request, the delay stage is
served, L2 takes a request, L2 answers one, and the interconnect pops or looks at a
response. -/
inductive L2Op where
  | push (mf : L2Fetch) (cycle : Nat)
  | enqueueReadyRop (cycle : Nat)
  | take
  | respond (mf : L2Fetch)
  | pop (multicast : Bool)
  | top

namespace SubPartition

variable {cfg : SubPartitionConfig} (c : SubPartition cfg)

def step : L2Op → Except L2Failure (SubPartition cfg)
  | .push mf cycle => c.push mf cycle
  | .enqueueReadyRop cycle => c.enqueueReadyRop cycle
  | .take =>
    match c.icntL2Queue with
    | [] => .error .queueEmpty
    | mf :: rest => .ok { c with icntL2Queue := rest, inService := c.inService ++ [mf] }
  | .respond mf => { c with inService := c.inService.erase mf }.enqueueL2Response mf
  | .pop multicast => c.pop multicast
  | .top => .ok c.top

/-- A pushed request is new. L2 answers the TMA reads it has taken; what else it enqueues does
not matter here. It enqueues a response only where there is room. -/
def allowed : L2Op → Prop
  | .push mf _ => mf.id = c.nextId
  | .enqueueReadyRop _ => True
  | .take => c.icntL2Queue ≠ []
  | .respond mf => (mf ∈ c.inService ∨ mf.accessType ≠ .tmaAccR) ∧
      c.l2IcntQueue.length < cfg.l2IcntLength
  | .pop _ | .top => True

instance : (o : L2Op) → Decidable (c.allowed o)
  | .push mf _ => inferInstanceAs (Decidable (mf.id = c.nextId))
  | .enqueueReadyRop _ => .isTrue trivial
  | .take => inferInstanceAs (Decidable (c.icntL2Queue ≠ []))
  | .respond mf => inferInstanceAs (Decidable ((mf ∈ c.inService ∨ mf.accessType ≠ .tmaAccR) ∧
      c.l2IcntQueue.length < cfg.l2IcntLength))
  | .pop _ | .top => .isTrue trivial

end SubPartition

end FlashGpuSim
