import FlashGpuSim.Cache.Mshr

/-!
`baseline_cache` with the accesses of `data_cache` and `read_only_cache`, after
`gpu-cache.h` and `gpu-cache.cc`. Statistics, cache events and port bandwidth are left
out: nothing below reads them. The address of an access is the one of its request, as
every caller passes it.
-/

namespace FlashGpuSim

open Lib

/-- `extra_mf_fields`, with the request it is kept for. -/
structure ExtraMfFields where
  mf : MemFetch
  blockAddr : NewAddrType
  addr : NewAddrType
  cacheIndex : Nat
  dataSize : Nat
  pendingRead : BitVec 32

structure BaselineCache (cfg : CacheConfig) where
  tags : TagArray cfg.cacheType
  mshrs : MshrTable
  missQueue : List MemFetch
  extraMfFields : Table ExtraMfFields

namespace BaselineCache

variable {cfg : CacheConfig}

def init (cfg : CacheConfig) : BaselineCache cfg where
  tags := .init cfg.cacheType
  mshrs := { data := ∅, currentResponse := [], log := [] }
  missQueue := []
  extraMfFields := ∅

def missQueueFull (c : BaselineCache cfg) (numMiss : Nat) : Bool :=
  decide (cfg.missQueueSize ≤ c.missQueue.length + numMiss)

def waitingForFill (c : BaselineCache cfg) (id : Nat) : Bool :=
  (c.extraMfFields.lookup id).isSome

def readyForwardEligible (c : BaselineCache cfg) (mf : MemFetch) (wa : Bool) : Bool :=
  c.mshrs.readyForForward cfg (cfg.mshrAddr mf.addr) && !wa && !mf.isAtomic

/-- The line at `index` changes. -/
def modifyLine (c : BaselineCache cfg) (index : Nat)
    (f : CacheBlock cfg.cacheType → CacheBlock cfg.cacheType) : BaselineCache cfg :=
  { c with tags := c.tags.setLine index (f (c.tags.lines index)) }

/-- The line at `index` becomes dirty: `inc_dirty` when it was not modified, `MODIFIED`
for the sector of the request and its bytes in the dirty mask. -/
def markModified (c : BaselineCache cfg) (index : Nat) (mf : MemFetch) :
    Except CacheFailure (BaselineCache cfg) := do
  let s ← cfg.cacheType.getSectorIndex mf.sectorMask
  let line := c.tags.lines index
  let dirty := if line.isModifiedLine then c.tags.dirty else c.tags.dirty + 1
  let tags := c.tags.setLine index ((line.setStatus .modified s).setByteMask mf.byteMask)
  pure { c with tags := { tags with dirty := dirty } }

/-- The bytes of sector `i` of the line are all dirty. -/
def sectorDirty (line : CacheBlock cfg.cacheType) (i : Nat) : Bool :=
  (List.range sectorSize.toNat).all
    (fun k => line.dirtyByteMask.getLsbD (i * sectorSize.toNat + k))

def updateMReadable (c : BaselineCache cfg) (mf : MemFetch) (index : Nat) :
    Except CacheFailure (BaselineCache cfg) := do
  let s ← cfg.cacheType.getSectorIndex mf.sectorMask
  if (List.range sectorChunckSize).any
      (fun i => mf.sectorMask.getLsbD i && sectorDirty (c.tags.lines index) i) then
    pure (c.modifyLine index (fun line => line.setMReadable true s))
  else pure c

def sendWriteRequest (c : BaselineCache cfg) (mf : MemFetch) : BaselineCache cfg :=
  { c with missQueue := c.missQueue ++ [mf] }

/-- The write-back of an evicted line, unless the lower level has the data already. -/
def sendWriteBack (c : BaselineCache cfg) (wb : Nat) (evicted : Option EvictedBlockInfo) :
    BaselineCache cfg :=
  match evicted with
  | none => c
  | some e =>
    if cfg.writePolicy = .writeThrough then c
    else
      c.sendWriteRequest
        { id := wb
          addr := e.blockAddr
          dataSize := e.modifiedSize
          isWrite := true
          isAtomic := false
          accessType := cfg.wrbkType
          byteMask := e.byteMask
          sectorMask := e.sectorMask }

/-- The access to the tags that a read request makes; a read-only cache has no
write-backs. -/
def accessTags (c : BaselineCache cfg) (mf : MemFetch) (time : BitVec 32) (readOnly : Bool) :
    Except CacheFailure (TagAccess cfg.cacheType) :=
  if readOnly then c.tags.accessNoWb (cfg.blockAddr mf.addr) time mf
  else c.tags.access (cfg.blockAddr mf.addr) time mf

/-- The outcome of `send_read_request`: `do_miss` and the evicted line. -/
structure ReadRequest (cfg : CacheConfig) where
  cache : BaselineCache cfg
  doMiss : Bool
  evicted : Option EvictedBlockInfo

def sendReadRequest (c : BaselineCache cfg) (mf : MemFetch) (time : BitVec 32)
    (readOnly wa : Bool) : Except CacheFailure (ReadRequest cfg) := do
  let mshrAddr := cfg.mshrAddr mf.addr
  let mshrHit := c.mshrs.probe mshrAddr
  let mshrAvail := !c.mshrs.full cfg mshrAddr
  if c.readyForwardEligible mf wa then
    let m ← c.mshrs.addReady cfg mshrAddr mf
    pure ⟨{ c with mshrs := m }, true, none⟩
  else if mshrHit && mshrAvail then
    let a ← c.accessTags mf time readOnly
    let m ← c.mshrs.add cfg mshrAddr mf mf.isAtomic
    pure ⟨{ c with tags := a.tags, mshrs := m }, true, a.evicted⟩
  else if !mshrHit && mshrAvail && decide (c.missQueue.length < cfg.missQueueSize) then
    let a ← c.accessTags mf time readOnly
    let m ← c.mshrs.add cfg mshrAddr mf mf.isAtomic
    let extra : ExtraMfFields :=
      { mf := mf
        blockAddr := mshrAddr
        addr := mf.addr
        cacheIndex := a.idx.getD 0
        dataSize := mf.dataSize
        pendingRead :=
          match cfg.mshrType with
          | .sectorAssoc => cfg.lineSz / sectorSize
          | .assoc => 0 }
    pure
      ⟨{ tags := a.tags
         mshrs := m
         missQueue := c.missQueue ++ [{ mf with dataSize := cfg.atomSz.toNat, addr := mshrAddr }]
         extraMfFields := c.extraMfFields.insert mf.id extra }, true, a.evicted⟩
  else if (mshrHit && !mshrAvail) || c.mshrs.probeReady mshrAddr then
    pure ⟨c, false, none⟩
  else if !mshrHit && !mshrAvail then
    pure ⟨c, false, none⟩
  else throw .unreachable

/-! ### Write hits -/

def wrHitWb (c : BaselineCache cfg) (mf : MemFetch) (time : BitVec 32) (index : Nat) :
    Except CacheFailure (BaselineCache cfg × CacheRequestStatus) := do
  let a ← c.tags.accessNoWb (cfg.blockAddr mf.addr) time mf
  let index := a.idx.getD index
  let c ← { c with tags := a.tags }.markModified index mf
  let c ← c.updateMReadable mf index
  pure (c, .hit)

def wrHitWt (c : BaselineCache cfg) (mf : MemFetch) (time : BitVec 32) (index : Nat) :
    Except CacheFailure (BaselineCache cfg × CacheRequestStatus) := do
  if c.missQueueFull 0 then pure (c, .reservationFail)
  else
    let a ← c.tags.accessNoWb (cfg.blockAddr mf.addr) time mf
    let index := a.idx.getD index
    let c ← { c with tags := a.tags }.markModified index mf
    let c ← c.updateMReadable mf index
    pure (c.sendWriteRequest mf, .hit)

def wrHitWe (c : BaselineCache cfg) (mf : MemFetch) (index : Nat) :
    Except CacheFailure (BaselineCache cfg × CacheRequestStatus) := do
  if c.missQueueFull 0 then pure (c, .reservationFail)
  else
    let s ← cfg.cacheType.getSectorIndex mf.sectorMask
    pure ((c.sendWriteRequest mf).modifyLine index (fun line => line.setStatus .invalid s), .hit)

def wrHitGlobalWeLocalWb (c : BaselineCache cfg) (mf : MemFetch) (time : BitVec 32) (index : Nat) :
    Except CacheFailure (BaselineCache cfg × CacheRequestStatus) :=
  if mf.accessType = .globalAccW then c.wrHitWe mf index else c.wrHitWb mf time index

/-! ### Write misses -/

/-- The read that a write-allocating write sends for its own bytes. -/
def writeAllocateRead (cfg : CacheConfig) (mf : MemFetch) (id : Nat) : MemFetch where
  id := id
  addr := mf.addr
  dataSize := cfg.atomSz.toNat
  isWrite := false
  isAtomic := false
  accessType := cfg.wrAllocType
  byteMask := mf.byteMask
  sectorMask := mf.sectorMask

/-- An MSHR can take the read, and with a new one the miss queue too. -/
def readFits (c : BaselineCache cfg) (mshrAddr : NewAddrType) : Bool :=
  let mshrHit := c.mshrs.probe mshrAddr
  let mshrAvail := !c.mshrs.full cfg mshrAddr
  (mshrHit && mshrAvail) ||
    (!mshrHit && mshrAvail && decide (c.missQueue.length < cfg.missQueueSize))

def wrMissWaNaive (c : BaselineCache cfg) (mf : MemFetch) (time : BitVec 32) (nMf wb : Nat)
    (status : CacheRequestStatus) :
    Except CacheFailure (BaselineCache cfg × CacheRequestStatus) := do
  if c.missQueueFull 2 || !c.readFits (cfg.mshrAddr mf.addr) then
    pure (c, .reservationFail)
  else
    let r ← (c.sendWriteRequest mf).sendReadRequest (writeAllocateRead cfg mf nMf) time false true
    if r.doMiss then
      if r.evicted.isSome && decide (cfg.writePolicy ≠ .writeThrough) then
        require (decide (status = .miss)) .writeBackWithoutMiss
      pure (r.cache.sendWriteBack wb r.evicted, .miss)
    else pure (r.cache, .reservationFail)

/-- The request writes every byte of the line, or of the sector. -/
def writesAll (cfg : CacheConfig) (mf : MemFetch) : Bool :=
  decide (((List.range 128).filter (fun i => mf.byteMask.getLsbD i)).length = cfg.atomSz.toNat)

/-- `FETCH_ON_WRITE` with a write of the whole sector: nothing is read. -/
def wrMissWaFetchOnWriteFull (c : BaselineCache cfg) (mf : MemFetch) (time : BitVec 32) (wb : Nat)
    (index : Nat) : Except CacheFailure (BaselineCache cfg × CacheRequestStatus) := do
  if c.missQueueFull 0 then pure (c, .reservationFail)
  else
    let a ← c.tags.access (cfg.blockAddr mf.addr) time mf
    require (decide (a.status ≠ .hit)) .unexpectedHit
    let index := a.idx.getD index
    let s ← cfg.cacheType.getSectorIndex mf.sectorMask
    let c ← { c with tags := a.tags }.markModified index mf
    let c :=
      if a.status = .hitReserved then
        c.modifyLine index (fun line => line.setIgnoreOnFill true s)
      else c
    if a.status ≠ .reservationFail then
      pure (c.sendWriteBack wb a.evicted, .miss)
    else pure (c, .reservationFail)

/-- `FETCH_ON_WRITE` with a partial write: the rest of the sector is read. The line that
is told to become modified on the fill is the one of the caller's probe. -/
def wrMissWaFetchOnWritePartial (c : BaselineCache cfg) (mf : MemFetch) (time : BitVec 32)
    (nMf wb : Nat) (index : Nat) : Except CacheFailure (BaselineCache cfg × CacheRequestStatus) := do
  let mshrAddr := cfg.mshrAddr mf.addr
  if c.missQueueFull 1 || !c.readFits mshrAddr then pure (c, .reservationFail)
  else if c.mshrs.probe mshrAddr && c.mshrs.isReadAfterWritePending mshrAddr && mf.isWrite then
    pure (c, .reservationFail)
  else
    let r ← c.sendReadRequest (writeAllocateRead cfg mf nMf) time false true
    let s ← cfg.cacheType.getSectorIndex mf.sectorMask
    let c :=
      r.cache.modifyLine index (fun line => (line.setModifiedOnFill true s).setByteMaskOnFill true)
    if r.doMiss then pure (c.sendWriteBack wb r.evicted, .miss)
    else pure (c, .reservationFail)

def wrMissWaFetchOnWrite (c : BaselineCache cfg) (mf : MemFetch) (time : BitVec 32) (nMf wb : Nat)
    (index : Nat) : Except CacheFailure (BaselineCache cfg × CacheRequestStatus) :=
  if writesAll cfg mf then c.wrMissWaFetchOnWriteFull mf time wb index
  else c.wrMissWaFetchOnWritePartial mf time nMf wb index

/-- What the lazy policy tells a line whose sector waits for a read. -/
def markReservedWrite (line : CacheBlock cfg.cacheType) (s : Fin cfg.cacheType.sectors) :
    CacheBlock cfg.cacheType :=
  ((line.setIgnoreOnFill true s).setModifiedOnFill true s).setByteMaskOnFill true

/-- The readable flags the lazy policy leaves after a write. -/
def markReadable (mf : MemFetch) (status : CacheRequestStatus) (s : Fin cfg.cacheType.sectors)
    (line : CacheBlock cfg.cacheType) : CacheBlock cfg.cacheType :=
  if writesAll cfg mf then line.setMReadable true s
  else if status = .hitReserved then (line.setMReadable false s).setReadableOnFill true s
  else line.setMReadable false s

def wrMissWaLazyFetchOnRead (c : BaselineCache cfg) (mf : MemFetch) (time : BitVec 32) (wb : Nat)
    (index : Nat) : Except CacheFailure (BaselineCache cfg × CacheRequestStatus) := do
  if c.missQueueFull 0 then pure (c, .reservationFail)
  else
    let c := if cfg.writePolicy = .writeThrough then c.sendWriteRequest mf else c
    let a ← c.tags.access (cfg.blockAddr mf.addr) time mf
    require (decide (a.status ≠ .hit)) .unexpectedHit
    let index := a.idx.getD index
    let s ← cfg.cacheType.getSectorIndex mf.sectorMask
    let c ← { c with tags := a.tags }.markModified index mf
    let c :=
      if a.status = .hitReserved then c.modifyLine index (fun line => markReservedWrite line s)
      else c
    let c := c.modifyLine index (markReadable mf a.status s)
    let c ← c.updateMReadable mf index
    if a.status ≠ .reservationFail then
      pure (c.sendWriteBack wb a.evicted, .miss)
    else pure (c, .reservationFail)

def wrMissNoWa (c : BaselineCache cfg) (mf : MemFetch) :
    Except CacheFailure (BaselineCache cfg × CacheRequestStatus) :=
  if c.missQueueFull 0 then pure (c, .reservationFail)
  else pure (c.sendWriteRequest mf, .miss)

/-! ### Reads -/

def rdHitBase (c : BaselineCache cfg) (mf : MemFetch) (time : BitVec 32) (index : Nat) :
    Except CacheFailure (BaselineCache cfg × CacheRequestStatus) := do
  let a ← c.tags.accessNoWb (cfg.blockAddr mf.addr) time mf
  let index := a.idx.getD index
  if mf.isAtomic then
    require (decide (mf.accessType = .globalAccR)) .atomicAccessType
    let c ← { c with tags := a.tags }.markModified index mf
    pure (c, .hit)
  else pure ({ c with tags := a.tags }, .hit)

def rdMissBase (c : BaselineCache cfg) (mf : MemFetch) (time : BitVec 32) (wb : Nat) :
    Except CacheFailure (BaselineCache cfg × CacheRequestStatus) := do
  if c.missQueueFull 1 then pure (c, .reservationFail)
  else
    let r ← c.sendReadRequest mf time false false
    if r.doMiss then pure (r.cache.sendWriteBack wb r.evicted, .miss)
    else pure (r.cache, .reservationFail)

/-! ### The operations of the cache -/

def wrHit (c : BaselineCache cfg) (mf : MemFetch) (time : BitVec 32) (index : Nat) :
    Except CacheFailure (BaselineCache cfg × CacheRequestStatus) :=
  match cfg.writePolicy with
  | .readOnly => .error .writeToReadOnly
  | .writeBack => c.wrHitWb mf time index
  | .writeThrough => c.wrHitWt mf time index
  | .writeEvict => c.wrHitWe mf index
  | .localWbGlobalWt => c.wrHitGlobalWeLocalWb mf time index

def wrMiss (c : BaselineCache cfg) (mf : MemFetch) (time : BitVec 32) (nMf wb : Nat)
    (status : CacheRequestStatus) (index : Nat) :
    Except CacheFailure (BaselineCache cfg × CacheRequestStatus) :=
  match cfg.writeAllocPolicy with
  | .noWriteAllocate => c.wrMissNoWa mf
  | .writeAllocate => c.wrMissWaNaive mf time nMf wb status
  | .fetchOnWrite => c.wrMissWaFetchOnWrite mf time nMf wb index
  | .lazyFetchOnRead => c.wrMissWaLazyFetchOnRead mf time wb index

def processTagProbe (c : BaselineCache cfg) (mf : MemFetch) (time : BitVec 32) (nMf wb : Nat)
    (status : CacheRequestStatus) (index : Nat) :
    Except CacheFailure (BaselineCache cfg × CacheRequestStatus) :=
  if mf.isWrite then
    if status = .hit then c.wrHit mf time index
    else if status ≠ .reservationFail ∨ cfg.writeAllocPolicy = .noWriteAllocate then
      c.wrMiss mf time nMf wb status index
    else pure (c, status)
  else if status = .hit then c.rdHitBase mf time index
  else if status ≠ .reservationFail then c.rdMissBase mf time wb
  else pure (c, status)

/-- `data_cache::access`; `nMf` and `wb` are the requests the allocator would hand out. -/
def dataAccess (c : BaselineCache cfg) (mf : MemFetch) (time : BitVec 32) (nMf wb : Nat) :
    Except CacheFailure (BaselineCache cfg × CacheRequestStatus) := do
  require (decide (mf.dataSize ≤ cfg.atomSz.toNat)) .dataSize
  let (status, idx) ← c.tags.probe (cfg.blockAddr mf.addr) mf.sectorMask mf.isWrite
  c.processTagProbe mf time nMf wb status (idx.getD 0)

/-- `read_only_cache::access`. -/
def readOnlyAccess (c : BaselineCache cfg) (mf : MemFetch) (time : BitVec 32) :
    Except CacheFailure (BaselineCache cfg × CacheRequestStatus) := do
  require (decide (mf.dataSize ≤ cfg.atomSz.toNat)) .dataSize
  require (!mf.isWrite) .writeToReadOnly
  let (status, _) ← c.tags.probe (cfg.blockAddr mf.addr) mf.sectorMask mf.isWrite
  if status = .hit then
    let a ← c.tags.accessNoWb (cfg.blockAddr mf.addr) time mf
    pure ({ c with tags := a.tags }, a.status)
  else if status ≠ .reservationFail then
    if c.missQueueFull 0 then pure (c, .reservationFail)
    else
      let r ← c.sendReadRequest mf time true false
      pure (r.cache, if r.doMiss then .miss else .reservationFail)
  else pure (c, .reservationFail)

def access (c : BaselineCache cfg) (mf : MemFetch) (time : BitVec 32) (nMf wb : Nat) :
    Except CacheFailure (BaselineCache cfg × CacheRequestStatus) :=
  if cfg.writePolicy = .readOnly then c.readOnlyAccess mf time else c.dataAccess mf time nMf wb

/-- `cycle`: the miss queue hands its head to the memory port unless that is full. -/
def cycle (c : BaselineCache cfg) (portFull : Bool) : BaselineCache cfg :=
  if portFull then c else { c with missQueue := c.missQueue.tail }

/-- The data of the read kept under `id` arrive in the tag array. -/
def fillTags (c : BaselineCache cfg) (e : ExtraMfFields) (mf : MemFetch) (time : BitVec 32) :
    Except CacheFailure (TagArray cfg.cacheType) :=
  match cfg.allocPolicy with
  | .onMiss => c.tags.fillAt e.cacheIndex mf
  | .onFill => c.tags.fill e.blockAddr time mf

/-- The last response of a read has arrived. -/
def fillLine (c : BaselineCache cfg) (id : Nat) (e : ExtraMfFields) (time : BitVec 32) :
    Except CacheFailure (BaselineCache cfg) := do
  let mf := { e.mf with dataSize := e.dataSize, addr := e.addr }
  let tags ← c.fillTags e mf time
  let (m, hasAtomic) ← c.mshrs.markReady e.blockAddr
  let c := { c with tags := tags, mshrs := m }
  let c ←
    if hasAtomic then do
      require (decide (cfg.allocPolicy = .onMiss)) .atomicOnFill
      c.markModified e.cacheIndex mf
    else pure c
  pure { c with extraMfFields := c.extraMfFields.erase id }

/-- `fill`: the response to the read kept under `id`. A cache whose requests the lower
level splits counts the parts first. -/
def fill (c : BaselineCache cfg) (id : Nat) (time : BitVec 32) :
    Except CacheFailure (BaselineCache cfg) :=
  match c.extraMfFields.lookup id with
  | none => .error .unknownFill
  | some e =>
    match cfg.mshrType with
    | .assoc => c.fillLine id e time
    | .sectorAssoc =>
      let e := { e with pendingRead := e.pendingRead - 1 }
      if 0 < e.pendingRead then
        .ok { c with extraMfFields := c.extraMfFields.insert id e }
      else c.fillLine id e time

/-- `next_access`, with the request it returns. -/
def nextAccess (c : BaselineCache cfg) : Except CacheFailure (BaselineCache cfg × MemFetch) := do
  let (m, mf) ← c.mshrs.nextAccess
  pure ({ c with mshrs := m }, mf)

end BaselineCache

end FlashGpuSim
