import FlashGpuSim.Lib.Tables
import FlashGpuSim.Lib.Reach
import FlashGpuSim.Cache.CacheBlock

/-!
The configuration and the tag array of a cache, after `gpu-cache.h` and `gpu-cache.cc`.
Probing returns the index it stores through `idx`, `none` where it
stores none.
-/

namespace FlashGpuSim

open Lib

inductive ReplacementPolicy where
  | lru
  | fifo
  deriving DecidableEq, Repr

/-- `READ_ONLY` is the policy of a `read_only_cache`; `data_cache::init` refuses it. -/
inductive WritePolicy where
  | readOnly
  | writeBack
  | writeThrough
  | writeEvict
  | localWbGlobalWt
  deriving DecidableEq, Repr

/-- `STREAMING` becomes `ON_FILL` when the configuration is parsed. -/
inductive AllocationPolicy where
  | onMiss
  | onFill
  deriving DecidableEq, Repr

inductive WriteAllocatePolicy where
  | noWriteAllocate
  | writeAllocate
  | fetchOnWrite
  | lazyFetchOnRead
  deriving DecidableEq, Repr

/-- The two kinds that `baseline_cache::init` accepts. -/
inductive MshrConfig where
  | assoc
  | sectorAssoc
  deriving DecidableEq, Repr

inductive MemAccessType where
  | globalAccR
  | localAccR
  | constAccR
  | textureAccR
  | globalAccW
  | localAccW
  | l1WrbkAcc
  | l2WrbkAcc
  | instAccR
  | l1WrAllocR
  | l2WrAllocR
  | tmaAccR
  | tmaAccW
  | cpAsyncAccR
  deriving DecidableEq, Repr

/-- A memory request; `id` stands for its pointer. -/
structure MemFetch where
  id : Nat
  addr : NewAddrType
  dataSize : Nat
  isWrite : Bool
  isAtomic : Bool
  accessType : MemAccessType
  byteMask : MemAccessByteMask
  sectorMask : MemAccessSectorMask
  deriving DecidableEq, Repr

/-- A configuration that `init` accepts. `setIndex` stands for the configured hash function
with its bound check, and `dirtyAtLimit` for the floating-point test of the percentage of
dirty lines against `m_wr_percent`. -/
structure CacheConfig where
  cacheType : CacheType
  nset : Nat
  lineSz : BitVec 32
  lineSz_sector : cacheType = .sector → lineSz = 128
  assoc : Nat
  replacementPolicy : ReplacementPolicy
  writePolicy : WritePolicy
  allocPolicy : AllocationPolicy
  writeAllocPolicy : WriteAllocatePolicy
  writePolicy_onFill : allocPolicy = .onFill → writePolicy ≠ .writeBack
  writeAllocPolicy_onFill : allocPolicy = .onFill →
    writeAllocPolicy ≠ .fetchOnWrite ∧ writeAllocPolicy ≠ .lazyFetchOnRead
  mshrType : MshrConfig
  mshrEntries : Nat
  mshrMaxMerge : Nat
  missQueueSize : Nat
  setIndex : NewAddrType → Nat
  setIndex_lt : ∀ a, setIndex a < nset
  dirtyAtLimit : BitVec 32 → Bool
  wrAllocType : MemAccessType
  wrbkType : MemAccessType

namespace CacheConfig

variable (cfg : CacheConfig)

def atomSz : BitVec 32 :=
  match cfg.cacheType with
  | .sector => sectorSize
  | .normal => cfg.lineSz

def tag (addr : NewAddrType) : NewAddrType := addr &&& ~~~((cfg.lineSz - 1).setWidth 64)

def blockAddr (addr : NewAddrType) : NewAddrType := addr &&& ~~~((cfg.lineSz - 1).setWidth 64)

def mshrAddr (addr : NewAddrType) : NewAddrType := addr &&& ~~~((cfg.atomSz - 1).setWidth 64)

/-- The line indices a probe of `addr` looks at, in its order. -/
def ways (addr : NewAddrType) : List Nat :=
  (List.range cfg.assoc).map (fun way => cfg.setIndex addr * cfg.assoc + way)

end CacheConfig

structure TagArray (k : CacheType) where
  lines : Nat → CacheBlock k
  dirty : BitVec 32

/-- The locals of `tag_array::probe`. -/
structure Replacement where
  invalidLine : Option Nat
  validLine : Option Nat
  validTimestamp : BitVec 32
  allReserved : Bool

def Replacement.start : Replacement where
  invalidLine := none
  validLine := none
  validTimestamp := -1
  allReserved := true

structure EvictedBlockInfo where
  blockAddr : NewAddrType
  modifiedSize : Nat
  byteMask : MemAccessByteMask
  sectorMask : MemAccessSectorMask
  deriving DecidableEq, Repr

/-- What `tag_array::access` leaves behind; `evicted` is set where `wb` is. -/
structure TagAccess (k : CacheType) where
  tags : TagArray k
  status : CacheRequestStatus
  idx : Option Nat
  evicted : Option EvictedBlockInfo

namespace TagArray

variable {cfg : CacheConfig}

def init (k : CacheType) : TagArray k where
  lines := fun _ => .init k
  dirty := 0

/-- The timestamp the replacement policy compares. -/
def timestamp (cfg : CacheConfig) (line : CacheBlock cfg.cacheType) : BitVec 32 :=
  match cfg.replacementPolicy with
  | .lru => line.lastAccessTime
  | .fifo => line.allocTime

/-- One round of the probe's loop on a line that does not end it. -/
def consider (t : TagArray cfg.cacheType) (index : Nat) (r : Replacement) : Replacement :=
  let line := t.lines index
  if !line.isReservedLine && (!line.isModifiedLine || cfg.dirtyAtLimit t.dirty) then
    if line.isInvalidLine then
      { r with allReserved := false, invalidLine := some index }
    else if timestamp cfg line < r.validTimestamp then
      { r with allReserved := false, validTimestamp := timestamp cfg line, validLine := some index }
    else
      { r with allReserved := false }
  else r

/-- The verdict on the line at `index`, which ends the loop unless it is `none`. -/
def verdict (t : TagArray cfg.cacheType) (tag : NewAddrType) (mask : MemAccessSectorMask)
    (isWrite : Bool) (index : Nat) : Except CacheFailure (Option CacheRequestStatus) :=
  if (t.lines index).tag = tag then do
    let s ← cfg.cacheType.getSectorIndex mask
    pure ((t.lines index).tagMatch isWrite s)
  else pure none

def probeWays (t : TagArray cfg.cacheType) (tag : NewAddrType) (mask : MemAccessSectorMask)
    (isWrite : Bool) :
    List Nat → Replacement → Except CacheFailure (CacheRequestStatus × Option Nat)
  | [], r =>
    if r.allReserved then
      if cfg.allocPolicy = .onMiss then .ok (.reservationFail, none) else .error .allocPolicy
    else
      match r.invalidLine, r.validLine with
      | some index, _ => .ok (.miss, some index)
      | none, some index => .ok (.miss, some index)
      | none, none => .error .noReplacement
  | index :: rest, r => do
    match ← verdict t tag mask isWrite index with
    | some status => pure (status, some index)
    | none => probeWays t tag mask isWrite rest (consider t index r)

def probe (t : TagArray cfg.cacheType) (addr : NewAddrType) (mask : MemAccessSectorMask)
    (isWrite : Bool) : Except CacheFailure (CacheRequestStatus × Option Nat) :=
  t.probeWays (cfg.tag addr) mask isWrite (cfg.ways addr) .start

def setLine (t : TagArray cfg.cacheType) (index : Nat) (line : CacheBlock cfg.cacheType) :
    TagArray cfg.cacheType :=
  { t with lines := Function.update t.lines index line }

/-- What a write-back needs of a victim that is modified. -/
def evictedInfo (line : CacheBlock cfg.cacheType) : Option EvictedBlockInfo :=
  if line.isModifiedLine then
    some
      { blockAddr := line.blockAddr
        modifiedSize := line.getModifiedSize
        byteMask := line.dirtyByteMask
        sectorMask := line.getDirtySectorMask }
  else none

def access (t : TagArray cfg.cacheType) (addr : NewAddrType) (time : BitVec 32) (mf : MemFetch) :
    Except CacheFailure (TagAccess cfg.cacheType) := do
  let (status, idx) ← t.probe addr mf.sectorMask mf.isWrite
  let index := idx.getD 0
  let line := t.lines index
  match status with
  | .hit | .hitReserved =>
    let _ ← cfg.cacheType.getSectorIndex mf.sectorMask
    pure ⟨t.setLine index (line.setLastAccessTime time), status, idx, none⟩
  | .miss =>
    if cfg.allocPolicy = .onMiss then
      let s ← cfg.cacheType.getSectorIndex mf.sectorMask
      let t' := t.setLine index (line.allocate (cfg.tag addr) (cfg.blockAddr addr) time s)
      let dirty := if line.isModifiedLine then t.dirty - 1 else t.dirty
      pure ⟨{ t' with dirty := dirty }, status, idx, evictedInfo line⟩
    else pure ⟨t, status, idx, none⟩
  | .sectorMiss =>
    require (decide (cfg.cacheType = .sector)) .notSectorCache
    if cfg.allocPolicy = .onMiss then
      require line.isValidLine .invalidLine
      let s ← cfg.cacheType.getSectorIndex mf.sectorMask
      let line' := line.allocateSector time s
      let dirty :=
        if line.isModifiedLine && !line'.isModifiedLine then t.dirty - 1 else t.dirty
      pure ⟨{ t.setLine index line' with dirty := dirty }, status, idx, none⟩
    else pure ⟨t, status, idx, none⟩
  | .reservationFail => pure ⟨t, status, idx, none⟩

/-- The variant without write-back information, which asserts that there is none. -/
def accessNoWb (t : TagArray cfg.cacheType) (addr : NewAddrType) (time : BitVec 32)
    (mf : MemFetch) : Except CacheFailure (TagAccess cfg.cacheType) := do
  let a ← t.access addr time mf
  require a.evicted.isNone .unexpectedWriteBack
  pure a

/-- `fill` of the line at `index`, the one an allocate-on-miss cache uses. -/
def fillAt (t : TagArray cfg.cacheType) (index : Nat) (mf : MemFetch) :
    Except CacheFailure (TagArray cfg.cacheType) := do
  let s ← cfg.cacheType.getSectorIndex mf.sectorMask
  let line := t.lines index
  let line' := line.fill s mf.byteMask
  let dirty :=
    if line'.isModifiedLine && !line.isModifiedLine then t.dirty + 1
    else if line.isModifiedLine && !line'.isModifiedLine then t.dirty - 1
    else t.dirty
  pure { t.setLine index line' with dirty := dirty }

/-- The line that an allocate-on-fill cache takes for the data, before they are filled in. -/
def placeFor (t : TagArray cfg.cacheType) (addr : NewAddrType) (time : BitVec 32)
    (status : CacheRequestStatus) (index : Nat) (s : Fin cfg.cacheType.sectors) :
    Except CacheFailure (TagArray cfg.cacheType) :=
  let line := t.lines index
  match status with
  | .miss => .ok (t.setLine index (line.allocate (cfg.tag addr) (cfg.blockAddr addr) time s))
  | .sectorMiss => do
    require (decide (cfg.cacheType = .sector)) .notSectorCache
    require line.isValidLine .invalidLine
    pure (t.setLine index (line.allocateSector time s))
  | .hit | .hitReserved | .reservationFail => .ok t

/-- `fill` of the line of an address, which an allocate-on-fill cache finds by a probe. -/
def fill (t : TagArray cfg.cacheType) (addr : NewAddrType) (time : BitVec 32) (mf : MemFetch) :
    Except CacheFailure (TagArray cfg.cacheType) := do
  let (status, idx) ← t.probe addr mf.sectorMask mf.isWrite
  if status = .reservationFail then pure t
  else
    let index := idx.getD 0
    let s ← cfg.cacheType.getSectorIndex mf.sectorMask
    let t' ← t.placeFor addr time status index s
    let dirty :=
      if (t.lines index).isModifiedLine && !(t'.lines index).isModifiedLine then t.dirty - 1
      else t.dirty
    { t' with dirty := dirty }.fillAt index mf

end TagArray

end FlashGpuSim
