import Mathlib.Tactic

/-!
The lines of a cache, after `gpu-cache.h`. A `NORMAL` line has one status, a
`SECTOR` line one for each of its four sectors, so a line is indexed by the sectors
of its kind. Sector times, fill times and the other data that only statistics read
are left out.
-/

namespace FlashGpuSim

/-- `SECTOR_CHUNCK_SIZE` sectors of `SECTOR_SIZE` bytes make a line of a sector cache. -/
abbrev sectorChunckSize : Nat := 4

def sectorSize : BitVec 32 := 32

abbrev NewAddrType := BitVec 64
abbrev MemAccessByteMask := BitVec 128
abbrev MemAccessSectorMask := BitVec sectorChunckSize

inductive CacheType where
  | normal
  | sector
  deriving DecidableEq, Repr

inductive CacheBlockState where
  | invalid
  | reserved
  | valid
  | modified
  deriving DecidableEq, Repr

inductive CacheRequestStatus where
  | hit
  | hitReserved
  | miss
  | reservationFail
  | sectorMiss
  deriving DecidableEq, Repr

/-- The assertions of the cache code, and the `abort` of a probe. -/
inductive CacheFailure where
  | sectorMaskCount
  | allocPolicy
  | noReplacement
  | notSectorCache
  | invalidLine
  | unexpectedWriteBack
  | unexpectedHit
  | writeBackWithoutMiss
  | mshrReady
  | mshrEntries
  | mshrMaxMerged
  | mshrNotForwardable
  | mshrMissing
  | mshrEmpty
  | noAccessReady
  | unknownFill
  | atomicAccessType
  | atomicOnFill
  | writeToReadOnly
  | dataSize
  | unreachable
  deriving DecidableEq, Repr

namespace CacheType

/-- How many statuses a line keeps. -/
def sectors : CacheType → Nat
  | normal => 1
  | sector => sectorChunckSize

/-- `get_sector_index`: a line of a sector cache asserts that the mask names one sector;
a normal line does not look at the mask. -/
def getSectorIndex : (k : CacheType) → MemAccessSectorMask → Except CacheFailure (Fin k.sectors)
  | normal, _ => .ok ⟨0, Nat.one_pos⟩
  | sector, mask =>
    match (List.finRange sectorChunckSize).filter (fun i => mask.getLsbD i.val) with
    | [i] => .ok i
    | _ => .error .sectorMaskCount

end CacheType

structure CacheBlock (k : CacheType) where
  tag : NewAddrType
  blockAddr : NewAddrType
  allocTime : BitVec 32
  lastAccessTime : BitVec 32
  status : Fin k.sectors → CacheBlockState
  ignoreOnFill : Fin k.sectors → Bool
  modifiedOnFill : Fin k.sectors → Bool
  readableOnFill : Fin k.sectors → Bool
  byteMaskOnFill : Bool
  readable : Fin k.sectors → Bool
  dirtyByteMask : MemAccessByteMask

namespace CacheBlock

variable {k : CacheType}

/-- The constructors of `line_cache_block` and `sector_cache_block`. -/
def init (k : CacheType) : CacheBlock k where
  tag := 0
  blockAddr := 0
  allocTime := 0
  lastAccessTime := 0
  status := fun _ => .invalid
  ignoreOnFill := fun _ => false
  modifiedOnFill := fun _ => false
  readableOnFill := fun _ => false
  byteMaskOnFill := false
  readable := fun _ => true
  dirtyByteMask := 0

def isInvalidLine (b : CacheBlock k) : Bool := decide (∀ s, b.status s = .invalid)

def isReservedLine (b : CacheBlock k) : Bool := decide (∃ s, b.status s = .reserved)

def isModifiedLine (b : CacheBlock k) : Bool := decide (∃ s, b.status s = .modified)

/-- A sector line is valid as soon as it is not invalid, a normal one in state `VALID`. -/
def isValidLine (b : CacheBlock k) : Bool :=
  match k with
  | .normal => decide (∀ s, b.status s = .valid)
  | .sector => !b.isInvalidLine

def setStatus (b : CacheBlock k) (status : CacheBlockState) (s : Fin k.sectors) : CacheBlock k :=
  { b with status := Function.update b.status s status }

def setByteMask (b : CacheBlock k) (mask : MemAccessByteMask) : CacheBlock k :=
  { b with dirtyByteMask := b.dirtyByteMask ||| mask }

def setLastAccessTime (b : CacheBlock k) (time : BitVec 32) : CacheBlock k :=
  { b with lastAccessTime := time }

/-- Set, but read nowhere: the assertions of `fill` that used it are commented out. -/
def setIgnoreOnFill (b : CacheBlock k) (ignore : Bool) (s : Fin k.sectors) : CacheBlock k :=
  { b with ignoreOnFill := Function.update b.ignoreOnFill s ignore }

def setModifiedOnFill (b : CacheBlock k) (modified : Bool) (s : Fin k.sectors) : CacheBlock k :=
  { b with modifiedOnFill := Function.update b.modifiedOnFill s modified }

def setReadableOnFill (b : CacheBlock k) (readable : Bool) (s : Fin k.sectors) : CacheBlock k :=
  { b with readableOnFill := Function.update b.readableOnFill s readable }

def setByteMaskOnFill (b : CacheBlock k) (modified : Bool) : CacheBlock k :=
  { b with byteMaskOnFill := modified }

def setMReadable (b : CacheBlock k) (readable : Bool) (s : Fin k.sectors) : CacheBlock k :=
  { b with readable := Function.update b.readable s readable }

/-- What `sector_cache_block::allocate_line` clears before it takes the new block; a
normal line keeps its readable flag and its dirty bytes. -/
def cleared (b : CacheBlock k) : CacheBlock k :=
  match k with
  | .normal => b
  | .sector => init .sector

def allocate (b : CacheBlock k) (tag blockAddr : NewAddrType) (time : BitVec 32)
    (s : Fin k.sectors) : CacheBlock k :=
  { b.cleared with
    tag := tag
    blockAddr := blockAddr
    allocTime := time
    lastAccessTime := time
    status := Function.update b.cleared.status s .reserved
    ignoreOnFill := Function.update b.cleared.ignoreOnFill s false
    modifiedOnFill := Function.update b.cleared.modifiedOnFill s false
    readableOnFill := Function.update b.cleared.readableOnFill s false
    byteMaskOnFill := false }

/-- `sector_cache_block::allocate_sector`. -/
def allocateSector (b : CacheBlock k) (time : BitVec 32) (s : Fin k.sectors) : CacheBlock k :=
  { b with
    modifiedOnFill := Function.update b.modifiedOnFill s (decide (b.status s = .modified))
    readableOnFill := Function.update b.readableOnFill s false
    status := Function.update b.status s .reserved
    ignoreOnFill := Function.update b.ignoreOnFill s false
    readable := Function.update b.readable s true
    lastAccessTime := time }

/-- The response of a read arrives. Only a sector line forgets `m_set_readable_on_fill`. -/
def fill (b : CacheBlock k) (s : Fin k.sectors) (byteMask : MemAccessByteMask) : CacheBlock k :=
  let filled := b.setStatus (if b.modifiedOnFill s then .modified else .valid) s
  let filled :=
    if b.readableOnFill s then
      (filled.setMReadable true s).setReadableOnFill (decide (k = .normal)) s
    else filled
  if b.byteMaskOnFill then filled.setByteMask byteMask else filled

/-- `get_modified_size`, in bytes. -/
def getModifiedSize (b : CacheBlock k) : Nat :=
  match k with
  | .normal => sectorChunckSize * sectorSize.toNat
  | .sector => ((List.finRange _).countP (fun s => b.status s = .modified)) * sectorSize.toNat

def getDirtySectorMask (b : CacheBlock k) : MemAccessSectorMask :=
  match k with
  | .normal => if b.isModifiedLine then BitVec.allOnes _ else 0
  | .sector =>
    (List.finRange sectorChunckSize).foldl (fun mask s =>
      if b.status s = .modified then mask ||| (1 <<< s.val) else mask) 0

/-- How a probe sees a line of the right tag; `none` when it looks on. -/
def tagMatch (b : CacheBlock k) (isWrite : Bool) (s : Fin k.sectors) : Option CacheRequestStatus :=
  match b.status s with
  | .reserved => some .hitReserved
  | .valid => some .hit
  | .modified => if (!isWrite && b.readable s) || isWrite then some .hit else some .sectorMiss
  | .invalid => if b.isValidLine then some .sectorMiss else none

end CacheBlock

end FlashGpuSim
