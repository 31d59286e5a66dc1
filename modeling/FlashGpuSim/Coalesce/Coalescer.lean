import FlashGpuSim.Groups.CpAsyncCoalesce
import FlashGpuSim.Lib.Outcome
import FlashGpuSim.Lib.Tables

/-!
The coalescing of a warp's memory instruction, `memory_coalescing_arch` and
`memory_coalescing_arch_atomic`. The requests of the lanes of a warp part are collected in one
transaction for each segment, and a transaction is sent as an access that is shrunk to the half
or the quarter of the segment that it uses. An atomic lane that conflicts with a transaction of
its segment opens another one.
-/

namespace FlashGpuSim

open Lib

/-- What the coalescing reads of `core_config`. -/
structure CoalesceConfig where
  warpSize : Nat
  memWarpParts : Nat
  gpgpuCoalesceArch : Nat
  gmemSkipL1D : Bool
  /-- Asserted when a `warp_inst_t` is made. -/
  warpSize_le : warpSize ≤ maxWarpSize

/-- `per_thread_info`: the addresses in `memreqaddr`, and `memory_access_size` where it is
valid. -/
structure LaneRequest where
  memreqaddr : List NewAddrType
  memoryAccessSize : Option (BitVec 32)

/-- What the coalescing reads of a `warp_inst_t`. -/
structure CoalesceInst where
  dataSize : Nat
  /-- The space is `local_space` or `param_space_local`. -/
  localSpace : Bool
  /-- `cache_op == CACHE_GLOBAL` -/
  cacheGlobal : Bool
  activeMask : ActiveMask
  lanes : Nat → LaneRequest

inductive CoalesceFault
  | warpParts
  | tooManyAccesses
  | notGlobal
  | oneSegment
  | bytesTaken
  | segmentAligned
  | noChunk
  | halves
  deriving DecidableEq, Repr

/-- `MAX_ACCESSES_PER_INSN_PER_THREAD` -/
abbrev maxAccessesPerInsnPerThread : Nat := 8

/-- `line_size_based_tag_func` -/
def lineSizeBasedTagFunc (address : NewAddrType) (lineSize : Nat) : NewAddrType :=
  address &&& ~~~(BitVec.ofNat 64 lineSize - 1)

/-- `transaction_info` -/
structure TransactionInfo where
  chunks : MemAccessSectorMask := 0
  bytes : MemAccessByteMask := 0
  active : ActiveMask := 0
  deriving DecidableEq, Repr

namespace TransactionInfo

/-- The loop that sets the bytes from `idx` on; `idx + i` is an `unsigned`. -/
def setBytes (bytes : MemAccessByteMask) (idx size : Nat) : MemAccessByteMask :=
  (List.range size).foldl (fun bytes i =>
    if (idx + i) % 2 ^ 32 < 128 then bytes ||| BitVec.twoPow 128 ((idx + i) % 2 ^ 32) else bytes)
    bytes

/-- A lane's bytes from `addr` on enter the transaction. -/
def note (info : TransactionInfo) (thread : Nat) (addr : NewAddrType) (size : Nat) :
    TransactionInfo :=
  let idx := addr.toNat % 128
  { chunks := info.chunks ||| BitVec.twoPow sectorChunckSize (idx / 32)
    active := info.active ||| BitVec.twoPow maxWarpSize thread
    bytes := setBytes info.bytes idx size }

/-- `test_bytes` -/
def testBytes (info : TransactionInfo) (startBit endBit : Nat) : Bool :=
  (List.range' startBit (endBit + 1 - startBit)).any info.bytes.getLsbD

end TransactionInfo

/-- `subwarp_transactions`: by block address. -/
abbrev Transactions (β : Type) := Table β

namespace Transactions

/-- The transactions in the order of their blocks. -/
def blocks {β : Type} (m : Transactions β) : List (NewAddrType × β) :=
  (m.keys.insertionSort (· ≤ ·)).filterMap fun block =>
    (m.lookup block).map fun info => (BitVec.ofNat 64 block, info)

end Transactions

namespace CoalesceInst

variable (cfg : CoalesceConfig) (inst : CoalesceInst)

/-- `sector_segment_size` -/
def sectorSegmentSize : Bool :=
  if 20 ≤ cfg.gpgpuCoalesceArch ∧ cfg.gpgpuCoalesceArch < 39 then
    cfg.gmemSkipL1D || inst.cacheGlobal
  else decide (40 ≤ cfg.gpgpuCoalesceArch)

/-- `segment_size`; other data sizes leave it at 0. -/
def segmentSize : Nat :=
  match inst.dataSize with
  | 1 => 32
  | 2 => if inst.sectorSegmentSize cfg then 32 else 64
  | 4 | 8 | 16 => if inst.sectorSegmentSize cfg then 32 else 128
  | _ => 0

/-- The lanes of a warp part. -/
def subwarp (part : Nat) : List Nat :=
  let subwarpSize := cfg.warpSize / cfg.memWarpParts
  List.range' (part * subwarpSize) subwarpSize

/-- The part of a segment that is used, and the halves of it where it has 64 bytes. -/
def reduceSegment (q : Nat → Bool) (addr : NewAddrType) (segmentSize : Nat) :
    Except CoalesceFault (NewAddrType × Nat × Bool × Bool) :=
  if segmentSize = 128 then
    let lowerHalfUsed := q 0 || q 1
    let upperHalfUsed := q 2 || q 3
    if lowerHalfUsed && !upperHalfUsed then .ok (addr, 64, q 0, q 1)
    else if !lowerHalfUsed && upperHalfUsed then .ok (addr + 64, 64, q 2, q 3)
    else do
      require (lowerHalfUsed && upperHalfUsed) .halves
      return (addr, 128, false, false)
  else if segmentSize = 64 then
    if addr.toNat % 128 = 0 then .ok (addr, 64, q 0, q 1)
    else do
      require (decide (addr.toNat % 128 = 64)) .halves
      return (addr, 64, q 2, q 3)
  else .ok (addr, segmentSize, false, false)

/-- The used half of 64 bytes. -/
def reduceHalf (addr : NewAddrType) (size : Nat) (lowerHalfUsed upperHalfUsed : Bool) :
    Except CoalesceFault (NewAddrType × Nat) :=
  if size = 64 then
    if lowerHalfUsed && !upperHalfUsed then .ok (addr, 32)
    else if !lowerHalfUsed && upperHalfUsed then .ok (addr + 32, 32)
    else do
      require (lowerHalfUsed && upperHalfUsed) .halves
      return (addr, 64)
  else .ok (addr, size)

/-- `memory_coalescing_arch_reduce_and_send` -/
def reduceAndSend (isWrite : Bool) (accessType : MemAccessType) (info : TransactionInfo)
    (addr : NewAddrType) (segmentSize : Nat) : Except CoalesceFault MemAccess := do
  require (decide (addr &&& (BitVec.ofNat 64 segmentSize - 1) = 0)) .segmentAligned
  require (decide (info.chunks ≠ 0)) .noChunk
  let (addr, size, h0, h1) ← reduceSegment info.chunks.getLsbD addr segmentSize
  let (addr, size) ← reduceHalf addr size h0 h1
  return ⟨accessType, addr, size, isWrite, info.active, info.bytes, info.chunks⟩

/-! ### memory_coalescing_arch -/

/-- `data_size_coales` -/
def dataSizeCoales (thread : Nat) : Nat :=
  ((inst.lanes thread).memoryAccessSize.map BitVec.toNat).getD inst.dataSize

/-- The bytes of a local access are split in words. -/
def accessSize (thread : Nat) : Nat :=
  if inst.localSpace ∧ 4 ≤ inst.dataSize then 4 else inst.dataSizeCoales thread

/-- One access of a lane: its segment, and the segment of its last byte where this is another
one, get the bytes from the address, and from that of the last byte, on. -/
def noteAccess (segmentSize thread size : Nat) (m : Transactions TransactionInfo)
    (addr : NewAddrType) : Transactions TransactionInfo :=
  let block := lineSizeBasedTagFunc addr segmentSize
  let m := m.insert block.toNat (((m.lookup block.toNat).getD {}).note thread addr size)
  let last := addr + BitVec.ofNat 64 size - 1
  let lastBlock := lineSizeBasedTagFunc last segmentSize
  if block ≠ lastBlock then
    m.insert lastBlock.toNat (((m.lookup lastBlock.toNat).getD {}).note thread last size)
  else m

/-- One turn of the loop over the lanes. -/
def noteLane (m : Transactions TransactionInfo) (thread : Nat) :
    Except CoalesceFault (Transactions TransactionInfo) :=
  if !inst.activeMask.getLsbD thread then .ok m
  else if inst.dataSizeCoales thread = 0 then .ok m
  else do
    require (!(inst.localSpace && decide (4 ≤ inst.dataSize)) ||
      decide (inst.dataSize / 4 ≤ maxAccessesPerInsnPerThread)) .tooManyAccesses
    return (((inst.lanes thread).memreqaddr.take maxAccessesPerInsnPerThread).takeWhile
      (· ≠ 0)).foldl (noteAccess (inst.segmentSize cfg) thread (inst.accessSize thread)) m

/-- The accesses of a warp part. -/
def coalescePart (isWrite : Bool) (accessType : MemAccessType) (part : Nat) :
    Except CoalesceFault (List MemAccess) := do
  let m ← (subwarp cfg part).foldlM (inst.noteLane cfg) ∅
  m.blocks.mapM fun (block, info) =>
    reduceAndSend isWrite accessType info block (inst.segmentSize cfg)

/-- `memory_coalescing_arch` -/
def memoryCoalescingArch (isWrite : Bool) (accessType : MemAccessType) :
    Except CoalesceFault (List MemAccess) := do
  require (decide (cfg.memWarpParts ≠ 0)) .warpParts
  let parts ← (List.range cfg.memWarpParts).mapM (inst.coalescePart cfg isWrite accessType)
  return parts.flatten

/-! ### memory_coalescing_arch_atomic -/

/-- The transactions of a segment with a lane in the first one that it does not conflict with. -/
def placeAtomic (thread : Nat) (addr : NewAddrType) (size : Nat) :
    List TransactionInfo → Except CoalesceFault (List TransactionInfo)
  | [] => .ok [({} : TransactionInfo).note thread addr size]
  | info :: rest =>
    let idx := addr.toNat % 128
    if !info.testBytes idx (idx + size - 1) then do
      require ((List.range size).all fun i => !info.bytes.getLsbD (idx + i)) .bytesTaken
      return info.note thread addr size :: rest
    else do
      let rest ← placeAtomic thread addr size rest
      return info :: rest

/-- One turn of the loop over the lanes. -/
def noteAtomic (m : Transactions (List TransactionInfo)) (thread : Nat) :
    Except CoalesceFault (Transactions (List TransactionInfo)) :=
  if !inst.activeMask.getLsbD thread then .ok m
  else do
    let addr := (inst.lanes thread).memreqaddr.getD 0 0
    let block := lineSizeBasedTagFunc addr (inst.segmentSize cfg)
    let last := addr + BitVec.ofNat 64 inst.dataSize - 1
    require (decide (block = lineSizeBasedTagFunc last (inst.segmentSize cfg))) .oneSegment
    let infos ← placeAtomic thread addr inst.dataSize ((m.lookup block.toNat).getD [])
    return m.insert block.toNat infos

/-- The accesses of a warp part. -/
def coalesceAtomicPart (isWrite : Bool) (accessType : MemAccessType) (part : Nat) :
    Except CoalesceFault (List MemAccess) := do
  let m ← (subwarp cfg part).foldlM (inst.noteAtomic cfg) ∅
  let accesses ← m.blocks.mapM fun (block, infos) => infos.mapM fun info =>
    reduceAndSend isWrite accessType info block (inst.segmentSize cfg)
  return accesses.flatten

/-- `memory_coalescing_arch_atomic` -/
def memoryCoalescingArchAtomic (isWrite : Bool) (accessType : MemAccessType) :
    Except CoalesceFault (List MemAccess) := do
  require (!inst.localSpace) .notGlobal
  require (decide (cfg.memWarpParts ≠ 0)) .warpParts
  let parts ← (List.range cfg.memWarpParts).mapM (inst.coalesceAtomicPart cfg isWrite accessType)
  return parts.flatten

end CoalesceInst

end FlashGpuSim
