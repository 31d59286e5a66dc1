import FlashGpuSim.Lib.ByteMemory

/-!
The functional memory of the simulator. A memory is kept in blocks of `2 ^ b` bytes, which are made
when they are first written, and a copy goes block by block.
-/

namespace FlashGpuSim

open Lib

/-- The loop by which a memory looks for the only bit of its block size. -/
def log2BlockSizeFrom (bsize : Nat) : List Nat → Option Nat → Option (Option Nat)
  | [], found => some found
  | n :: bits, found =>
    if bsize.testBit n then
      if found.isNone then log2BlockSizeFrom bsize bits (some n) else none
    else log2BlockSizeFrom bsize bits found

/-- `m_log2_block_size`; `none` where an assertion of the constructor fires. -/
def log2BlockSize (bsize : Nat) : Option Nat :=
  (log2BlockSizeFrom bsize (List.range 32) none).join

/-- The block sizes that are instantiated. -/
example : [32, 64, 8192, 16 * 1024].map log2BlockSize = [some 5, some 6, some 13, some 14] := by
  decide

/-- `memory_space_impl`, with its blocks by their index. -/
abbrev MemorySpaceImpl := Nat → Option ByteMemory

namespace MemorySpaceImpl

variable {b : Nat}

/-- A `size_t` or an address. -/
def wrap64 (n : Nat) : Nat := n % 2 ^ 64

/-- An `unsigned`. -/
def wrap32 (n : Nat) : Nat := n % 2 ^ 32

/-- `mem_storage::write` into the block, which is made when it is missing. A copy that leaves the
block is stopped by the assertion, or has no meaning where its sum wraps. -/
def storageWrite (b : Nat) (m : MemorySpaceImpl) (index offset length : Nat) (data : ByteMemory) :
    Option MemorySpaceImpl :=
  if offset + length ≤ 2 ^ b then
    some (Function.update m index (some (((m index).getD fun _ => 0).write offset length data)))
  else none

/-- `write_only` -/
def writeOnly (b : Nat) (m : MemorySpaceImpl) (offset index length : Nat) (data : ByteMemory) :
    Option MemorySpaceImpl :=
  storageWrite b m index (wrap32 offset) length data

/-- The bytes that one round of the loops of `write` and `read` moves. -/
def txBytes (b offset nbytesRemain : Nat) : Nat :=
  let accessLimit := min (wrap32 (offset + nbytesRemain)) (2 ^ b)
  wrap64 (accessLimit + 2 ^ 64 - offset)

/-- The loop of `write`, at most `fuel` rounds of it. -/
def writeLoop (b : Nat) (data : ByteMemory) :
    (fuel : Nat) → (m : MemorySpaceImpl) → (currentAddr srcOffset nbytesRemain : Nat) →
      Option MemorySpaceImpl
  | 0, m, _, _, nbytesRemain => if nbytesRemain = 0 then some m else none
  | fuel + 1, m, currentAddr, srcOffset, nbytesRemain =>
    if nbytesRemain = 0 then some m
    else do
      let offset := currentAddr % 2 ^ b
      let tx := txBytes b offset nbytesRemain
      let m ← storageWrite b m (currentAddr / 2 ^ b) offset tx fun k => data (srcOffset + k)
      writeLoop b data fuel m (wrap64 (currentAddr + tx)) (wrap32 (srcOffset + tx))
        (wrap32 (nbytesRemain + 2 ^ 64 - tx))

/-- Whether an access is taken for one inside the block `index`. -/
def fitsBlock (b index addr length : Nat) : Bool :=
  decide (wrap64 (addr + length) ≤ wrap64 ((index + 1) * 2 ^ b))

def write (b : Nat) (m : MemorySpaceImpl) (addr length : Nat) (data : ByteMemory) :
    Option MemorySpaceImpl :=
  let index := addr / 2 ^ b
  if fitsBlock b index addr length then
    storageWrite b m index (addr % 2 ^ b) (wrap32 length) data
  else writeLoop b data (wrap32 length) m addr 0 (wrap32 length)

/-- `read_single_block` into the buffer `out` from `dst` on; a failed check throws. -/
def readSingleBlock (b : Nat) (m : MemorySpaceImpl) (blkIdx addr length : Nat) (out : ByteMemory)
    (dst : Nat) : Option ByteMemory :=
  if fitsBlock b blkIdx addr length then
    match m blkIdx with
    | some storage =>
      let offset := addr % 2 ^ b
      if offset + wrap32 length ≤ 2 ^ b then
        some (out.write dst (wrap32 length) (storage.read offset))
      else none
    | none => some (out.write dst length fun _ => 0)
  else none

/-- The loop of `read`. -/
def readLoop (b : Nat) (m : MemorySpaceImpl) :
    (fuel : Nat) → (out : ByteMemory) → (currentAddr dstOffset nbytesRemain : Nat) →
      Option ByteMemory
  | 0, out, _, _, nbytesRemain => if nbytesRemain = 0 then some out else none
  | fuel + 1, out, currentAddr, dstOffset, nbytesRemain =>
    if nbytesRemain = 0 then some out
    else do
      let tx := txBytes b (currentAddr % 2 ^ b) nbytesRemain
      let out ← readSingleBlock b m (currentAddr / 2 ^ b) currentAddr tx out dstOffset
      readLoop b m fuel out (wrap64 (currentAddr + tx)) (wrap32 (dstOffset + tx))
        (wrap32 (nbytesRemain + 2 ^ 64 - tx))

def read (b : Nat) (m : MemorySpaceImpl) (addr length : Nat) (out : ByteMemory) :
    Option ByteMemory :=
  let index := addr / 2 ^ b
  if fitsBlock b index addr length then readSingleBlock b m index addr length out 0
  else readLoop b m (wrap32 length) out addr 0 (wrap32 length)

/-! ### Runs -/

/-- The calls of a memory. A read is given the buffer it fills. -/
inductive Call
  | write (addr length : BitVec 64) (data : ByteMemory)
  | writeOnly (offset index length : BitVec 64) (data : ByteMemory)
  | read (addr length : BitVec 64) (out : ByteMemory)

/-- A call leaves a memory and the buffers it filled. -/
def call (b : Nat) (m : MemorySpaceImpl) : Call → Option (MemorySpaceImpl × List ByteMemory)
  | .write addr length data => (m.write b addr.toNat length.toNat data).map fun m => (m, [])
  | .writeOnly offset index length data =>
    (m.writeOnly b offset.toNat index.toNat length.toNat data).map fun m => (m, [])
  | .read addr length out => (m.read b addr.toNat length.toNat out).map fun out => (m, [out])

def run (b : Nat) (m : MemorySpaceImpl) : List Call → Option (MemorySpaceImpl × List ByteMemory)
  | [] => some (m, [])
  | c :: calls => do
    let first ← m.call b c
    let rest ← run b first.1 calls
    return (rest.1, first.2 ++ rest.2)

end MemorySpaceImpl

end FlashGpuSim
