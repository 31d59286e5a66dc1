import FlashGpuSim.Cluster.MapaOwner
import FlashGpuSim.Cluster.SmResources

/-!
The windows of the generic address space: static allocations, the local memory of every thread,
the shared memory of every SM, and the heap.
-/

namespace FlashGpuSim

/-- `LOCAL_MEM_SIZE_MAX` -/
def localMemSizeMax : Nat := 2 ^ 14

/-- `TOTAL_LOCAL_MEM_PER_SM` -/
def totalLocalMemPerSm : Nat := maxThreadPerSm * localMemSizeMax

/-- `TOTAL_LOCAL_MEM` -/
def totalLocalMem : Nat := maxStreamingMultiprocessors * maxThreadPerSm * localMemSizeMax

/-- `LOCAL_GENERIC_START` -/
def localGenericStart : Nat := sharedGenericStart - totalLocalMem

/-- `STATIC_ALLOC_LIMIT` -/
def staticAllocLimit : Nat := globalHeapStart - (totalLocalMem + totalSharedMem)

/-- The windows lie side by side. -/
theorem windows_adjacent : localGenericStart = staticAllocLimit ∧
    localGenericStart + totalLocalMem = sharedGenericStart ∧
    sharedGenericStart + totalSharedMem = globalHeapStart := by decide

/-- Addresses wrap at 64 bits. -/
def wrapAddr (a : Nat) : Nat := a % 2 ^ 64

end FlashGpuSim
