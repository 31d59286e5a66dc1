import FlashGpuSim.Memory.Windows

/-!
The conversions between the addresses of a state space and generic addresses. An address of shared
memory of another SM is compact, the owner above the offset.
-/

namespace FlashGpuSim

/-- The state spaces with a window of generic addresses. -/
inductive GenericSpace
  | sharedSpace
  | localSpace
  | globalSpace
  deriving DecidableEq, Repr

/-- What the conversions read of a thread: its SM and hardware thread, the stack pointer of its
local memory, and the SMs of its cluster, which `resolve_tb_cluster_owner_sm` finds. -/
structure AddressThread where
  smid : Fin maxStreamingMultiprocessors
  hwtid : Fin maxThreadPerSm
  stackPointer : Nat
  stackPointer_lt : stackPointer < 2 ^ 32
  peer : Fin maxStreamingMultiprocessors → Bool

/-- The memory an address stands for, and the place in it. -/
inductive MemoryPlace
  | globalMem (addr : Nat)
  | localMem (offset : Nat)
  | sharedMem (owner offset : Nat)
  deriving DecidableEq, Repr

/-! ### Windows -/

/-- `shared_to_generic`; `none` where the assertion fires. -/
def sharedToGeneric (smid addr : Nat) : Option Nat :=
  if addr < sharedMemSizeMax then
    some (wrapAddr (sharedGenericStart + smid * sharedMemSizeMax + addr))
  else none

def globalToGeneric (addr : Nat) : Nat := addr

def isspaceShared (smid addr : Nat) : Bool :=
  decide (sharedGenericStart + smid * sharedMemSizeMax ≤ addr ∧
    addr < sharedGenericStart + (smid + 1) * sharedMemSizeMax)

def isspaceGlobal (addr : Nat) : Bool := decide (globalHeapStart ≤ addr ∨ addr < staticAllocLimit)

def whichspace (addr : Nat) : GenericSpace :=
  if globalHeapStart ≤ addr ∨ addr < staticAllocLimit then .globalSpace
  else if sharedGenericStart ≤ addr then .sharedSpace
  else .localSpace

/-- `generic_to_shared` -/
def genericToShared (smid addr : Nat) : Nat :=
  if isspaceShared smid addr then addr - (sharedGenericStart + smid * sharedMemSizeMax)
  else
    let addr := if addr / 2 ^ 32 ≠ 0 then u32 addr else addr
    let owner := u32 (addr / sharedMemSizeMax)
    if addr < sharedMemSizeMax then addr
    else if 1 ≤ owner ∧ owner - 1 = smid then addr % sharedMemSizeMax
    else u32 addr % sharedMemSizeMax

/-- Where the window of a thread's local memory begins. -/
def localWindow (smid hwtid : Nat) : Nat :=
  localGenericStart + totalLocalMemPerSm * smid + localMemSizeMax * hwtid

/-- `local_to_generic` -/
def localToGeneric (smid hwtid addr : Nat) : Option Nat :=
  if addr < localMemSizeMax then some (wrapAddr (localWindow smid hwtid + addr)) else none

def isspaceLocal (smid hwtid addr : Nat) : Bool :=
  decide (localWindow smid hwtid ≤ addr ∧
    addr < localGenericStart + totalLocalMemPerSm * smid + localMemSizeMax * (hwtid + 1))

/-- `generic_to_local` -/
def genericToLocal (smid hwtid addr : Nat) : Option Nat :=
  if isspaceLocal smid hwtid addr then some (addr - localWindow smid hwtid) else none

def genericToGlobal (addr : Nat) : Nat := addr

/-! ### Instructions -/

/-- `cvta_impl` from a space to generic addresses -/
def cvta (t : AddressThread) (space : GenericSpace) (addr : Nat) : Option Nat :=
  match space with
  | .sharedSpace => sharedToGeneric t.smid addr
  | .localSpace => (localToGeneric t.smid t.hwtid addr).map fun g => wrapAddr (g + t.stackPointer)
  | .globalSpace => some (globalToGeneric addr)

/-- The compact address of shared memory of an SM. -/
def compactShared (owner offset : Nat) : Nat := (owner + 1) * sharedMemSizeMax + offset

/-- `cvta_impl` with `.to` -/
def cvtaTo (t : AddressThread) (space : GenericSpace) (addr : Nat) : Option Nat :=
  match space with
  | .sharedSpace =>
    match decodeSharedGeneric addr with
    | some (owner, offset) =>
      some (if owner = t.smid then offset else wrapAddr (compactShared owner offset))
    | none => some (genericToShared t.smid addr)
  | .localSpace => genericToLocal t.smid t.hwtid addr
  | .globalSpace => some (genericToGlobal addr)

/-- The labels of the `switch` of `isspacep_impl`. -/
inductive IsspacepLabel
  | space (space : GenericSpace)
  | default
  deriving DecidableEq

/-- The statements from a label on. No case ends with a `break`, and the last one aborts. -/
def isspacepFrom (t : AddressThread) (addr : Nat) : List IsspacepLabel → Bool → Option Bool
  | [], answer => some answer
  | .space .sharedSpace :: rest, _ => isspacepFrom t addr rest (isspaceShared t.smid addr)
  | .space .localSpace :: rest, _ => isspacepFrom t addr rest (isspaceLocal t.smid t.hwtid addr)
  | .space .globalSpace :: rest, _ => isspacepFrom t addr rest (isspaceGlobal addr)
  | .default :: _, _ => none

/-- `isspacep_impl` -/
def isspacepImpl (t : AddressThread) (space : GenericSpace) (addr : Nat) : Option Bool :=
  isspacepFrom t addr
    ([.space .sharedSpace, .space .localSpace, .space .globalSpace, .default].dropWhile (· ≠ .space space)) false

/-- The shared memory of an SM, if it is the thread's own or the cluster has the SM. -/
def sharedPlace (t : AddressThread) (owner offset : Nat) : Option MemoryPlace :=
  if owner = t.smid then some (.sharedMem owner offset)
  else if h : owner < maxStreamingMultiprocessors then
    if t.peer ⟨owner, h⟩ then some (.sharedMem owner offset) else none
  else none

/-- `decode_space` of an access through an explicit space -/
def decodeExplicit (t : AddressThread) (space : GenericSpace) (addr : Nat) : Option MemoryPlace :=
  match space with
  | .globalSpace => some (.globalMem addr)
  | .localSpace => some (.localMem (wrapAddr (addr + t.stackPointer)))
  | .sharedSpace =>
    let addr := if addr < sharedGenericStart then u32 addr else addr
    let owner := if sharedMemSizeMax ≤ addr then u32 (addr / sharedMemSizeMax - 1) else t.smid
    sharedPlace t owner (addr % sharedMemSizeMax)

/-- `decode_space` of a generic access -/
def decodeGeneric (t : AddressThread) (addr : Nat) : Option MemoryPlace :=
  match whichspace addr with
  | .globalSpace => some (.globalMem (genericToGlobal addr))
  | .localSpace => (genericToLocal t.smid t.hwtid addr).map .localMem
  | .sharedSpace =>
    match decodeSharedGeneric addr with
    | some (owner, offset) => sharedPlace t owner offset
    | none => sharedPlace t t.smid (genericToShared t.smid addr)

/-- The target address of `mapa_impl` for a CTA on an SM. -/
def mapaTarget (wide : Bool) (found offset : Nat) : Option Nat :=
  if wide then sharedToGeneric found offset
  else if compactShared found offset < 2 ^ 32 then some (compactShared found offset)
  else none

/-- `mapa_impl`, with the SM that `resolve_tb_cluster_rank` found. -/
def mapaImpl (t : AddressThread) (wide : Bool) (found a : Nat) : Option Nat :=
  let addr := if wide then wrapAddr a else u32 a
  let localOffset :=
    match decodeSharedGeneric addr with
    | some (owner, offset) =>
      if owner = t.smid then offset
      else if addr < sharedMemSizeMax then addr else addr % sharedMemSizeMax
    | none => if addr < sharedMemSizeMax then addr else addr % sharedMemSizeMax
  mapaTarget wide found localOffset

/-! ### What the conversions are for -/

/-- The addresses of a space that a thread may use: offsets and compact addresses of its cluster
in shared memory, offsets of its frame in local memory, and global memory. -/
def ValidExplicit (t : AddressThread) : GenericSpace → Nat → Prop
  | .sharedSpace, addr => addr < compactShared maxStreamingMultiprocessors 0 ∧
      (decodeExplicit t .sharedSpace addr).isSome
  | .localSpace, addr => addr + t.stackPointer < localMemSizeMax
  | .globalSpace, addr => isspaceGlobal addr = true ∧ addr < 2 ^ 64

/-- The generic addresses of a space that a thread may use. -/
def ValidGeneric (t : AddressThread) : GenericSpace → Nat → Prop
  | .sharedSpace, addr => ∃ owner offset, owner < maxStreamingMultiprocessors ∧
      offset < sharedMemSizeMax ∧ addr = sharedGenericStart + owner * sharedMemSizeMax + offset ∧
      (sharedPlace t owner offset).isSome
  | .localSpace, addr => isspaceLocal t.smid t.hwtid addr = true
  | .globalSpace, addr => isspaceGlobal addr = true ∧ addr < 2 ^ 64

/-- To a generic address and back, always at the same place. -/
def ExplicitRight (t : AddressThread) (space : GenericSpace) (addr : Nat) : Prop :=
  ∃ g e, cvta t space addr = some g ∧ cvtaTo t space g = some e ∧
    decodeGeneric t g = decodeExplicit t space addr ∧
    decodeExplicit t space e = decodeExplicit t space addr

/-- From a generic address and back, always at the same place. -/
def GenericRight (t : AddressThread) (space : GenericSpace) (addr : Nat) : Prop :=
  ∃ e g, cvtaTo t space addr = some e ∧ cvta t space e = some g ∧
    decodeExplicit t space e = decodeGeneric t addr ∧
    decodeGeneric t g = decodeGeneric t addr

/-- `isspacep_impl` answers whether the address is one of the space. -/
def IsspacepRight (t : AddressThread) (space : GenericSpace) (addr : Nat) : Prop :=
  isspacepImpl t space addr = some (decide (whichspace addr = space))

/-- The forms of a shared address: compact, generic, and the plain offset on the SM itself. -/
def sharedForms (t : AddressThread) (owner offset : Nat) : List Nat :=
  [compactShared owner offset, sharedGenericStart + owner * sharedMemSizeMax + offset] ++
    if owner = t.smid then [offset] else []

/-- `mapa_impl` maps all forms of a shared address to the same offset of the target. -/
def MapaRight (t : AddressThread) : Prop :=
  ∀ (wide : Bool) (owner found : Fin maxStreamingMultiprocessors), ∀ offset < sharedMemSizeMax,
    ∃ target, mapaTarget wide found offset = some target ∧
      ∀ form ∈ sharedForms t owner offset, mapaImpl t wide found form = some target

/-! ### Where the code is right -/

/-- Own shared memory, global memory, and local memory outside of called functions. -/
def ExplicitDefined (t : AddressThread) : GenericSpace → Nat → Prop
  | .sharedSpace, addr => addr < sharedMemSizeMax
  | .localSpace, _ => t.stackPointer = 0
  | .globalSpace, _ => True

def GenericDefined (t : AddressThread) : GenericSpace → Nat → Prop
  | .sharedSpace, addr => isspaceShared t.smid addr = true
  | .localSpace, _ => t.stackPointer = 0
  | .globalSpace, _ => True

end FlashGpuSim
