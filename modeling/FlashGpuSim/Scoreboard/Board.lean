import FlashGpuSim.Lib.Reach
import Mathlib.Data.Finset.Basic

/-!
`Scoreboard`: the registers of each warp that an instruction in flight will write. The tables of
a warp are one record, and an instruction keeps the fields that the scoreboard reads.
-/

namespace FlashGpuSim

open Lib

/-- `op_type` -/
inductive UarchOp
  | noOp
  | alu
  | sfu
  | tensorCore
  | dp
  | sp
  | intp
  | aluSfu
  | load
  | tensorCoreLoad
  | tensorCoreStore
  | tensorMemoryAccelerator
  | asyncCopy
  | tensorMap
  | store
  | branch
  | barrier
  | mbarrier
  | memoryBarrier
  | call
  | ret
  | exit
  | specialized (unit : Nat)
  deriving DecidableEq, Repr

/-- `_memory_space_t` -/
inductive MemorySpace
  | undefined
  | reg
  | local
  | shared
  | sstarr
  | paramUnclassified
  | paramKernel
  | paramLocal
  | const
  | tex
  | surf
  | global
  | generic
  | instruction
  deriving DecidableEq, Repr

/-- `reg_producer_t` -/
inductive RegProducer
  | memGlobal
  | memShared
  | tensorCore
  | spInt
  | sfu
  | tma
  | tensorMap
  | other
  deriving DecidableEq, Repr

/-- `warp_inst_t` -/
structure ScoreInst where
  uid : Nat
  op : UarchOp := .sp
  /-- `memory_op == memory_load` -/
  memoryLoad : Bool := false
  space : MemorySpace := .undefined
  out : List Nat := []
  input : List Nat := []
  extraOut : List Nat := []
  extraIn : List Nat := []
  pred : Nat := 0
  ar1 : Nat := 0
  ar2 : Nat := 0
  deriving DecidableEq, Repr

namespace ScoreInst

variable (i : ScoreInst)

/-- `outcount`, as `pre_decode` counts it. -/
def outcount : Nat := i.out.countP (0 < ·)

def incount : Nat := i.input.countP (0 < ·)

def isLoad : Bool := i.op = .load || i.op = .tensorCoreLoad || i.memoryLoad

/-- A load from a space that takes long. -/
def longLoad : Bool :=
  i.isLoad && (i.space = .global || i.space = .local || i.space = .paramKernel ||
    i.space = .paramLocal || i.space = .paramUnclassified || i.space = .tex)

def producer : RegProducer :=
  match i.op with
  | .tensorCore => .tensorCore
  | .tensorMemoryAccelerator => .tma
  | .tensorMap => .tensorMap
  | .sfu | .aluSfu | .dp => .sfu
  | .load | .store | .memoryBarrier | .tensorCoreLoad | .tensorCoreStore | .mbarrier =>
    if i.space = .shared then .memShared else .memGlobal
  | .sp | .intp | .alu => .spInt
  | _ => .other

/-- The registers that `checkCollision` looks at. -/
def instRegs : List Nat :=
  i.out.take i.outcount ++ i.input.take i.incount ++ i.extraOut ++ i.extraIn ++
    [i.pred, i.ar1, i.ar2].filter (0 < ·)

/-- The registers that the instruction writes. -/
def outputs : List Nat := (i.out ++ i.extraOut).filter (0 < ·)

end ScoreInst

/-- The tables of one warp. -/
structure WarpBoard where
  regTable : Finset Nat := ∅
  regOwner : Nat → Option Nat := fun _ => none
  readyRegs : Finset Nat := ∅
  longopregs : Finset Nat := ∅
  regProducer : Nat → Option RegProducer := fun _ => none

/-- `abort()` in `reserveRegister` -/
inductive ScoreFailure
  | unavailable
  deriving DecidableEq, Repr

namespace WarpBoard

variable (b : WarpBoard)

def reserveRegister (regnum uid : Nat) : Except ScoreFailure WarpBoard := do
  require (decide (regnum ∉ b.regTable ∨ regnum ∈ b.readyRegs)) .unavailable
  return { b with
    regTable := insert regnum b.regTable
    regOwner := Function.update b.regOwner regnum (some uid)
    readyRegs := b.readyRegs.erase regnum }

def setProducer (regnum : Nat) (prod : RegProducer) : WarpBoard :=
  { b with regProducer := Function.update b.regProducer regnum (some prod) }

/-- The loops over `out` and `extra_out`; `seen` is `reserved_outputs`. -/
def reserveOutputs (uid : Nat) (prod : RegProducer) :
    List Nat → List Nat → WarpBoard → Except ScoreFailure WarpBoard
  | [], _, b => .ok b
  | r :: rest, seen, b =>
    if 0 < r ∧ r ∉ seen then do
      let b ← b.reserveRegister r uid
      reserveOutputs uid prod rest (r :: seen) (b.setProducer r prod)
    else reserveOutputs uid prod rest seen b

/-- `reserveRegistersForWarp` -/
def reserveRegisters (i : ScoreInst) : Except ScoreFailure WarpBoard := do
  let b ← reserveOutputs i.uid i.producer (i.out ++ i.extraOut) [] b
  return if i.longLoad then { b with longopregs := b.longopregs ∪ i.outputs.toFinset } else b

def releaseRegister (regnum : Nat) : WarpBoard :=
  if regnum ∈ b.regTable then
    { regTable := b.regTable.erase regnum
      regOwner := Function.update b.regOwner regnum none
      readyRegs := b.readyRegs.erase regnum
      longopregs := b.longopregs.erase regnum
      regProducer := Function.update b.regProducer regnum none }
  else b

def releaseRegisterIfOwner (regnum uid : Nat) : WarpBoard :=
  if b.regOwner regnum = some uid then b.releaseRegister regnum else b

/-- `releaseRegistersForWarp` -/
def releaseRegisters (i : ScoreInst) : WarpBoard :=
  i.outputs.foldl (fun b r => b.releaseRegisterIfOwner r i.uid) b

/-- `markRegistersReadyForWarp` -/
def markRegistersReady (uid : Nat) (outputs : List Nat) : WarpBoard :=
  outputs.foldl (fun b r =>
    if r ≠ 0 ∧ b.regOwner r = some uid then { b with readyRegs := insert r b.readyRegs } else b) b

/-- `clearWarp` -/
def clear : WarpBoard :=
  { b with
    regTable := ∅
    regOwner := fun _ => none
    readyRegs := ∅
    regProducer := fun _ => none }

/-- The register waits for a value that cannot be forwarded yet. -/
def blocks (regnum : Nat) : Bool := decide (regnum ∈ b.regTable) && decide (regnum ∉ b.readyRegs)

def checkCollision (i : ScoreInst) : Bool := i.instRegs.any b.blocks

def pendingWrites : Bool := decide (b.regTable.Nonempty)

end WarpBoard

/-- A call of the scoreboard, with the warp. -/
inductive ScoreCall
  | reserve (wid : Nat) (i : ScoreInst)
  | markReady (wid uid : Nat) (outputs : List Nat)
  | release (wid : Nat) (i : ScoreInst)
  | clear (wid : Nat)
  deriving DecidableEq, Repr

/-- The instruction that a call reserves. -/
def ScoreCall.reserved? : ScoreCall → Option ScoreInst
  | .reserve _ i => some i
  | .markReady _ _ _ | .release _ _ | .clear _ => none

/-- The warps of an SM. The log is the history of the calls, for the proofs only. -/
structure Scoreboard where
  warps : Nat → WarpBoard := fun _ => {}
  log : List ScoreCall := []

namespace Scoreboard

variable (s : Scoreboard)

def setWarp (call : ScoreCall) (wid : Nat) (b : WarpBoard) : Scoreboard where
  warps := Function.update s.warps wid b
  log := s.log ++ [call]

def step (call : ScoreCall) : Except ScoreFailure Scoreboard :=
  match call with
  | .reserve wid i => do
    let b ← (s.warps wid).reserveRegisters i
    return s.setWarp call wid b
  | .markReady wid uid outputs =>
    .ok (s.setWarp call wid ((s.warps wid).markRegistersReady uid outputs))
  | .release wid i => .ok (s.setWarp call wid ((s.warps wid).releaseRegisters i))
  | .clear wid => .ok (s.setWarp call wid (s.warps wid).clear)

/-- The instructions that were reserved so far. -/
def reserved : List ScoreInst := s.log.filterMap ScoreCall.reserved?

/-- An instruction is reserved once and without a collision, and a release names an instruction
as it was reserved. -/
def Allowed : ScoreCall → Prop
  | .reserve wid i =>
    (s.warps wid).checkCollision i = false ∧ ∀ j ∈ s.reserved, j.uid ≠ i.uid
  | .release _ i => ∀ j ∈ s.reserved, j.uid = i.uid → j = i
  | .markReady _ _ _ => True
  | .clear _ => True

instance (call : ScoreCall) : Decidable (s.Allowed call) :=
  match call with
  | .reserve _ _ => inferInstanceAs (Decidable (_ ∧ _))
  | .release _ i => inferInstanceAs (Decidable (∀ j ∈ s.reserved, j.uid = i.uid → j = i))
  | .markReady _ _ _ => inferInstanceAs (Decidable True)
  | .clear _ => inferInstanceAs (Decidable True)

end Scoreboard

end FlashGpuSim
