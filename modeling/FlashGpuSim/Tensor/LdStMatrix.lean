import FlashGpuSim.Lib.ByteMemory
import FlashGpuSim.Lib.Outcome
import Mathlib.Tactic

/-!
`ldmatrix` and `stmatrix`: the lanes of a warp move 8x8 matrices between shared memory and their
registers, one lane after the other, and each takes the addresses of the rows from the registers
of other lanes.
-/

namespace FlashGpuSim

open Lib

/-- The bytes of `ptx_reg_t`, the lowest first. -/
abbrev RegBytes := Nat → BitVec 8

/-- A register of 32 or of 64 bits. -/
structure MatrixReg where
  uid : Nat
  wide : Bool
  deriving DecidableEq, Repr

def MatrixReg.bytes (r : MatrixReg) : Nat := if r.wide then 8 else 4

/-- An address operand: a register and an offset, modulo 2^64. -/
structure MatrixAddress where
  reg : MatrixReg
  offset : Nat
  deriving DecidableEq, Repr

/-- The lanes of a warp with the shared memory of their CTA. -/
structure MatrixWarp where
  regs : Nat → MatrixReg → RegBytes
  smem : ByteMemory

inductive MatrixOption
  | sync | aligned | m8n8 | trans | x1 | x2 | x4 | b8Type | b16Type
  | other (code : Nat)
  deriving DecidableEq, Repr

inductive MatrixScalar
  | b8 | b16
  | other (code : Nat)
  deriving DecidableEq, Repr

inductive MatrixFailure
  | unknownOption (code : Nat)
  | matrixShape | numMatrixs | scalarType | notSync | notAligned | operandSize
  deriving DecidableEq, Repr

/-- An instruction with its vector operand, the destination of a load and the source of a
store. -/
structure LdStMatrixInst where
  options : List MatrixOption
  scalarTypes : List MatrixScalar
  vector : List MatrixReg
  addr : MatrixAddress
  deriving DecidableEq, Repr

/-- The options as read so far. -/
structure MatrixOptions where
  isSync : Bool := false
  isAligned : Bool := false
  m8n8 : Bool := false
  numMatrixs : Option Nat := none
  isTranspose : Bool := false
  deriving DecidableEq, Repr

def MatrixOptions.read (o : MatrixOptions) : MatrixOption → Except MatrixFailure MatrixOptions
  | .sync => .ok { o with isSync := true }
  | .aligned => .ok { o with isAligned := true }
  | .m8n8 => .ok { o with m8n8 := true }
  | .trans => .ok { o with isTranspose := true }
  | .x1 => .ok { o with numMatrixs := some 1 }
  | .x2 => .ok { o with numMatrixs := some 2 }
  | .x4 => .ok { o with numMatrixs := some 4 }
  | .b8Type | .b16Type => .ok o
  | .other code => .error (.unknownOption code)

/-- `LdMatrixShapeSpec` -/
structure LdMatrixShapeSpec where
  rows : Nat
  cols : Nat
  lanesPerRow : Nat
  colsPerLane : Nat

/-- `get_shape_spec` of the one shape that passes the assertions. -/
def m8n8Spec : LdMatrixShapeSpec := ⟨8, 8, 4, 2⟩

/-- What the lanes work with. -/
structure MatrixConfig where
  numMatrixs : Nat
  isTranspose : Bool
  elementSize : Nat
  vector : List MatrixReg
  addr : MatrixAddress
  operandSize : vector.length = numMatrixs

/-- The options and the assertions before the lanes. -/
def LdStMatrixInst.config (i : LdStMatrixInst) : Except MatrixFailure MatrixConfig := do
  let o ← i.options.foldlM MatrixOptions.read {}
  let scalarType := i.scalarTypes.getLast?
  require o.m8n8 .matrixShape
  let numMatrixs ← o.numMatrixs.elim (.error .numMatrixs) .ok
  require (decide (scalarType = some .b16 ∨ scalarType = some .b8)) .scalarType
  require o.isSync .notSync
  require o.isAligned .notAligned
  if operandSize : i.vector.length = numMatrixs then
    return {
      numMatrixs
      isTranspose := o.isTranspose
      elementSize := if scalarType = some .b16 then 2 else 1
      vector := i.vector
      addr := i.addr
      operandSize }
  else .error .operandSize

/-- A copy of `size` bytes between shared memory and a register. -/
structure MatrixTransfer where
  address : Nat
  at_ : Nat
  size : Nat

/-- `set_reg` -/
def setMatrixReg (regs : MatrixReg → RegBytes) (r : MatrixReg) (value : RegBytes) :
    MatrixReg → RegBytes :=
  Function.update regs r fun k => if r.bytes ≤ k ∧ k < 8 then 0 else value k

/-- `set_vector_operand_values` -/
def setVectorOperandValues (regs : MatrixReg → RegBytes) (vector : List MatrixReg)
    (data : Nat → RegBytes) : MatrixReg → RegBytes :=
  vector.zipIdx.foldl (fun regs entry => setMatrixReg regs entry.1 (data entry.2)) regs

/-- `get_vector_operand_values` -/
def getVectorOperandValues (regs : MatrixReg → RegBytes) (vector : List MatrixReg)
    (results : Nat → RegBytes) : Nat → RegBytes :=
  fun m => (vector[m]?).elim (results m) regs

namespace MatrixConfig

variable (c : MatrixConfig)

/-- `get_u32_value` of the address operand in each lane. -/
def addresses (regs : Nat → MatrixReg → RegBytes) (lane : Nat) : Nat :=
  (littleEndian 8 (regs lane c.addr.reg) + c.addr.offset) % 2 ^ 32

/-- The copies of a lane for one matrix. -/
def transfers (addresses : Nat → Nat) (lane m : Nat) : List MatrixTransfer :=
  let matrixRowId := lane / m8n8Spec.lanesPerRow
  let matrixColId := lane % m8n8Spec.lanesPerRow * m8n8Spec.colsPerLane
  if !c.isTranspose then
    let baseAddress := addresses (m * m8n8Spec.rows + matrixRowId)
    [{ address := (baseAddress + matrixColId * c.elementSize) % 2 ^ 32
       at_ := 0
       size := m8n8Spec.colsPerLane * c.elementSize }]
  else
    (List.range m8n8Spec.colsPerLane).map fun elem =>
      let baseAddress := addresses (m * m8n8Spec.rows + (matrixColId + elem))
      { address := (baseAddress + matrixRowId * c.elementSize) % 2 ^ 32
        at_ := 2 * elem
        size := c.elementSize }

/-- The turn of one matrix in a lane of `ldmatrix`. -/
def loadMatrix (w : MatrixWarp) (lane : Nat) (results : Nat → RegBytes) (m : Nat) :
    Nat → RegBytes :=
  Function.update results m
    ((c.transfers (c.addresses w.regs) lane m).foldl
      (fun data t => ByteMemory.write data t.at_ t.size (w.smem.read t.address)) (results m))

def loadLane (state : MatrixWarp × (Nat → RegBytes)) (lane : Nat) :
    MatrixWarp × (Nat → RegBytes) :=
  let w := state.1
  let results := (List.range c.numMatrixs).foldl (c.loadMatrix w lane) state.2
  ({ w with regs :=
      Function.update w.regs lane (setVectorOperandValues (w.regs lane) c.vector results) },
    results)

/-- The turn of one matrix in a lane of `stmatrix`. -/
def storeMatrix (addresses : Nat → Nat) (lane : Nat) (results : Nat → RegBytes)
    (smem : ByteMemory) (m : Nat) : ByteMemory :=
  (c.transfers addresses lane m).foldl
    (fun smem t => smem.write t.address t.size (ByteMemory.read (results m) t.at_)) smem

def storeLane (state : MatrixWarp × (Nat → RegBytes)) (lane : Nat) :
    MatrixWarp × (Nat → RegBytes) :=
  let w := state.1
  let results := getVectorOperandValues (w.regs lane) c.vector state.2
  ({ w with smem :=
      (List.range c.numMatrixs).foldl (c.storeMatrix (c.addresses w.regs) lane results) w.smem },
    results)

/-- The lane loop of `handle_ldmatrix_inst`. -/
def load (w : MatrixWarp) : MatrixWarp :=
  ((List.range 32).foldl c.loadLane (w, fun _ _ => 0)).1

/-- The lane loop of `handle_stmatrix_inst`. -/
def store (w : MatrixWarp) : MatrixWarp :=
  ((List.range 32).foldl c.storeLane (w, fun _ _ => 0)).1

end MatrixConfig

def handleLdmatrixInst (i : LdStMatrixInst) (w : MatrixWarp) : Except MatrixFailure MatrixWarp :=
  i.config.map fun c => c.load w

def handleStmatrixInst (i : LdStMatrixInst) (w : MatrixWarp) : Except MatrixFailure MatrixWarp :=
  i.config.map fun c => c.store w

end FlashGpuSim
