import FlashGpuSim.Tensor.GmmaAddress
import FlashGpuSim.Tensor.LdStMatrix

/-!
Integer matrix products of a warp (`mma`) and of a warp group (`wgmma`), from the fragments in the
registers of the lanes to the accumulators they get back.
-/

namespace FlashGpuSim

open Lib

/-- The scalar types of an `mma`, as far as they tell the implementations apart. -/
inductive MmaType
  | s8 | u8 | s32
  | other (code : Nat)
  deriving DecidableEq, Repr

inductive MmaShape
  | m16n8k16 | m16n8k32
  deriving DecidableEq, Repr

def MmaShape.k : MmaShape → Nat
  | .m16n8k16 => 16
  | .m16n8k32 => 32

/-- The vectors of an `mma`, with different registers in its destination. -/
structure MmaOperands where
  dst : List MatrixReg
  srcA : List MatrixReg
  srcB : List MatrixReg
  srcC : List MatrixReg
  nodup : dst.Nodup
  dst_length : dst.length = 4

structure MmaInst where
  shape : MmaShape
  scalarTypes : List MmaType
  saturate : Bool
  deriving DecidableEq, Repr

/-- The registers of the lanes. -/
abbrev LaneRegs := Nat → MatrixReg → RegBytes

/-- `u32` and `s32` of a register. -/
def RegBytes.b32 (x : RegBytes) : BitVec 32 := BitVec.ofNat 32 (littleEndian 4 x)

def RegBytes.s32 (x : RegBytes) : Int := x.b32.toInt

/-- A new register with this `s32`. -/
def RegBytes.ofS32 (z : Int) : RegBytes := byteOf (BitVec.ofInt 32 z).toNat

/-- The data of a vector in one lane. -/
def laneVector (regs : LaneRegs) (vector : List MatrixReg) (lane : Nat) : Nat → RegBytes :=
  getVectorOperandValues (regs lane) vector fun _ _ => 0

/-- Write a vector in each lane, made of what the lane's registers hold at its turn. -/
def distribute (dst : List MatrixReg) (lanes : Nat)
    (data : Nat → (MatrixReg → RegBytes) → Nat → RegBytes) (regs : LaneRegs) : LaneRegs :=
  (List.range lanes).foldl (fun regs lane => Function.update regs lane
    (setVectorOperandValues (regs lane) dst (data lane (regs lane)))) regs

theorem distribute_apply (dst : List MatrixReg) {lanes lane : Nat}
    (data : Nat → (MatrixReg → RegBytes) → Nat → RegBytes) (regs : LaneRegs)
    (hlane : lane < lanes) : distribute dst lanes data regs lane =
      setVectorOperandValues (regs lane) dst (data lane (regs lane)) := by
  have hown := foldl_update_own
    (fun lane own => setVectorOperandValues own dst (data lane own)) regs lanes lane
  rw [if_pos hlane] at hown
  exact hown

/-! ### `tensor_mma_s8_impl` -/

/-- The cells of `A_mat` that a lane fills. -/
def mmaPlaceA (shape : MmaShape) (regs : Nat → RegBytes) (lane : Nat) : List (Nat × Int) :=
  let groupID := lane / 4
  let colBase := lane % 4 * 4
  let value (i : Nat) : Int := (regs (i / 4) (i % 4)).toInt
  match shape with
  | .m16n8k16 => (List.range 8).map fun i =>
    ((if i < 4 then groupID else groupID + 8) * 16 + (colBase + i % 4), value i)
  | .m16n8k32 => (List.range 16).map fun i =>
    let col :=
      if i < 8 then if i < 4 then colBase + i % 4 else colBase + i % 4 + 16
      else if i < 12 then colBase + i % 4 else colBase + i % 4 + 16
    ((if i < 8 then groupID else groupID + 8) * 32 + col, value i)

/-- The cells of `B_mat` that a lane fills. -/
def mmaPlaceB (shape : MmaShape) (regs : Nat → RegBytes) (lane : Nat) : List (Nat × Int) :=
  let groupID := lane / 4
  let rowBase := lane % 4 * 4
  let value (i : Nat) : Int := (regs (i / 4) (i % 4)).toInt
  match shape with
  | .m16n8k16 => (List.range 4).map fun i => (groupID * 16 + (rowBase + i), value i)
  | .m16n8k32 => (List.range 8).map fun i =>
    (groupID * 32 + if i < 4 then rowBase + i else rowBase + i % 4 + 16, value i)

/-- The accumulators of a lane: rows `groupID` and `groupID + 8`, two columns each. -/
def accumulatorCell (lane r : Nat) : Nat :=
  (lane / 4 + if r < 2 then 0 else 8) * 8 + (lane % 4 * 2 + r % 2)

def mmaPlaceC (regs : Nat → RegBytes) (lane : Nat) : List (Nat × Int) :=
  (List.range 4).map fun r => (accumulatorCell lane r, (regs r).s32)

/-- A matrix collected from all lanes of the warp. -/
def collect (place : Nat → List (Nat × Int)) : Nat → Int :=
  assign (fun _ => 0) ((List.range 32).flatMap place)

/-- `INT32_MIN` and `INT32_MAX` as limits. -/
def clampInt32 (z : Int) : Int := max (-2 ^ 31) (min (2 ^ 31 - 1) z)

/-- `D_mat`, with the products and sums in 64 bits, which they never leave. -/
def mmaProduct (shape : MmaShape) (saturate : Bool) (a b c : Nat → Int) (cell : Nat) : Int :=
  let sum := ((List.range shape.k).map fun k =>
    a (cell / 8 * shape.k + k) * b (cell % 8 * shape.k + k)).sum
  let d := sum + c cell
  if saturate then clampInt32 d else d

def tensorMmaS8Impl (shape : MmaShape) (saturate : Bool) (ops : MmaOperands) (regs : LaneRegs) :
    LaneRegs :=
  let a := collect fun lane => mmaPlaceA shape (laneVector regs ops.srcA lane) lane
  let b := collect fun lane => mmaPlaceB shape (laneVector regs ops.srcB lane) lane
  let c := collect fun lane => mmaPlaceC (laneVector regs ops.srcC lane) lane
  distribute ops.dst 32
    (fun lane _ r => RegBytes.ofS32 (mmaProduct shape saturate a b c (accumulatorCell lane r))) regs

/-- `tensor_mma_impl` of the integer types; the other implementations are left out. -/
def tensorMmaImpl (i : MmaInst) (ops : MmaOperands) (regs : LaneRegs) : Option LaneRegs :=
  let inputType := i.scalarTypes[1]?
  if inputType = some .s8 ∨ inputType = some .u8 then
    some (tensorMmaS8Impl i.shape i.saturate ops regs)
  else none

/-! ### `wgmma_m64n8k32_int8_impl` -/

/-- `int8_value` -/
def int8Value (bits : BitVec 8) (isSigned : Bool) : Int :=
  if isSigned then bits.toInt else bits.toNat

/-- A `wgmma` of four warps, with the descriptor of B, and whether a lane adds its
accumulators. -/
structure WgmmaOperands where
  dst : List MatrixReg
  srcA : List MatrixReg
  bDesc : BitVec 64
  includeC : Nat → Bool
  nodup : dst.Nodup
  dst_length : dst.length = 4

def wgmmaPlaceA (aIsSigned : Bool) (regs : Nat → RegBytes) (lane : Nat) : List (Nat × Int) :=
  (List.range 4).flatMap fun reg =>
    let row := lane / 4 % 8 + 16 * (lane / 32) + 8 * (reg % 2)
    let k0 := 4 * (lane % 4) + 16 * (reg / 2 % 2)
    (List.range 4).map fun byte => (row * 32 + k0 + byte, int8Value (regs reg byte) aIsSigned)

/-- `B_mat`, read through the descriptor. -/
def wgmmaB (bDesc : BitVec 64) (bIsSigned : Bool) (smem : ByteMemory) (col k : Nat) : Int :=
  int8Value (smem (wgmmaGmmaKMajorSmemAddr bDesc col k 1 32).toNat) bIsSigned

/-- `wgmma_m64n8_accumulator_coord` -/
def wgmmaAccumulatorCoord (lane reg : Nat) : Nat × Nat :=
  (lane / 4 % 8 + 16 * (lane / 32) + 8 * (reg / 2 % 2), 2 * (lane % 4) + reg % 2)

def wgmmaM64n8k32Int8Impl (aIsSigned bIsSigned : Bool) (ops : WgmmaOperands) (smem : ByteMemory)
    (regs : LaneRegs) : LaneRegs :=
  let a := assign (fun _ => 0) ((List.range 128).flatMap fun lane =>
    wgmmaPlaceA aIsSigned (laneVector regs ops.srcA lane) lane)
  let b := wgmmaB ops.bDesc bIsSigned smem
  distribute ops.dst 128
    (fun lane own reg =>
      let coord := wgmmaAccumulatorCoord lane reg
      let product := ((List.range 32).map fun k => a (coord.1 * 32 + k) * b coord.2 k).sum
      let c := (getVectorOperandValues own ops.dst (fun _ _ => 0) reg).s32
      RegBytes.ofS32 (clampInt32 (product + if ops.includeC lane then c else 0))) regs

end FlashGpuSim
