import FlashGpuSim.Lib.FixedWidth

/-!
The registers that the integer instructions of a PTX thread read and write. Operands are plain
registers, whose whole content an instruction reads.
-/

namespace FlashGpuSim

open Lib

/-- The low 64 bits of `ptx_reg_t`, of which the integer instructions use no more. A register is
made with all bits clear. -/
abbrev PtxReg := BitVec 64

inductive IntType
  | s8 | s16 | s32 | s64
  | u8 | u16 | u32 | u64
  deriving DecidableEq, Repr

namespace IntType

def width : IntType → Nat
  | s8 | u8 => 8
  | s16 | u16 => 16
  | s32 | u32 => 32
  | s64 | u64 => 64

def signed : IntType → Bool
  | s8 | s16 | s32 | s64 => true
  | u8 | u16 | u32 | u64 => false

/-- What a register holds, read in a type. -/
def value (t : IntType) (x : PtxReg) : Int :=
  if t.signed then (x.setWidth t.width).toInt else (x.setWidth t.width).toNat

end IntType

namespace PtxReg

/-! The views of the union. A write through one of them to a new register leaves its other bits
clear. -/

def b16 (x : PtxReg) : BitVec 16 := x.setWidth 16

def b32 (x : PtxReg) : BitVec 32 := x.setWidth 32

def of16 (x : BitVec 16) : PtxReg := x.setWidth 64

def of32 (x : BitVec 32) : PtxReg := x.setWidth 64

def maskAnd (x : PtxReg) (ms ls : BitVec 32) : PtxReg := x &&& (ms ++ ls)

def maskOr (x : PtxReg) (ms ls : BitVec 32) : PtxReg := x ||| (ms ++ ls)

def getBit (x : PtxReg) (bit : Nat) : Bool := x.getLsbD bit

/-- The bits of a register of `bytes` bytes. -/
def bits (bytes : Nat) : Nat := if 0 < bytes ∧ bytes < 8 then 8 * bytes else 64

/-- `set_reg`: a narrow register keeps no bit above its width. -/
def setReg (bytes : Nat) (value : PtxReg) : PtxReg :=
  if 0 < bytes ∧ bytes < 8 then value &&& ((1 : PtxReg) <<< (8 * bytes) - 1) else value

/-- The low bits of every register that holds them are the given ones. -/
def Writes (w : Nat) (value : PtxReg) (result : BitVec w) : Prop :=
  ∀ bytes, w ≤ bits bytes → (setReg bytes value).setWidth w = result

theorem getLsbD_setReg (bytes : Nat) (value : PtxReg) (i : Nat) :
    (setReg bytes value).getLsbD i = (decide (i < bits bytes) && value.getLsbD i) := by
  unfold setReg bits
  split
  · rename_i h
    have hmask : (1 : PtxReg) <<< (8 * bytes) - 1 = (BitVec.allOnes (8 * bytes)).setWidth 64 := by
      obtain ⟨hpos, hlt⟩ := h
      interval_cases bytes <;> decide
    rw [hmask, and_allOnes]
    simp only [BitVec.getLsbD_setWidth]
    have := fun hi => BitVec.getLsbD_of_ge value i hi
    grind
  · have := fun hi => BitVec.getLsbD_of_ge value i hi
    grind

theorem writes_iff {w : Nat} (hw : w ≤ 64) {value : PtxReg} {result : BitVec w} :
    Writes w value result ↔ value.setWidth w = result := by
  constructor
  · exact fun h => h 8 hw
  · rintro rfl bytes hbytes
    apply BitVec.eq_of_getLsbD_eq
    intro i hi
    simp [getLsbD_setReg, show i < bits bytes by omega]

@[simp] theorem setWidth_of16 {n : Nat} (h : n ≤ 16) (x : BitVec 16) :
    (of16 x).setWidth n = x.setWidth n :=
  BitVec.setWidth_setWidth_of_le x (by omega)

@[simp] theorem setWidth_of32 {n : Nat} (h : n ≤ 32) (x : BitVec 32) :
    (of32 x).setWidth n = x.setWidth n :=
  BitVec.setWidth_setWidth_of_le x (by omega)

end PtxReg

end FlashGpuSim
