import FlashGpuSim.Tensor.MatrixFragments
import FlashGpuSim.Tensor.MmaInt8

/-!
Which matrices the integer products multiply. `mma` takes every byte as signed, and for K = 32 it
has the registers 1 and 2 of A in each other's place.
-/

namespace FlashGpuSim

open Lib

variable {ops : MmaOperands} {regs : LaneRegs} {shape : MmaShape} {saturate : Bool}
  {lane r row col k : Nat}

/-! ### The matrices of the registers -/

/-- The layout of A: register `r` and byte `b` of a lane have row `lane / 4 + 8 * (r % 2)` and
column `4 * (lane % 4) + b + 16 * (r / 2)`. -/
def aByte (vector : Nat → Nat → RegBytes) (row k : Nat) : BitVec 8 :=
  vector (4 * (row % 8) + k % 16 / 4) (row / 8 + 2 * (k / 16)) (k % 4)

def bByte (vector : Nat → Nat → RegBytes) (col k : Nat) : BitVec 8 :=
  vector (4 * col + k % 16 / 4) (k / 16) (k % 4)

def cValue (vector : Nat → Nat → RegBytes) (row col : Nat) : Int :=
  (vector (4 * (row % 8) + col / 2) (2 * (row / 8) + col % 2)).s32

/-- A as `tensor_mma_s8_impl` places it. -/
def placedByte (shape : MmaShape) (vector : Nat → Nat → RegBytes) (row k : Nat) : BitVec 8 :=
  match shape with
  | .m16n8k16 => vector (4 * (row % 8) + k / 4) (row / 8) (k % 4)
  | .m16n8k32 => vector (4 * (row % 8) + k % 16 / 4) (2 * (row / 8) + k / 16) (k % 4)

theorem collect_of_mem {place : Nat → List (Nat × Int)} {cell : Nat} {z : Int} (lane : Nat)
    (hlane : lane < 32) (hmem : (cell, z) ∈ place lane)
    (hagree : ∀ lane' < 32, ∀ c ∈ place lane', c.1 = cell → c.2 = z) : collect place cell = z := by
  apply assign_of_mem (List.mem_flatMap.mpr ⟨lane, List.mem_range.mpr hlane, hmem⟩)
  intro c hc
  obtain ⟨lane', hlane', hc⟩ := List.mem_flatMap.mp hc
  exact hagree lane' (List.mem_range.mp hlane') c hc

theorem collect_A (vector : Nat → Nat → RegBytes) (hrow : row < 16) (hk : k < shape.k) :
    collect (fun lane => mmaPlaceA shape (vector lane) lane) (row * shape.k + k) =
      (placedByte shape vector row k).toInt := by
  cases shape with
  | m16n8k16 =>
    have hk : k < 16 := hk
    apply collect_of_mem (4 * (row % 8) + k / 4) (by omega)
    · refine List.mem_map.mpr ⟨4 * (row / 8) + k % 4, List.mem_range.mpr (by omega), ?_⟩
      unfold placedByte MmaShape.k
      refine Prod.ext ?_ ?_
      · dsimp only
        split <;> omega
      · dsimp only
        rw [show (4 * (row / 8) + k % 4) / 4 = row / 8 by omega,
          show (4 * (row / 8) + k % 4) % 4 = k % 4 by omega]
    · intro lane' hlane' c hc hcell
      obtain ⟨i, hi, rfl⟩ := List.mem_map.mp hc
      have hi := List.mem_range.mp hi
      unfold MmaShape.k at hcell
      dsimp only at hcell
      have hlane : lane' = 4 * (row % 8) + k / 4 ∧ i = 4 * (row / 8) + k % 4 := by
        split at hcell <;> omega
      obtain ⟨rfl, rfl⟩ := hlane
      unfold placedByte
      dsimp only
      rw [show (4 * (row / 8) + k % 4) / 4 = row / 8 by omega,
        show (4 * (row / 8) + k % 4) % 4 = k % 4 by omega]
  | m16n8k32 =>
    have hk : k < 32 := hk
    apply collect_of_mem (4 * (row % 8) + k % 16 / 4) (by omega)
    · refine List.mem_map.mpr ⟨8 * (row / 8) + 4 * (k / 16) + k % 4,
        List.mem_range.mpr (by omega), ?_⟩
      unfold placedByte MmaShape.k
      refine Prod.ext ?_ ?_
      · dsimp only
        split <;> split <;> omega
      · dsimp only
        rw [show (8 * (row / 8) + 4 * (k / 16) + k % 4) / 4 = 2 * (row / 8) + k / 16 by omega,
          show (8 * (row / 8) + 4 * (k / 16) + k % 4) % 4 = k % 4 by omega]
    · intro lane' hlane' c hc hcell
      obtain ⟨i, hi, rfl⟩ := List.mem_map.mp hc
      have hi := List.mem_range.mp hi
      unfold MmaShape.k at hcell
      dsimp only at hcell
      have hlane : lane' = 4 * (row % 8) + k % 16 / 4 ∧ i = 8 * (row / 8) + 4 * (k / 16) + k % 4 := by
        split at hcell <;> split at hcell <;> omega
      obtain ⟨rfl, rfl⟩ := hlane
      unfold placedByte
      dsimp only
      rw [show (8 * (row / 8) + 4 * (k / 16) + k % 4) / 4 = 2 * (row / 8) + k / 16 by omega,
        show (8 * (row / 8) + 4 * (k / 16) + k % 4) % 4 = k % 4 by omega]

theorem collect_B (vector : Nat → Nat → RegBytes) (hcol : col < 8) (hk : k < shape.k) :
    collect (fun lane => mmaPlaceB shape (vector lane) lane) (col * shape.k + k) =
      (bByte vector col k).toInt := by
  cases shape with
  | m16n8k16 =>
    have hk : k < 16 := hk
    apply collect_of_mem (4 * col + k % 16 / 4) (by omega)
    · refine List.mem_map.mpr ⟨k % 4, List.mem_range.mpr (by omega), ?_⟩
      unfold bByte MmaShape.k
      refine Prod.ext ?_ ?_
      · dsimp only
        omega
      · dsimp only
        rw [show k % 4 / 4 = k / 16 by omega, show k % 4 % 4 = k % 4 by omega]
    · intro lane' hlane' c hc hcell
      obtain ⟨i, hi, rfl⟩ := List.mem_map.mp hc
      have hi := List.mem_range.mp hi
      unfold MmaShape.k at hcell
      dsimp only at hcell
      have hlane : lane' = 4 * col + k % 16 / 4 ∧ i = k % 4 := by omega
      obtain ⟨rfl, rfl⟩ := hlane
      unfold bByte
      dsimp only
      rw [show k % 4 / 4 = k / 16 by omega, show k % 4 % 4 = k % 4 by omega]
  | m16n8k32 =>
    have hk : k < 32 := hk
    apply collect_of_mem (4 * col + k % 16 / 4) (by omega)
    · refine List.mem_map.mpr ⟨4 * (k / 16) + k % 4, List.mem_range.mpr (by omega), ?_⟩
      unfold bByte MmaShape.k
      refine Prod.ext ?_ ?_
      · dsimp only
        split <;> omega
      · dsimp only
        rw [show (4 * (k / 16) + k % 4) / 4 = k / 16 by omega,
          show (4 * (k / 16) + k % 4) % 4 = k % 4 by omega]
    · intro lane' hlane' c hc hcell
      obtain ⟨i, hi, rfl⟩ := List.mem_map.mp hc
      have hi := List.mem_range.mp hi
      unfold MmaShape.k at hcell
      dsimp only at hcell
      have hlane : lane' = 4 * col + k % 16 / 4 ∧ i = 4 * (k / 16) + k % 4 := by
        split at hcell <;> omega
      obtain ⟨rfl, rfl⟩ := hlane
      unfold bByte
      dsimp only
      rw [show (4 * (k / 16) + k % 4) / 4 = k / 16 by omega,
        show (4 * (k / 16) + k % 4) % 4 = k % 4 by omega]

theorem collect_C (vector : Nat → Nat → RegBytes) (hrow : row < 16) (hcol : col < 8) :
    collect (fun lane => mmaPlaceC (vector lane) lane) (row * 8 + col) = cValue vector row col := by
  apply collect_of_mem (4 * (row % 8) + col / 2) (by omega)
  · refine List.mem_map.mpr ⟨2 * (row / 8) + col % 2, List.mem_range.mpr (by omega), ?_⟩
    refine Prod.ext ?_ rfl
    unfold accumulatorCell
    dsimp only
    split <;> omega
  · intro lane' hlane' c hc hcell
    obtain ⟨i, hi, rfl⟩ := List.mem_map.mp hc
    have hi := List.mem_range.mp hi
    unfold accumulatorCell at hcell
    dsimp only at hcell
    have hlane : lane' = 4 * (row % 8) + col / 2 ∧ i = 2 * (row / 8) + col % 2 := by
      split at hcell <;> omega
    obtain ⟨rfl, rfl⟩ := hlane
    rfl

/-! ### Results -/

/-- A register that holds the `s32` it was made with. -/
theorem b32_ofS32 (z : Int) : (RegBytes.ofS32 z).b32 = BitVec.ofInt 32 z := by
  have hlt : (BitVec.ofInt 32 z).toNat < 256 ^ 4 := (BitVec.ofInt 32 z).isLt
  unfold RegBytes.b32 RegBytes.ofS32
  rw [littleEndian_byteOf hlt, BitVec.ofNat_toNat, BitVec.setWidth_eq]

theorem b32_congr {x y : RegBytes} (h : ∀ k < 4, x k = y k) : x.b32 = y.b32 := by
  unfold RegBytes.b32
  rw [littleEndian_congr h]

/-- Different registers of a destination hold the data of their places. -/
theorem setVector_b32 {vector : List MatrixReg} (hnodup : vector.Nodup) {reg : MatrixReg}
    (hr : vector[r]? = some reg) (before : MatrixReg → RegBytes) (data : Nat → RegBytes) :
    (setVectorOperandValues before vector data reg).b32 = (data r).b32 := by
  obtain ⟨m, hlast, hdata⟩ := (setVector_spec before vector data reg).2 (List.mem_of_getElem? hr)
  obtain ⟨hlt, hget⟩ := List.getElem?_eq_some_iff.mp hr
  obtain ⟨hlt', hget'⟩ := List.getElem?_eq_some_iff.mp hlast.1
  obtain rfl : m = r := hnodup.getElem_inj_iff.mp (hget'.trans hget.symm)
  exact b32_congr hdata

/-- The integer product with the accumulator. -/
def productEntry (n : Nat) (a b : Nat → Int) (c : Int) : Int :=
  ((List.range n).map fun k => a k * b k).sum + c

/-- What goes into a 32-bit register. -/
def reduceS32 (saturate : Bool) (z : Int) : BitVec 32 :=
  BitVec.ofInt 32 (if saturate then clampInt32 z else z)

theorem productEntry_congr {n : Nat} {a a' b b' : Nat → Int} {c : Int} (ha : ∀ k < n, a k = a' k)
    (hb : ∀ k < n, b k = b' k) : productEntry n a b c = productEntry n a' b' c := by
  unfold productEntry
  congr 2
  apply List.map_congr_left
  intro k hk
  rw [ha k (List.mem_range.mp hk), hb k (List.mem_range.mp hk)]

/-- The row and the column of an accumulator. -/
def accumulatorRow (lane r : Nat) : Nat := lane / 4 + 8 * (r / 2)

def accumulatorCol (lane r : Nat) : Nat := 2 * (lane % 4) + r % 2

/-- What `tensor_mma_s8_impl` leaves in the destination. -/
theorem tensorMmaS8Impl_spec (ops : MmaOperands) (regs : LaneRegs) (hlane : lane < 32)
    {reg : MatrixReg} (hr : ops.dst[r]? = some reg) :
    (tensorMmaS8Impl shape saturate ops regs lane reg).b32 = reduceS32 saturate
      (productEntry shape.k
        (fun k => (placedByte shape (laneVector regs ops.srcA) (accumulatorRow lane r) k).toInt)
        (fun k => (bByte (laneVector regs ops.srcB) (accumulatorCol lane r) k).toInt)
        (cValue (laneVector regs ops.srcC) (accumulatorRow lane r) (accumulatorCol lane r))) := by
  have hlt : r < 4 := by
    rw [← ops.dst_length]
    exact (List.getElem?_eq_some_iff.mp hr).1
  have hrow : accumulatorRow lane r < 16 := by
    unfold accumulatorRow
    omega
  have hcol : accumulatorCol lane r < 8 := by
    unfold accumulatorCol
    omega
  have hcell : accumulatorCell lane r = accumulatorRow lane r * 8 + accumulatorCol lane r := by
    unfold accumulatorCell accumulatorRow accumulatorCol
    split <;> omega
  have hdiv : accumulatorCell lane r / 8 = accumulatorRow lane r := by omega
  have hmod : accumulatorCell lane r % 8 = accumulatorCol lane r := by omega
  unfold tensorMmaS8Impl
  rw [distribute_apply _ _ _ hlane, setVector_b32 ops.nodup hr, b32_ofS32]
  unfold mmaProduct reduceS32
  dsimp only
  rw [hdiv, hmod, hcell, collect_C _ hrow hcol]
  congr 1
  have hsum : ((List.range shape.k).map fun k =>
      collect (fun lane => mmaPlaceA shape (laneVector regs ops.srcA lane) lane)
        (accumulatorRow lane r * shape.k + k) *
      collect (fun lane => mmaPlaceB shape (laneVector regs ops.srcB lane) lane)
        (accumulatorCol lane r * shape.k + k)).sum =
      ((List.range shape.k).map fun k =>
        (placedByte shape (laneVector regs ops.srcA) (accumulatorRow lane r) k).toInt *
        (bByte (laneVector regs ops.srcB) (accumulatorCol lane r) k).toInt).sum := by
    congr 1
    apply List.map_congr_left
    intro k hk
    have hk := List.mem_range.mp hk
    rw [collect_A _ hrow hk, collect_B _ hcol hk]
  rw [hsum]
  rfl

/-! ### What is claimed of an `mma` -/

/-- The integer type of an input. -/
def int8Type (isSigned : Bool) : MmaType := if isSigned then .s8 else .u8

/-- An `mma` of 8-bit integers. -/
structure MmaVariant where
  shape : MmaShape
  aIsSigned : Bool
  bIsSigned : Bool
  saturate : Bool
  deriving DecidableEq, Repr

namespace MmaVariant

def inst (v : MmaVariant) : MmaInst where
  shape := v.shape
  scalarTypes := [.s32, int8Type v.aIsSigned, int8Type v.bIsSigned, .s32]
  saturate := v.saturate

/-- An entry of A * B + C. -/
def exactEntry (v : MmaVariant) (ops : MmaOperands) (regs : LaneRegs) (row col : Nat) : Int :=
  productEntry v.shape.k
    (fun k => int8Value (aByte (laneVector regs ops.srcA) row k) v.aIsSigned)
    (fun k => int8Value (bByte (laneVector regs ops.srcB) col k) v.bIsSigned)
    (cValue (laneVector regs ops.srcC) row col)

/-- The instruction leaves the exact product in the destination registers. -/
def Exact (v : MmaVariant) (ops : MmaOperands) (regs : LaneRegs) : Prop :=
  ∃ regs', tensorMmaImpl v.inst ops regs = some regs' ∧
    ∀ lane < 32, ∀ r reg, ops.dst[r]? = some reg → (regs' lane reg).b32 =
      reduceS32 v.saturate (v.exactEntry ops regs (accumulatorRow lane r) (accumulatorCol lane r))

theorem inst_impl (v : MmaVariant) (ops : MmaOperands) (regs : LaneRegs) :
    tensorMmaImpl v.inst ops regs = some (tensorMmaS8Impl v.shape v.saturate ops regs) := by
  unfold tensorMmaImpl inst int8Type
  cases v.aIsSigned <;> rfl

theorem exact_iff {v : MmaVariant} : v.Exact ops regs ↔
    ∀ lane < 32, ∀ r reg, ops.dst[r]? = some reg →
      (tensorMmaS8Impl v.shape v.saturate ops regs lane reg).b32 = reduceS32 v.saturate
        (v.exactEntry ops regs (accumulatorRow lane r) (accumulatorCol lane r)) := by
  unfold Exact
  rw [v.inst_impl]
  simp

/-- No byte is misread: those of unsigned matrices are small, and for K = 32 the two registers that
are exchanged are the same. -/
structure Unmisread (v : MmaVariant) (ops : MmaOperands) (regs : LaneRegs) : Prop where
  a : v.aIsSigned = false → ∀ row < 16, ∀ k < v.shape.k,
    (aByte (laneVector regs ops.srcA) row k).toNat < 128
  b : v.bIsSigned = false → ∀ col < 8, ∀ k < v.shape.k,
    (bByte (laneVector regs ops.srcB) col k).toNat < 128
  exchanged : v.shape = .m16n8k32 → ∀ lane < 32, ∀ byte < 4,
    laneVector regs ops.srcA lane 1 byte = laneVector regs ops.srcA lane 2 byte

theorem int8Value_eq {x : BitVec 8} {isSigned : Bool} (h : isSigned = false → x.toNat < 128) :
    int8Value x isSigned = x.toInt := by
  cases isSigned with
  | true => rfl
  | false =>
    have hlt := h rfl
    unfold int8Value
    rw [if_neg Bool.false_ne_true, BitVec.toInt_eq_toNat_of_lt (by omega)]

theorem Unmisread.placed {v : MmaVariant} (h : v.Unmisread ops regs) (hrow : row < 16)
    (hk : k < v.shape.k) : placedByte v.shape (laneVector regs ops.srcA) row k =
      aByte (laneVector regs ops.srcA) row k := by
  unfold placedByte aByte
  cases hshape : v.shape with
  | m16n8k16 =>
    rw [hshape] at hk
    have hk : k < 16 := hk
    rw [show k % 16 / 4 = k / 4 by omega, show row / 8 + 2 * (k / 16) = row / 8 by omega]
  | m16n8k32 =>
    rw [hshape] at hk
    have hk : k < 32 := hk
    have hsame := h.exchanged hshape (4 * (row % 8) + k % 16 / 4) (by omega) (k % 4) (by omega)
    have hplace : (2 * (row / 8) + k / 16 = row / 8 + 2 * (k / 16)) ∨
        (2 * (row / 8) + k / 16 = 1 ∧ row / 8 + 2 * (k / 16) = 2) ∨
        (2 * (row / 8) + k / 16 = 2 ∧ row / 8 + 2 * (k / 16) = 1) := by omega
    dsimp only
    rcases hplace with heq | ⟨hone, htwo⟩ | ⟨htwo, hone⟩
    · rw [heq]
    · rw [hone, htwo, hsame]
    · rw [hone, htwo, hsame]

theorem Unmisread.exact {v : MmaVariant} (h : v.Unmisread ops regs) : v.Exact ops regs := by
  refine exact_iff.mpr fun lane hlane r reg hr => ?_
  have hlt : r < 4 := by
    rw [← ops.dst_length]
    exact (List.getElem?_eq_some_iff.mp hr).1
  have hrow : accumulatorRow lane r < 16 := by
    unfold accumulatorRow
    omega
  have hcol : accumulatorCol lane r < 8 := by
    unfold accumulatorCol
    omega
  rw [tensorMmaS8Impl_spec ops regs hlane hr]
  unfold exactEntry
  congr 1
  apply productEntry_congr
  · intro k hk
    rw [h.placed hrow hk, int8Value_eq fun hu => h.a hu _ hrow k hk]
  · intro k hk
    rw [int8Value_eq fun hu => h.b hu _ hcol k hk]

end MmaVariant

end FlashGpuSim
