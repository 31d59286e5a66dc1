import FlashGpuSim.Lib.StridedBox
import Mathlib.Data.BitVec

/-!
The tensor map of a bulk copy: where the elements of a tensor lie in global memory, and which box
of them a copy takes as its tile.
-/

namespace FlashGpuSim

open Lib

@[match_pattern] def tmaDtypeU8 : BitVec 32 := 0
@[match_pattern] def tmaDtypeU16 : BitVec 32 := 1
@[match_pattern] def tmaDtypeU32 : BitVec 32 := 2
@[match_pattern] def tmaDtypeS32 : BitVec 32 := 3
@[match_pattern] def tmaDtypeU64 : BitVec 32 := 4
@[match_pattern] def tmaDtypeS64 : BitVec 32 := 5
@[match_pattern] def tmaDtypeF16 : BitVec 32 := 6
@[match_pattern] def tmaDtypeF32 : BitVec 32 := 7
@[match_pattern] def tmaDtypeF64 : BitVec 32 := 8
@[match_pattern] def tmaDtypeBF16 : BitVec 32 := 9
@[match_pattern] def tmaDtypeF32Ftz : BitVec 32 := 10

/-- The lesser of two machine numbers. -/
def least {w : Nat} (x y : BitVec w) : BitVec w := if x ≤ y then x else y

@[simp] theorem least_toNat {w : Nat} (x y : BitVec w) :
    (least x y).toNat = min x.toNat y.toNat := by
  unfold least
  split
  · rename_i hle
    exact (Nat.min_eq_left (BitVec.le_def.mp hle)).symm
  · rename_i hle
    exact (Nat.min_eq_right (Nat.le_of_lt (BitVec.not_le.mp hle))).symm

/-- The fields of a descriptor that a copy reads. The arrays have five entries. -/
structure TensorMap where
  globalAddress : BitVec 64
  tensorRank : BitVec 32
  boxDim : Nat → BitVec 32
  globalDim : Nat → BitVec 32
  globalStrides : Nat → BitVec 64
  tensorDataType : BitVec 32
  swizzle : BitVec 32
  oobFill : BitVec 32

namespace TensorMap

def getElementSize (tm : TensorMap) : BitVec 32 :=
  match tm.tensorDataType with
  | tmaDtypeU8 => 1
  | tmaDtypeU16 => 2
  | tmaDtypeU32 => 4
  | tmaDtypeU64 => 8
  | tmaDtypeF16 => 2
  | tmaDtypeF32 => 4
  | tmaDtypeF64 => 8
  | tmaDtypeBF16 => 2
  | _ => 4

/-- The rank field holds the number of dimensions less one. -/
def numDims (tm : TensorMap) : BitVec 32 := tm.tensorRank + 1

def isValid (tm : TensorMap) : Bool := tm.tensorRank ≤ 4 && tm.globalAddress != 0

def getTileSizeBytes (tm : TensorMap) : BitVec 32 :=
  if tm.tensorRank > 4 then 0
  else (List.range tm.numDims.toNat).foldl (fun total i => total * tm.boxDim i) 1 *
    tm.getElementSize

/-- The distance of neighbours along a dimension. -/
def stride (tm : TensorMap) (d : Nat) : BitVec 64 :=
  if d = 0 then tm.getElementSize.setWidth 64 else tm.globalStrides (d - 1)

def axis (tm : TensorMap) (coords : Nat → BitVec 32) (d : Nat) : Axis where
  box := (tm.boxDim d).toNat
  extent := (tm.globalDim d).toNat
  start := (coords d).toInt
  stride := (tm.stride d).toNat

/-- The bytes of an element, as one more axis that is faster than the others. -/
def byteAxis (tm : TensorMap) : Axis where
  box := tm.getElementSize.toNat
  extent := tm.getElementSize.toNat
  start := 0
  stride := 1

/-- The axes of the tile up to a dimension. -/
def axesTo (tm : TensorMap) (coords : Nat → BitVec 32) (d : Nat) : List Axis :=
  tm.byteAxis :: (List.range (d + 1)).map (tm.axis coords)

def axes (tm : TensorMap) (coords : Nat → BitVec 32) : List Axis :=
  tm.axesTo coords tm.tensorRank.toNat

/-- The number of bytes of the tile. -/
def tileBytes (tm : TensorMap) (coords : Nat → BitVec 32) : Nat := boxCells (tm.axes coords)

/-- The element of a tile offset is inside of the tensor in every dimension. -/
def byteInside (tm : TensorMap) (coords : Nat → BitVec 32) (offset : Nat) : Bool :=
  cellInside (tm.axes coords) offset

/-- The global address of a tile offset. -/
def byteAddress (tm : TensorMap) (coords : Nat → BitVec 32) (offset : Nat) : BitVec 64 :=
  tm.globalAddress + BitVec.ofInt 64 (cellPlace (tm.axes coords) offset)

/-- The bytes of the tile along its first dimension. -/
def rowBytes (tm : TensorMap) : Nat := tm.getElementSize.toNat * (tm.boxDim 0).toNat

/-- The bytes of a row before the tensor begins. -/
def leading (tm : TensorMap) (coords : Nat → BitVec 32) : Nat :=
  tm.getElementSize.toNat * (-(coords 0).toInt).toNat

/-- The bytes of a row up to the end of the tensor. -/
def trailing (tm : TensorMap) (coords : Nat → BitVec 32) : Nat :=
  tm.getElementSize.toNat *
    (min ((tm.boxDim 0).toNat : Int) ((tm.globalDim 0).toNat - (coords 0).toInt)).toNat

/-- A tile of a tensor: the map is valid, the box has elements, and a 32-bit number counts its
bytes. -/
structure IsTile (tm : TensorMap) (coords : Nat → BitVec 32) : Prop where
  valid : tm.isValid = true
  boxes : ∀ d < tm.numDims.toNat, 0 < (tm.boxDim d).toNat
  fits : tm.tileBytes coords < 2 ^ 32

variable {tm : TensorMap} {coords : Nat → BitVec 32} {d o x : Nat}

theorem elementSize_pos (tm : TensorMap) : 0 < tm.getElementSize.toNat := by
  unfold getElementSize
  split <;> decide

theorem elementSize_le : tm.getElementSize.toNat ≤ 8 := by
  unfold getElementSize
  split <;> decide

theorem byteAxis_holds {k : Nat} (hk : k < tm.getElementSize.toNat) :
    tm.byteAxis.holds k = true := by
  simp [Axis.holds, byteAxis, hk]

theorem rank_le (h : tm.isValid = true) : tm.tensorRank.toNat ≤ 4 := by
  simp only [isValid, Bool.and_eq_true, decide_eq_true_eq] at h
  exact h.1

theorem not_rank_gt (h : tm.isValid = true) : ¬ tm.tensorRank > 4 :=
  BitVec.not_lt.mpr (BitVec.le_def.mpr (rank_le h))

theorem numDims_toNat (h : tm.isValid = true) :
    tm.numDims.toNat = tm.tensorRank.toNat + 1 := by
  have hrank := rank_le h
  have hone : (1 : BitVec 32).toNat = 1 := rfl
  unfold numDims
  rw [BitVec.toNat_add, hone]
  exact Nat.mod_eq_of_lt (by omega)

theorem stride_zero : (tm.stride 0).toNat = tm.getElementSize.toNat := by
  have hwide : tm.getElementSize.toNat < 2 ^ 64 := by omega
  simpa [stride] using hwide

theorem axesTo_zero : tm.axesTo coords 0 = [tm.byteAxis, tm.axis coords 0] := rfl

theorem axesTo_succ :
    tm.axesTo coords (d + 1) = tm.axesTo coords d ++ [tm.axis coords (d + 1)] := by
  unfold axesTo
  rw [List.range_succ, List.map_append]
  rfl

theorem boxCells_axesTo_zero (tm : TensorMap) (coords : Nat → BitVec 32) :
    boxCells (tm.axesTo coords 0) = tm.rowBytes := by
  rw [axesTo_zero, boxCells_cons, boxCells_cons, boxCells_nil, Nat.mul_one]
  rfl

theorem boxCells_axesTo_succ : boxCells (tm.axesTo coords (d + 1)) =
    (tm.boxDim (d + 1)).toNat * boxCells (tm.axesTo coords d) := by
  rw [axesTo_succ, boxCells_append]
  rfl

/-- The layers of a tile are made of whole rows. -/
theorem rowBytes_dvd (tm : TensorMap) (coords : Nat → BitVec 32) (d : Nat) :
    tm.rowBytes ∣ boxCells (tm.axesTo coords d) := by
  induction d with
  | zero => rw [boxCells_axesTo_zero]
  | succ d ih =>
    rw [boxCells_axesTo_succ]
    exact ih.mul_left _

theorem boxCells_axesTo_le (coords : Nat → BitVec 32) (hpos : ∀ i ≤ d, 0 < (tm.boxDim i).toNat) {c : Nat} (hc : c ≤ d) :
    boxCells (tm.axesTo coords c) ≤ boxCells (tm.axesTo coords d) := by
  induction d with
  | zero =>
    rw [Nat.le_zero.mp hc]
  | succ d ih =>
    rcases Nat.lt_or_ge d c with hlt | hle
    · rw [Nat.le_antisymm hc hlt]
    · rw [boxCells_axesTo_succ]
      apply (ih (fun i hi => hpos i (by omega)) hle).trans
      exact Nat.le_mul_of_pos_left _ (hpos (d + 1) (Nat.le_refl _))

theorem trailing_le (tm : TensorMap) (coords : Nat → BitVec 32) :
    tm.trailing coords ≤ tm.rowBytes := by
  apply Nat.mul_le_mul_left
  omega

/-- A box with an empty dimension has no bytes. -/
theorem boxCells_axesTo_empty {i : Nat} (hi : i ≤ d) (hempty : (tm.boxDim i).toNat = 0) :
    boxCells (tm.axesTo coords d) = 0 := by
  induction d with
  | zero =>
    rw [Nat.le_zero.mp hi] at hempty
    rw [boxCells_axesTo_zero, rowBytes, hempty, Nat.mul_zero]
  | succ d ih =>
    rw [boxCells_axesTo_succ]
    rcases Nat.lt_or_ge d i with hlt | hle
    · rw [← Nat.le_antisymm hi hlt, hempty, Nat.zero_mul]
    · rw [ih hle, Nat.mul_zero]

namespace IsTile

variable (ht : tm.IsTile coords)

include ht

theorem box_pos (hd : d ≤ tm.tensorRank.toNat) : 0 < (tm.boxDim d).toNat :=
  ht.boxes d (by rw [numDims_toNat ht.valid]; omega)

theorem axesTo_lt (hd : d ≤ tm.tensorRank.toNat) : boxCells (tm.axesTo coords d) < 2 ^ 32 :=
  (boxCells_axesTo_le coords (fun _ hi => ht.box_pos hi) hd).trans_lt ht.fits

theorem rowBytes_lt : tm.rowBytes < 2 ^ 32 := by
  rw [← boxCells_axesTo_zero tm coords]
  exact ht.axesTo_lt (Nat.zero_le _)

theorem rowBytes_pos : 0 < tm.rowBytes :=
  Nat.mul_pos tm.elementSize_pos (ht.box_pos (Nat.zero_le _))

theorem tileBytes_pos : 0 < tm.tileBytes coords := by
  have hle := boxCells_axesTo_le coords (fun _ hi => ht.box_pos hi) (Nat.zero_le _)
  rw [boxCells_axesTo_zero] at hle
  exact ht.rowBytes_pos.trans_le hle

end IsTile

/-- The product that the descriptor computes is the size of the tile. -/
theorem getTileSizeBytes_eq (hvalid : tm.isValid = true)
    (hfits : tm.tileBytes coords < 2 ^ 32) :
    tm.getTileSizeBytes.toNat = tm.tileBytes coords := by
  have hfold : ∀ n, ((List.range (n + 1)).foldl (fun total i => total * tm.boxDim i) 1 *
      tm.getElementSize).toNat = boxCells (tm.axesTo coords n) % 2 ^ 32 := by
    intro n
    induction n with
    | zero =>
      rw [boxCells_axesTo_zero]
      simp [rowBytes, BitVec.toNat_mul, Nat.mul_comm]
    | succ n ih =>
      rw [List.range_succ, List.foldl_append, List.foldl_cons, List.foldl_nil,
        BitVec.mul_assoc, BitVec.mul_comm (tm.boxDim (n + 1)), ← BitVec.mul_assoc,
        BitVec.toNat_mul, ih, boxCells_axesTo_succ, Nat.mod_mul_mod, Nat.mul_comm]
  unfold getTileSizeBytes
  rw [if_neg (not_rank_gt hvalid), numDims_toNat hvalid, hfold]
  exact Nat.mod_eq_of_lt hfits

end TensorMap

end FlashGpuSim
