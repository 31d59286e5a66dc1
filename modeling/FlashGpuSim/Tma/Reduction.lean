import FlashGpuSim.Lib.ByteMemory
import FlashGpuSim.Tma.TensorMap

/-!
The reductions of a tensor store: which operations a data type has, and how they are applied to
the elements of a buffer.
-/

namespace FlashGpuSim

open Lib

inductive TmaReductionOp where
  | none | add | min | max | inc | dec | bitAnd | bitOr | bitXor
deriving DecidableEq, Repr

namespace TmaReductionOp

def isBitwise (op : TmaReductionOp) : Bool := op == bitAnd || op == bitOr || op == bitXor

/-- The operation on one element, for signed or unsigned numbers. -/
def reduceElement {w : Nat} (signed : Bool) (op : TmaReductionOp) (dst src : BitVec w) :
    Option (BitVec w) :=
  let lt (a b : BitVec w) : Bool := if signed then a.slt b else a.ult b
  match op with
  | add => some (dst + src)
  | min => some (if lt src dst then src else dst)
  | max => some (if lt dst src then src else dst)
  | inc => some (if !lt dst src then 0 else dst + 1)
  | dec => some (if dst = 0 ∨ lt src dst then src else dst - 1)
  | bitAnd => some (dst &&& src)
  | bitOr => some (dst ||| src)
  | bitXor => some (dst ^^^ src)
  | none => Option.none

end TmaReductionOp

open TmaReductionOp in
def tmaTensorReductionSupported (op : TmaReductionOp) (tensorDataType : BitVec 32) : Bool :=
  match tensorDataType with
  | tmaDtypeU32 => op == add || op == min || op == max || op == inc || op == dec || op.isBitwise
  | tmaDtypeS32 => op == add || op == min || op == max || op.isBitwise
  | tmaDtypeU64 => op == add || op == min || op == max || op.isBitwise
  | tmaDtypeS64 => op == min || op == max || op.isBitwise
  | tmaDtypeF16 => op == add || op == min || op == max
  | tmaDtypeBF16 => op == add || op == min || op == max
  | tmaDtypeF32 => op == add
  | tmaDtypeF32Ftz => op == add
  | _ => false

/-- An element of `n` bytes in a buffer. -/
def loadElement (n : Nat) (buffer : Nat → BitVec 8) (index : Nat) : BitVec (8 * n) :=
  BitVec.ofNat (8 * n) (littleEndian n fun k => buffer (index * n + k))

def storeElement (n : Nat) (buffer : Nat → BitVec 8) (index : Nat) (value : BitVec (8 * n)) :
    Nat → BitVec 8 :=
  ByteMemory.write buffer (index * n) n (byteOf value.toNat)

def reduceInteger (n : Nat) (signed : Bool) (op : TmaReductionOp) (dst src : Nat → BitVec 8)
    (count : Nat) : Option (Nat → BitVec 8) :=
  (List.range count).foldlM (fun dst i => do
    let result ← op.reduceElement signed (loadElement n dst i) (loadElement n src i)
    pure (storeElement n dst i result)) dst

/-- The reductions on floating-point elements, which the model leaves open. -/
abbrev FloatReduction :=
  TmaReductionOp → BitVec 32 → (dst src : Nat → BitVec 8) → (count : Nat) → Nat → BitVec 8

/-- The number of bytes of an element in a reduction. -/
def reductionElementSize (tensorDataType : BitVec 32) : Nat :=
  match tensorDataType with
  | tmaDtypeF16 => 2
  | tmaDtypeBF16 => 2
  | tmaDtypeU64 => 8
  | tmaDtypeS64 => 8
  | _ => 4

/-- Reduce the elements of `src` into those of `dst`. It fails where the code throws. -/
def applyTmaTensorReduction (float : FloatReduction) (op : TmaReductionOp)
    (tensorDataType : BitVec 32) (dst src : Nat → BitVec 8) (sizeInBytes : Nat) :
    Option (Nat → BitVec 8) :=
  if !tmaTensorReductionSupported op tensorDataType then none
  else
    let elementSize := reductionElementSize tensorDataType
    if sizeInBytes % elementSize ≠ 0 then none
    else match tensorDataType with
      | tmaDtypeU32 => reduceInteger 4 false op dst src (sizeInBytes / elementSize)
      | tmaDtypeS32 => reduceInteger 4 true op dst src (sizeInBytes / elementSize)
      | tmaDtypeU64 => reduceInteger 8 false op dst src (sizeInBytes / elementSize)
      | tmaDtypeS64 => reduceInteger 8 true op dst src (sizeInBytes / elementSize)
      | _ => some (float op tensorDataType dst src (sizeInBytes / elementSize))

/-- The size and the signedness of an integer data type. -/
def integerType (tensorDataType : BitVec 32) : Option (Nat × Bool) :=
  match tensorDataType with
  | tmaDtypeU32 => some (4, false)
  | tmaDtypeS32 => some (4, true)
  | tmaDtypeU64 => some (8, false)
  | tmaDtypeS64 => some (8, true)
  | _ => none

variable {op : TmaReductionOp} {dtype : BitVec 32} {n count size : Nat} {signed : Bool}
  {dst src : Nat → BitVec 8}

theorem reduceElement_isSome {w : Nat} (signed : Bool) (hop : op ≠ .none) (dst src : BitVec w) :
    ∃ value, op.reduceElement signed dst src = some value := by
  cases op with
  | none => exact absurd rfl hop
  | _ => exact ⟨_, rfl⟩

theorem loadElement_congr {buffer buffer' : Nat → BitVec 8} {index index' : Nat}
    (h : ∀ k < n, buffer (index * n + k) = buffer' (index' * n + k)) :
    loadElement n buffer index = loadElement n buffer' index' := by
  unfold loadElement
  rw [littleEndian_congr h]

theorem loadElement_byteOf {buffer : Nat → BitVec 8} {index : Nat} {value : BitVec (8 * n)}
    (h : ∀ k < n, buffer (index * n + k) = byteOf value.toNat k) :
    loadElement n buffer index = value := by
  have hlt : value.toNat < 256 ^ n := by
    have hpow : (256 : Nat) = 2 ^ 8 := rfl
    rw [hpow, ← Nat.pow_mul]
    exact value.isLt
  unfold loadElement
  rw [littleEndian_congr h, littleEndian_byteOf hlt, BitVec.ofNat_toNat, BitVec.setWidth_eq]

/-- Each element is reduced once, and with its own old value. -/
theorem reduceInteger_spec (n : Nat) (signed : Bool) (dst src : Nat → BitVec 8)
    (hop : op ≠ .none) (count : Nat) :
    ∃ out, reduceInteger n signed op dst src count = some out ∧
      (∀ i < count, ∃ value,
        op.reduceElement signed (loadElement n dst i) (loadElement n src i) = some value ∧
          ∀ k < n, out (i * n + k) = byteOf value.toNat k) ∧
      ∀ a, count * n ≤ a → out a = dst a := by
  induction count with
  | zero => exact ⟨dst, rfl, fun i hi => absurd hi (Nat.not_lt_zero i), fun _ _ => rfl⟩
  | succ count ih =>
    obtain ⟨out, hrun, hdone, hrest⟩ := ih
    obtain ⟨value, hvalue⟩ :=
      reduceElement_isSome signed hop (loadElement n dst count) (loadElement n src count)
    have hload : loadElement n out count = loadElement n dst count :=
      loadElement_congr fun k _ => hrest _ (Nat.le_add_right _ _)
    refine ⟨storeElement n out count value, ?_, ?_, ?_⟩
    · unfold reduceInteger at hrun ⊢
      rw [List.range_succ, List.foldlM_append, hrun]
      simp [hload, hvalue]
    · intro i hi
      rcases Nat.lt_succ_iff_lt_or_eq.mp hi with hlt | rfl
      · obtain ⟨value', hvalue', hbytes⟩ := hdone i hlt
        refine ⟨value', hvalue', fun k hk => ?_⟩
        have hmul := Nat.mul_le_mul_right n hlt
        rw [Nat.succ_mul] at hmul
        unfold storeElement ByteMemory.write
        rw [if_neg (by omega), hbytes k hk]
      · refine ⟨value, hvalue, fun k hk => ?_⟩
        unfold storeElement ByteMemory.write
        rw [if_pos (by omega), Nat.add_sub_cancel_left]
    · intro a ha
      rw [Nat.succ_mul] at ha
      unfold storeElement ByteMemory.write
      rw [if_neg (by omega), hrest a (by omega)]

/-- The descriptor knows the size of each integer type but the signed 64-bit one. -/
theorem getElementSize_integer {tm : TensorMap}
    (htype : integerType tm.tensorDataType = some (n, signed))
    (hne : tm.tensorDataType ≠ tmaDtypeS64) : tm.getElementSize.toNat = n := by
  unfold integerType at htype
  unfold TensorMap.getElementSize
  split at htype
  · rename_i heq
    cases htype
    rw [heq]
    rfl
  · rename_i heq
    cases htype
    rw [heq]
    rfl
  · rename_i heq
    cases htype
    rw [heq]
    rfl
  · rename_i heq
    exact absurd heq hne
  · cases htype

theorem supported_ne_none (h : tmaTensorReductionSupported op dtype = true) : op ≠ .none := by
  rintro rfl
  unfold tmaTensorReductionSupported at h
  split at h <;> exact absurd h (by decide)

theorem reductionElementSize_eq (htype : integerType dtype = some (n, signed)) :
    reductionElementSize dtype = n := by
  unfold integerType at htype
  split at htype <;> cases htype <;> rfl

/-- The integer types reduce their elements with their own size. -/
theorem applyTmaTensorReduction_integer (float : FloatReduction)
    (hsupported : tmaTensorReductionSupported op dtype = true)
    (htype : integerType dtype = some (n, signed)) (hsize : size % n = 0) :
    applyTmaTensorReduction float op dtype dst src size =
      reduceInteger n signed op dst src (size / n) := by
  unfold applyTmaTensorReduction
  dsimp only
  rw [hsupported, reductionElementSize_eq htype, if_neg (by decide), if_neg (not_not.mpr hsize)]
  unfold integerType at htype
  split at htype <;> cases htype <;> rfl

theorem applyTmaTensorReduction_partial (float : FloatReduction)
    (htype : integerType dtype = some (n, signed)) (hsize : size % n ≠ 0) :
    applyTmaTensorReduction float op dtype dst src size = none := by
  unfold applyTmaTensorReduction
  dsimp only
  rw [reductionElementSize_eq htype, if_pos hsize]
  exact ite_self _

/-- The element whose bytes are all the same. -/
def uniform (size : Nat) (b : BitVec 8) : BitVec (8 * size) :=
  BitVec.ofNat (8 * size) (littleEndian size fun _ => b)

/-- Two operands that take elements of one kind to bytes of different kinds. -/
def Separates (op : TmaReductionOp) (size : Nat) (signed : Bool) (old other : BitVec 8) : Prop :=
  (∀ k < size, byteOf ((op.reduceElement signed (uniform size old) (uniform size 0)).getD 0).toNat k
    = 0) ∧
  ∀ k < size,
    byteOf ((op.reduceElement signed (uniform size old) (uniform size other)).getD 0).toNat k ≠ 0

/-- The operands that separate. -/
def separator : TmaReductionOp → BitVec 8 × BitVec 8
  | .min => (0x7F, 1)
  | .inc => (1, 0xFF)
  | .bitAnd => (0xFF, 1)
  | _ => (0, 1)

theorem separates (htype : integerType dtype = some (size, signed))
    (hsupported : tmaTensorReductionSupported op dtype = true) :
    Separates op size signed (separator op).1 (separator op).2 := by
  unfold integerType at htype
  unfold Separates
  split at htype <;> cases htype <;> cases op <;>
    first | exact absurd hsupported (by decide) | exact ⟨by decide, by decide⟩

end FlashGpuSim
