import FlashGpuSim.Alu.PtxReg

/-!
Integer multiplication and multiplication with addition. The C types in which the products and the
sums are computed are those of the code: `mul_impl` widens its operands first, the others do not.
Signed overflow of the host wraps.
-/

namespace FlashGpuSim

open Lib PtxReg

inductive MulMode
  | wide | hi | lo
  deriving DecidableEq, Repr

/-! ### The code -/

def mulImpl (iType : IntType) (mode : MulMode) (a b : PtxReg) : Option PtxReg :=
  match iType with
  | .s16 =>
    let t : BitVec 32 := a.b16.signExtend 32 * b.b16.signExtend 32
    match mode with
    | .wide => some (of32 t)
    | .hi => some (of16 ((t.sshiftRight 16).setWidth 16))
    | .lo => some (of16 (t.setWidth 16))
  | .s32 =>
    let t : BitVec 64 := a.b32.signExtend 64 * b.b32.signExtend 64
    match mode with
    | .wide => some t
    | .hi => some (of32 ((t.sshiftRight 32).setWidth 32))
    | .lo => some (of32 (t.setWidth 32))
  | .s64 =>
    match mode with
    | .wide => none
    | .hi =>
      let product : BitVec 128 := a.signExtend 128 * b.signExtend 128
      some ((product >>> 64).setWidth 64)
    | .lo => some (a * b)
  | .u16 =>
    let t : BitVec 32 := a.b16.setWidth 32 * b.b16.setWidth 32
    match mode with
    | .wide => some (of32 t)
    | .hi => some (of16 ((t >>> 16).setWidth 16))
    | .lo => some (of16 (t.setWidth 16))
  | .u32 =>
    let t : BitVec 64 := a.b32.setWidth 64 * b.b32.setWidth 64
    match mode with
    | .wide => some t
    | .hi => some (of32 ((t >>> 32).setWidth 32))
    | .lo => some (of32 (t.setWidth 32))
  | .u64 =>
    match mode with
    | .wide => none
    | .hi => some (((a.setWidth 128 * b.setWidth 128) >>> 64).setWidth 64)
    | .lo => some (a * b)
  | .s8 | .u8 => none

/-- The carry of `madp` and `madc` is bit 2 of their predicate operand. -/
def carryBit (useCarry : Bool) (carry : PtxReg) : BitVec 4 :=
  if useCarry then (carry.setWidth 4 &&& 4) >>> 2 else 0

def madDef (iType : IntType) (mode : MulMode) (useCarry : Bool) (a b c carry : PtxReg) :
    Option PtxReg :=
  let pred := carryBit useCarry carry
  match iType with
  | .s16 =>
    let t : BitVec 32 := a.b16.signExtend 32 * b.b16.signExtend 32
    match mode with
    | .wide => some (of32 (t + c.b32 + pred.setWidth 32))
    | .hi =>
      some (of16 ((t.sshiftRight 16 + c.b16.signExtend 32 + pred.setWidth 32).setWidth 16))
    | .lo =>
      some (of16 (((t.setWidth 16).signExtend 32 + c.b16.signExtend 32 +
        pred.setWidth 32).setWidth 16))
  | .s32 =>
    -- a product of two `int`s
    let t : BitVec 64 := (a.b32 * b.b32).signExtend 64
    match mode with
    | .wide => some (t + c + pred.setWidth 64)
    | .hi =>
      some (of32 ((t.sshiftRight 32 + c.b32.signExtend 64 + pred.setWidth 64).setWidth 32))
    | .lo => some (of32 (t.setWidth 32 + c.b32 + pred.setWidth 32))
  | .s64 =>
    match mode, useCarry with
    | .lo, false => some (a * b + c + pred.setWidth 64)
    | _, _ => none
  | .u16 =>
    let t : BitVec 32 := a.b16.setWidth 32 * b.b16.setWidth 32
    match mode with
    | .wide => some (of32 (t + c.b32 + pred.setWidth 32))
    | .hi => some (of16 (((t + c.b16.setWidth 32 + pred.setWidth 32) >>> 16).setWidth 16))
    | .lo =>
      some (of16 (((t.setWidth 16).setWidth 32 + c.b16.setWidth 32 +
        pred.setWidth 32).setWidth 16))
  | .u32 =>
    -- a product of two `unsigned`s
    let t : BitVec 64 := (a.b32 * b.b32).setWidth 64
    match mode with
    | .wide => some (t + c + pred.setWidth 64)
    | .hi => some (of32 (((t + c.b32.setWidth 64 + pred.setWidth 64) >>> 32).setWidth 32))
    | .lo => some (of32 (t.setWidth 32 + c.b32 + pred.setWidth 32))
  | .u64 =>
    match mode, useCarry with
    | .lo, false => some (a * b + c + pred.setWidth 64)
    | _, _ => none
  | .s8 | .u8 => none

/-- The part of its product that `mul24_impl` keeps. -/
def cut24 (data : PtxReg) : MulMode → PtxReg
  | .wide => data
  | .hi => maskAnd (data >>> 16) 0 0xFFFFFFFF
  | .lo => data.maskAnd 0 0xFFFFFFFF

def mul24Impl (iType : IntType) (mode : MulMode) (a b : PtxReg) : Option PtxReg :=
  let src1 := a.maskAnd 0 0x00FFFFFF
  let src2 := b.maskAnd 0 0x00FFFFFF
  match iType with
  | .s32 =>
    let src1 := if src1.getBit 23 then src1.maskOr 0xFFFFFFFF 0xFF000000 else src1
    let src2 := if src2.getBit 23 then src2.maskOr 0xFFFFFFFF 0xFF000000 else src2
    some (cut24 (src1 * src2) mode)
  | .u32 => some (cut24 (src1 * src2) mode)
  | _ => none

def mad24Impl (iType : IntType) (mode : MulMode) (satMode : Bool) (a b c : PtxReg) :
    Option PtxReg :=
  match iType, mode with
  | .s32, .hi =>
    let t : BitVec 64 := (a.b32 * b.b32).signExtend 64
    let d : BitVec 64 := t.sshiftRight 16 + c.b32.signExtend 64
    if satMode then
      if d.toInt > 0x7FFFFFFF then some 0x7FFFFFFF
      else if d.toInt < -0x80000000 then some 0xFFFFFFFF80000000
      else some d
    else some d
  | .s32, .lo =>
    let t : BitVec 64 := (a.b32 * b.b32).signExtend 64
    some ((t.setWidth 32 + c.b32).signExtend 64)
  | .u32, .hi =>
    let t : BitVec 64 := (a.b32 * b.b32).setWidth 64
    some (t >>> 16 + c.b32.setWidth 64)
  | .u32, .lo =>
    let t : BitVec 64 := (a.b32 * b.b32).setWidth 64
    some ((t.setWidth 32 + c.b32).setWidth 64)
  | _, _ => none

/-! ### What the instructions mean -/

namespace MulMode

/-- The bits of the destination. -/
def bits (w : Nat) : MulMode → Nat
  | wide => 2 * w
  | hi | lo => w

/-- The part of a product of two words that is taken. -/
def part (w : Nat) (product : Int) : MulMode → Int
  | hi => product / 2 ^ w
  | wide | lo => product

end MulMode

/-- The product over the integers. -/
def product (iType : IntType) (a b : PtxReg) : Int := iType.value a * iType.value b

/-- `mul_impl` writes the part of the exact product. -/
def MulRight (iType : IntType) (mode : MulMode) (a b : PtxReg) : Prop :=
  ∀ d, mulImpl iType mode a b = some d →
    Writes (mode.bits iType.width) d (BitVec.ofInt _ (mode.part iType.width (product iType a b)))

/-- `mad_def` writes the part of the exact product with the addend and the carry, which is what
`mul_impl` writes with them. -/
structure MadRight (iType : IntType) (mode : MulMode) (useCarry : Bool) (a b c carry : PtxReg) :
    Prop where
  exact : ∀ d, madDef iType mode useCarry a b c carry = some d →
    Writes (mode.bits iType.width) d (BitVec.ofInt _
      (mode.part iType.width (product iType a b) + c.toNat + (carryBit useCarry carry).toNat))
  sum : ∀ m d, mulImpl iType mode a b = some m →
    madDef iType mode useCarry a b c carry = some d →
      Writes (mode.bits iType.width) d (m.setWidth _ + c.setWidth _ +
        (carryBit useCarry carry).setWidth _)

/-- What a register holds, cut to 24 bits. -/
def IntType.value24 (iType : IntType) (x : PtxReg) : Int :=
  if iType.signed then (x.setWidth 24).toInt else (x.setWidth 24).toNat

def product24 (iType : IntType) (a b : PtxReg) : Int := iType.value24 a * iType.value24 b

namespace MulMode

/-- All bits without a mode, as in the code. -/
def bits24 : MulMode → Nat
  | wide => 64
  | hi | lo => 32

def part24 (product : Int) : MulMode → Int
  | hi => product / 2 ^ 16
  | wide | lo => product

end MulMode

def Mul24Right (iType : IntType) (mode : MulMode) (a b : PtxReg) : Prop :=
  ∀ d, mul24Impl iType mode a b = some d →
    Writes mode.bits24 d (BitVec.ofInt _ (mode.part24 (product24 iType a b)))

def clampS32 (z : Int) : Int := max (-2 ^ 31) (min z (2 ^ 31 - 1))

/-- The sum of a product's part and the addend, clamped for `.hi.sat.s32`. -/
def sum24 (iType : IntType) (mode : MulMode) (satMode : Bool) (part c : Int) : Int :=
  if iType = .s32 ∧ mode = .hi ∧ satMode then clampS32 (part + c) else part + c

structure Mad24Right (iType : IntType) (mode : MulMode) (satMode : Bool) (a b c : PtxReg) :
    Prop where
  exact : ∀ d, mad24Impl iType mode satMode a b c = some d → Writes 32 d (BitVec.ofInt _
    (sum24 iType mode satMode (mode.part24 (product24 iType a b)) (iType.value c)))
  sum : satMode = false → ∀ m d, mul24Impl iType mode a b = some m →
    mad24Impl iType mode satMode a b c = some d → Writes 32 d (m.b32 + c.b32)

/-! ### Products -/

theorem mul_signExtend {n m : Nat} (x y : BitVec n) :
    x.signExtend m * y.signExtend m = BitVec.ofInt m (x.toInt * y.toInt) :=
  (BitVec.ofInt_mul _ _).symm

theorem mul_setWidth {n m : Nat} (x y : BitVec n) :
    x.setWidth m * y.setWidth m = BitVec.ofInt m (x.toNat * y.toNat) := by
  rw [setWidth_eq_ofInt, setWidth_eq_ofInt, BitVec.ofInt_mul]

theorem mul_eq_signed {n : Nat} (x y : BitVec n) :
    x * y = BitVec.ofInt n (x.toInt * y.toInt) := by
  rw [BitVec.ofInt_mul, BitVec.ofInt_toInt, BitVec.ofInt_toInt]

theorem mul_eq_unsigned {n : Nat} (x y : BitVec n) :
    x * y = BitVec.ofInt n (x.toNat * y.toNat) := by
  rw [BitVec.ofInt_mul, ofInt_toNat, ofInt_toNat]

theorem setWidth_self {n : Nat} (x : BitVec n) : x.setWidth n = x := BitVec.setWidth_eq x

variable {iType : IntType} {mode : MulMode} {a b c d : PtxReg}

/-- What the code writes for a product. -/
theorem setWidth_mulImpl (h : mulImpl iType mode a b = some d) :
    d.setWidth (mode.bits iType.width) =
      BitVec.ofInt _ (mode.part iType.width (product iType a b)) := by
  cases iType <;> cases mode <;> simp only [mulImpl, reduceCtorEq, Option.some.injEq] at h <;>
    subst h <;>
    simp [MulMode.bits, MulMode.part, product, IntType.value, IntType.width, IntType.signed,
      mul_signExtend, mul_setWidth, setWidth_sshiftRight, setWidth_ushiftRight, setWidth_ofInt,
      b16, b32]
  · exact mul_eq_signed a b
  · exact mul_eq_unsigned a b

/-- A cut sum is the sum of what its terms show below the cut. -/
theorem setWidth_sum {n m : Nat} (h : n ≤ m) {t c : BitVec m} {pred : BitVec 4} {z : Int}
    {x : PtxReg} (ht : t.setWidth n = BitVec.ofInt n z) (hc : c.setWidth n = x.setWidth n) :
    (t + c + pred.setWidth m).setWidth n = BitVec.ofInt n (z + x.toNat + pred.toNat) := by
  rw [BitVec.setWidth_add _ _ h, BitVec.setWidth_add _ _ h, ht, hc, BitVec.ofInt_add,
    BitVec.ofInt_add, ← setWidth_eq_ofInt, ← setWidth_eq_ofInt,
    BitVec.setWidth_setWidth (by omega)]

theorem sum_eq_ofInt {n m l : Nat} (z : Int) (c : BitVec m) (pred : BitVec l) :
    BitVec.ofInt n z + c.setWidth n + pred.setWidth n =
      BitVec.ofInt n (z + c.toNat + pred.toNat) := by
  rw [BitVec.ofInt_add, BitVec.ofInt_add, ← setWidth_eq_ofInt, ← setWidth_eq_ofInt]

theorem abs_mul_le {x y bound : Int} (hx : |x| ≤ bound) (hy : |y| ≤ bound) :
    |x * y| ≤ bound * bound := by
  rw [abs_mul]
  exact mul_le_mul hx hy (abs_nonneg y) ((abs_nonneg x).trans hx)

theorem abs_toInt_le (x : BitVec 32) : |x.toInt| ≤ 2 ^ 31 := by
  have hlow := x.le_toInt
  have hhigh := x.toInt_lt
  rw [abs_le]
  constructor <;> norm_num at * <;> omega

section short

-- the products that the code computes in 32 bits
variable {x y : BitVec 32} {pred : BitVec 4}

theorem toInt_short_product (x y : BitVec 32) :
    (x * y).toInt = (x.toInt * y.toInt).bmod (2 ^ 32) := BitVec.toInt_mul x y

theorem signed_wide_iff (c : PtxReg) :
    (x * y).signExtend 64 + c + pred.setWidth 64 =
        BitVec.ofInt 64 (x.toInt * y.toInt + c.toNat + pred.toNat) ↔
      -2 ^ 31 ≤ x.toInt * y.toInt ∧ x.toInt * y.toInt < 2 ^ 31 := by
  have hle := abs_le.mp (abs_mul_le (abs_toInt_le x) (abs_toInt_le y))
  have hsum := sum_eq_ofInt (n := 64) (x * y).toInt c pred
  rw [setWidth_self] at hsum
  rw [signExtend_eq_ofInt, hsum, ofInt_eq_iff, toInt_short_product, Int.bmod_def, Int.ModEq]
  generalize x.toInt * y.toInt = p at *
  norm_num at *
  split <;> omega

theorem signed_hi_iff (c : PtxReg) :
    BitVec.ofInt 32 ((x * y).toInt / 2 ^ 32 + c.toNat + pred.toNat) =
        BitVec.ofInt 32 (x.toInt * y.toInt / 2 ^ 32 + c.toNat + pred.toNat) ↔
      -2 ^ 31 ≤ x.toInt * y.toInt ∧ x.toInt * y.toInt < 2 ^ 31 := by
  have hle := abs_le.mp (abs_mul_le (abs_toInt_le x) (abs_toInt_le y))
  rw [ofInt_eq_iff, toInt_short_product, Int.bmod_def, Int.ModEq]
  generalize x.toInt * y.toInt = p at *
  norm_num at *
  split <;> omega

theorem toNat_short_product (x y : BitVec 32) :
    ((x * y).toNat : Int) = (x.toNat * y.toNat : Int) % 2 ^ 32 := by
  rw [BitVec.toNat_mul]
  push_cast
  rfl

theorem unsigned_product_lt (x y : BitVec 32) : (x.toNat * y.toNat : Int) < 2 ^ 64 := by
  have hlt : x.toNat * y.toNat < 2 ^ 32 * 2 ^ 32 := Nat.mul_lt_mul'' x.isLt y.isLt
  norm_num at *
  exact_mod_cast hlt

theorem unsigned_wide_iff (c : PtxReg) :
    (x * y).setWidth 64 + c + pred.setWidth 64 =
        BitVec.ofInt 64 (x.toNat * y.toNat + c.toNat + pred.toNat) ↔
      (x.toNat * y.toNat : Int) < 2 ^ 32 := by
  have hlt := unsigned_product_lt x y
  have hnonneg : (0 : Int) ≤ x.toNat * y.toNat := by positivity
  have hsum := sum_eq_ofInt (n := 64) (x * y).toNat c pred
  rw [setWidth_self] at hsum
  rw [setWidth_eq_ofInt, hsum, ofInt_eq_iff, toNat_short_product, Int.ModEq]
  generalize (x.toNat * y.toNat : Int) = p at *
  norm_num at *
  omega

theorem unsigned_hi_iff (c : PtxReg) :
    (((x * y).setWidth 64 + c.b32.setWidth 64 + pred.setWidth 64) >>> 32).setWidth 32 =
        BitVec.ofInt 32 (x.toNat * y.toNat / 2 ^ 32 + c.toNat + pred.toNat) ↔
      (2 ^ 32 : Int) ∣ x.toNat * y.toNat / 2 ^ 32 + c.b32.toNat + pred.toNat -
        (x.toNat * y.toNat % 2 ^ 32 + c.b32.toNat + pred.toNat) / 2 ^ 32 := by
  have hc : (c.b32.toNat : Int) = c.toNat % 2 ^ 32 := by
    rw [b32, BitVec.toNat_setWidth]
    push_cast
    rfl
  rw [setWidth_eq_ofInt (x * y), sum_eq_ofInt, setWidth_ushiftRight (by decide), ofInt_eq_iff,
    toNat_short_product, Int.ModEq, hc]
  generalize (x.toNat * y.toNat : Int) = p at *
  omega

end short

/-- The addend is added before the product is shifted. -/
theorem unsigned16_hi_iff {x y : BitVec 16} {pred : BitVec 4} (hpred : pred.toNat ≤ 1)
    (c : PtxReg) :
    ((x.setWidth 32 * y.setWidth 32 + c.b16.setWidth 32 + pred.setWidth 32) >>> 16).setWidth 16 =
        BitVec.ofInt 16 (x.toNat * y.toNat / 2 ^ 16 + c.toNat + pred.toNat) ↔
      c.b16.toNat + pred.toNat = 0 ∨ c.b16.toNat + pred.toNat = 1 ∧
        (x.toNat * y.toNat : Int) % 2 ^ 16 = 2 ^ 16 - 1 := by
  have hc : (c.b16.toNat : Int) = c.toNat % 2 ^ 16 := by
    rw [b16, BitVec.toNat_setWidth]
    push_cast
    rfl
  have hlt := c.b16.isLt
  rw [mul_setWidth, sum_eq_ofInt, setWidth_ushiftRight (by decide), ofInt_eq_iff, Int.ModEq]
  generalize (x.toNat * y.toNat : Int) = p at *
  -- the sum carries into the high half or not
  rcases lt_or_ge (p % 2 ^ 16 + c.b16.toNat + pred.toNat) (2 ^ 16) with hcarry | hcarry
  · have hquot : (p + c.b16.toNat + pred.toNat) / 2 ^ 16 = p / 2 ^ 16 := by omega
    rw [hquot]
    omega
  · have hquot : (p + c.b16.toNat + pred.toNat) / 2 ^ 16 = p / 2 ^ 16 + 1 := by omega
    rw [hquot]
    omega

/-- The operands of `mad_def` whose result is right: a product of 32-bit operands is computed in
32 bits where all of it is taken, and the addend of an unsigned high half is added before the
shift. -/
def MadExact (iType : IntType) (mode : MulMode) (a b c : PtxReg) (carry : Nat) : Prop :=
  match iType, mode with
  | .s32, .wide | .s32, .hi => -2 ^ 31 ≤ product .s32 a b ∧ product .s32 a b < 2 ^ 31
  | .u32, .wide => product .u32 a b < 2 ^ 32
  | .u32, .hi => (2 ^ 32 : Int) ∣ product .u32 a b / 2 ^ 32 + c.b32.toNat + carry -
      (product .u32 a b % 2 ^ 32 + c.b32.toNat + carry) / 2 ^ 32
  | .u16, .hi => c.b16.toNat + carry = 0 ∨
      c.b16.toNat + carry = 1 ∧ product .u16 a b % 2 ^ 16 = 2 ^ 16 - 1
  | _, _ => True

theorem carryBit_le (useCarry : Bool) (carry : PtxReg) : (carryBit useCarry carry).toNat ≤ 1 := by
  unfold carryBit
  split
  · have hbit : ∀ p : BitVec 4, ((p &&& 4) >>> 2).toNat ≤ 1 := by decide
    exact hbit _
  · decide

theorem setWidth_madDef {useCarry : Bool} {carry : PtxReg}
    (h : madDef iType mode useCarry a b c carry = some d) :
    d.setWidth (mode.bits iType.width) = BitVec.ofInt _ (mode.part iType.width (product iType a b)
        + c.toNat + (carryBit useCarry carry).toNat) ↔
      MadExact iType mode a b c (carryBit useCarry carry).toNat := by
  have hpred := carryBit_le useCarry carry
  unfold madDef at h
  generalize carryBit useCarry carry = pred at *
  cases iType with
  | s8 => cases h
  | u8 => cases h
  | s16 =>
    cases mode with
    | wide =>
      obtain rfl := Option.some.inj h
      refine iff_of_true ?_ trivial
      refine (setWidth_of32 le_rfl _).trans (setWidth_sum le_rfl ?_ ?_)
      · rw [mul_signExtend, setWidth_ofInt le_rfl]
        rfl
      · exact setWidth_self _
    | hi =>
      obtain rfl := Option.some.inj h
      refine iff_of_true ?_ trivial
      refine ((setWidth_of16 le_rfl _).trans (setWidth_self _)).trans
        (setWidth_sum (by decide) ?_ ?_)
      · rw [mul_signExtend, setWidth_sshiftRight (by decide)]
        rfl
      · exact setWidth_signExtend (by decide) _
    | lo =>
      obtain rfl := Option.some.inj h
      refine iff_of_true ?_ trivial
      refine ((setWidth_of16 le_rfl _).trans (setWidth_self _)).trans
        (setWidth_sum (by decide) ?_ ?_)
      · rw [setWidth_signExtend (by decide), mul_signExtend, setWidth_ofInt (by decide)]
        rfl
      · exact setWidth_signExtend (by decide) _
  | u16 =>
    cases mode with
    | wide =>
      obtain rfl := Option.some.inj h
      refine iff_of_true ?_ trivial
      refine (setWidth_of32 le_rfl _).trans (setWidth_sum le_rfl ?_ ?_)
      · rw [mul_setWidth, setWidth_ofInt le_rfl]
        rfl
      · exact setWidth_self _
    | hi =>
      obtain rfl := Option.some.inj h
      refine (Eq.congr_left ?_).trans (unsigned16_hi_iff hpred c)
      exact (setWidth_of16 le_rfl _).trans (setWidth_self _)
    | lo =>
      obtain rfl := Option.some.inj h
      refine iff_of_true ?_ trivial
      refine ((setWidth_of16 le_rfl _).trans (setWidth_self _)).trans
        (setWidth_sum (by decide) ?_ ?_)
      · rw [BitVec.setWidth_setWidth (by decide), setWidth_self, mul_setWidth,
          setWidth_ofInt (by decide)]
        rfl
      · exact (BitVec.setWidth_setWidth (by decide)).trans (setWidth_self _)
  | s32 =>
    cases mode with
    | wide =>
      obtain rfl := Option.some.inj h
      refine (Eq.congr_left ?_).trans (signed_wide_iff c)
      exact setWidth_self _
    | hi =>
      obtain rfl := Option.some.inj h
      refine (Eq.congr_left ?_).trans (signed_hi_iff c)
      refine ((setWidth_of32 le_rfl _).trans (setWidth_self _)).trans
        (setWidth_sum (by decide) ?_ ?_)
      · rw [signExtend_eq_ofInt, setWidth_sshiftRight (by decide)]
        rfl
      · exact setWidth_signExtend (by decide) _
    | lo =>
      obtain rfl := Option.some.inj h
      refine iff_of_true ?_ trivial
      refine (setWidth_of32 le_rfl _).trans (setWidth_sum le_rfl ?_ (setWidth_self _))
      rw [setWidth_self, setWidth_signExtend (by decide), mul_eq_signed]
      rfl
  | u32 =>
    cases mode with
    | wide =>
      obtain rfl := Option.some.inj h
      refine (Eq.congr_left ?_).trans (unsigned_wide_iff c)
      exact setWidth_self _
    | hi =>
      obtain rfl := Option.some.inj h
      refine (Eq.congr_left ?_).trans (unsigned_hi_iff c)
      exact (setWidth_of32 le_rfl _).trans (setWidth_self _)
    | lo =>
      obtain rfl := Option.some.inj h
      refine iff_of_true ?_ trivial
      refine (setWidth_of32 le_rfl _).trans (setWidth_sum le_rfl ?_ (setWidth_self _))
      rw [BitVec.setWidth_setWidth (by decide), BitVec.setWidth_setWidth (by decide),
        setWidth_self, mul_eq_unsigned]
      rfl
  | s64 =>
    cases mode with
    | wide => cases h
    | hi => cases h
    | lo =>
      cases useCarry with
      | true => cases h
      | false =>
        obtain rfl := Option.some.inj h
        refine iff_of_true ?_ trivial
        refine setWidth_sum le_rfl ?_ rfl
        rw [setWidth_self, mul_eq_signed]
        simp [MulMode.part, product, IntType.value, IntType.signed, IntType.width]
  | u64 =>
    cases mode with
    | wide => cases h
    | hi => cases h
    | lo =>
      cases useCarry with
      | true => cases h
      | false =>
        obtain rfl := Option.some.inj h
        refine iff_of_true ?_ trivial
        refine setWidth_sum le_rfl ?_ rfl
        rw [setWidth_self, mul_eq_unsigned]
        simp [MulMode.part, product, IntType.value, IntType.signed, IntType.width]

/-! ### Products of 24 bits -/

theorem maskAnd24 (x : PtxReg) : x.maskAnd 0 0x00FFFFFF = (x.setWidth 24).setWidth 64 := by
  have hmask : (0 : BitVec 32) ++ (0x00FFFFFF : BitVec 32) =
      (BitVec.allOnes 24).setWidth 64 := by decide
  rw [maskAnd, hmask]
  exact and_allOnes x 24

theorem maskAnd32 (x : PtxReg) : x.maskAnd 0 0xFFFFFFFF = (x.setWidth 32).setWidth 64 := by
  have hmask : (0 : BitVec 32) ++ (0xFFFFFFFF : BitVec 32) =
      (BitVec.allOnes 32).setWidth 64 := by decide
  rw [maskAnd, hmask]
  exact and_allOnes x 32

theorem signExtend24 (x : PtxReg) :
    (if (x.maskAnd 0 0x00FFFFFF).getBit 23 then (x.maskAnd 0 0x00FFFFFF).maskOr 0xFFFFFFFF 0xFF000000
      else x.maskAnd 0 0x00FFFFFF) = (x.setWidth 24).signExtend 64 := by
  have hmask : (0xFFFFFFFF : BitVec 32) ++ (0xFF000000 : BitVec 32) =
      ~~~ (BitVec.allOnes 24).setWidth 64 := by decide
  have hmsb : getBit ((x.setWidth 24).setWidth 64) 23 = (x.setWidth 24).msb := by
    simp [getBit, BitVec.msb_eq_getLsbD_last]
  rw [maskAnd24, maskOr, hmask, hmsb]
  split
  · rename_i hneg
    exact or_not_allOnes hneg
  · rename_i hneg
    exact (BitVec.signExtend_eq_setWidth_of_msb_false (Bool.not_eq_true _ ▸ hneg)).symm

theorem setWidth_cut24 (z : Int) (mode : MulMode) :
    (cut24 (BitVec.ofInt 64 z) mode).setWidth mode.bits24 = BitVec.ofInt _ (mode.part24 z) := by
  cases mode with
  | wide => exact setWidth_self _
  | hi =>
    refine (congrArg (BitVec.setWidth 32) (maskAnd32 _)).trans ?_
    rw [setWidth_ushiftRight (by decide)]
    exact (setWidth_of32 le_rfl _).trans (setWidth_self _)
  | lo =>
    refine (congrArg (BitVec.setWidth 32) (maskAnd32 _)).trans ?_
    rw [setWidth_ofInt (by decide)]
    exact (setWidth_of32 le_rfl _).trans (setWidth_self _)

theorem setWidth_mul24Impl (h : mul24Impl iType mode a b = some d) :
    d.setWidth mode.bits24 = BitVec.ofInt _ (mode.part24 (product24 iType a b)) := by
  cases iType <;> simp only [mul24Impl, reduceCtorEq, Option.some.injEq] at h
  · rw [signExtend24, signExtend24, mul_signExtend] at h
    subst h
    exact setWidth_cut24 _ mode
  · rw [maskAnd24, maskAnd24, mul_setWidth] at h
    subst h
    exact setWidth_cut24 _ mode

/-- What is left of a product in 32 bits. -/
def wrapped (iType : IntType) (z : Int) : Int :=
  if iType.signed then z.bmod (2 ^ 32) else z % 2 ^ 32

/-- The operands of `mad24_impl` whose result is right: what the 32-bit product of the whole
operands shows is what the product of their 24 bits does. -/
def Mad24Exact (iType : IntType) (mode : MulMode) (satMode : Bool) (a b c : PtxReg) : Prop :=
  match iType, mode with
  | .s32, .lo | .u32, .lo => (2 ^ 32 : Int) ∣ product iType a b - product24 iType a b
  | .s32, .hi | .u32, .hi =>
    sum24 iType .hi satMode (wrapped iType (product iType a b) / 2 ^ 16) (iType.value c) =
      sum24 iType .hi satMode (product24 iType a b / 2 ^ 16) (iType.value c)
  | _, _ => True

section short

variable {x y z : BitVec 32}

theorem signed_hi24 (x y z : BitVec 32) :
    (((x * y).signExtend 64).sshiftRight 16 + z.signExtend 64) =
      BitVec.ofInt 64 ((x.toInt * y.toInt).bmod (2 ^ 32) / 2 ^ 16 + z.toInt) := by
  rw [BitVec.sshiftRight, BitVec.toInt_signExtend_of_le (by decide), signExtend_eq_ofInt,
    ← BitVec.ofInt_add, Int.shiftRight_eq_div_pow, toInt_short_product]
  rfl

theorem unsigned_hi24 (x y z : BitVec 32) :
    (((x * y).setWidth 64) >>> 16 + z.setWidth 64) =
      BitVec.ofInt 64 ((x.toNat * y.toNat : Int) % 2 ^ 32 / 2 ^ 16 + z.toNat) := by
  have hshift : ((x * y).setWidth 64) >>> 16 =
      BitVec.ofInt 64 ((x.toNat * y.toNat : Int) % 2 ^ 32 / 2 ^ 16) := by
    refine (setWidth_self _).symm.trans ?_
    rw [setWidth_eq_ofInt, BitVec.toNat_ushiftRight, BitVec.toNat_setWidth_of_le (by decide),
      Nat.shiftRight_eq_div_pow, ← toNat_short_product]
    rfl
  rw [hshift, setWidth_eq_ofInt, ← BitVec.ofInt_add]

theorem quotient_bounds (p : Int) :
    -2 ^ 15 ≤ p.bmod (2 ^ 32) / 2 ^ 16 ∧ p.bmod (2 ^ 32) / 2 ^ 16 < 2 ^ 15 := by
  have hlow := Int.le_bmod (x := p) (m := 2 ^ 32) (by decide)
  have hhigh := Int.bmod_lt (x := p) (m := 2 ^ 32) (by decide)
  omega

theorem clampS32_bounds (z : Int) : -2 ^ 31 ≤ clampS32 z ∧ clampS32 z < 2 ^ 31 := by
  unfold clampS32
  omega

end short

theorem setWidth_mad24Impl_hi {satMode : Bool} (ht : iType = .s32 ∨ iType = .u32)
    (h : mad24Impl iType .hi satMode a b c = some d) :
    d.setWidth 32 = BitVec.ofInt 32 (sum24 iType .hi satMode
      (wrapped iType (product iType a b) / 2 ^ 16) (iType.value c)) := by
  rcases ht with rfl | rfl
  · have hq := quotient_bounds (a.b32.toInt * b.b32.toInt)
    have hlow := c.b32.le_toInt
    have hhigh := c.b32.toInt_lt
    have hd := signed_hi24 a.b32 b.b32 c.b32
    have hvalue : IntType.s32.value c = c.b32.toInt := rfl
    have hwrapped : wrapped .s32 (product .s32 a b) = (a.b32.toInt * b.b32.toInt).bmod (2 ^ 32) :=
      rfl
    simp only [mad24Impl] at h
    rw [hvalue, hwrapped]
    generalize (a.b32.toInt * b.b32.toInt).bmod (2 ^ 32) / 2 ^ 16 = q at *
    rw [hd, BitVec.toInt_ofInt_eq_self (by decide) (by norm_num at *; omega)
      (by norm_num at *; omega)] at h
    cases satMode with
    | false =>
      obtain rfl := Option.some.inj h
      exact setWidth_ofInt (by decide)
    | true =>
      have hsum : sum24 .s32 .hi true q c.b32.toInt = clampS32 (q + c.b32.toInt) := rfl
      rw [hsum]
      unfold clampS32
      rw [if_pos rfl] at h
      split at h
      · obtain rfl := Option.some.inj h
        rw [min_eq_right (by omega)]
        decide
      · split at h
        · obtain rfl := Option.some.inj h
          rw [min_eq_left (by omega), max_eq_left (by omega)]
          decide
        · obtain rfl := Option.some.inj h
          rw [min_eq_left (by omega), max_eq_right (by omega)]
          exact setWidth_ofInt (by decide)
  · obtain rfl := Option.some.inj h
    refine (congrArg (BitVec.setWidth 32) (unsigned_hi24 a.b32 b.b32 c.b32)).trans ?_
    exact setWidth_ofInt (by decide)

theorem ofInt_eq_iff_of_near {n : Nat} {x y : Int} (h : |x - y| < 2 ^ n) :
    BitVec.ofInt n x = BitVec.ofInt n y ↔ x = y := by
  rw [ofInt_eq_iff, Int.modEq_iff_dvd]
  constructor
  · intro hdvd
    have hzero := Int.eq_zero_of_abs_lt_dvd hdvd (abs_sub_comm x y ▸ h)
    omega
  · rintro rfl
    simp

theorem product24_signed_le (a b : PtxReg) : |product24 .s32 a b| ≤ 2 ^ 46 := by
  have hvalue : ∀ x : PtxReg, |IntType.s32.value24 x| ≤ 2 ^ 23 := by
    intro x
    have hlow := (x.setWidth 24).le_toInt
    have hhigh := (x.setWidth 24).toInt_lt
    show |(x.setWidth 24).toInt| ≤ 2 ^ 23
    rw [abs_le]
    norm_num at *
    constructor <;> omega
  exact abs_mul_le (hvalue a) (hvalue b)

theorem product24_unsigned_lt (a b : PtxReg) :
    0 ≤ product24 .u32 a b ∧ product24 .u32 a b < 2 ^ 48 := by
  have hvalue : ∀ x : PtxReg, 0 ≤ IntType.u32.value24 x := fun x => Int.natCast_nonneg _
  refine ⟨mul_nonneg (hvalue a) (hvalue b), ?_⟩
  have hlt : (a.setWidth 24).toNat * (b.setWidth 24).toNat < 2 ^ 24 * 2 ^ 24 :=
    Nat.mul_lt_mul'' (a.setWidth 24).isLt (b.setWidth 24).isLt
  show ((a.setWidth 24).toNat * (b.setWidth 24).toNat : Int) < 2 ^ 48
  norm_num at *
  exact_mod_cast hlt

theorem wrapped_bounds (iType : IntType) (z : Int) :
    -2 ^ 31 ≤ wrapped iType z ∧ wrapped iType z < 2 ^ 32 := by
  have hlow := Int.le_bmod (x := z) (m := 2 ^ 32) (by decide)
  have hhigh := Int.bmod_lt (x := z) (m := 2 ^ 32) (by decide)
  unfold wrapped
  split <;> omega

theorem sum24_near {satMode : Bool} (ht : iType = .s32 ∨ iType = .u32) (z : Int) :
    |sum24 iType .hi satMode (wrapped iType (product iType a b) / 2 ^ 16) z -
      sum24 iType .hi satMode (product24 iType a b / 2 ^ 16) z| < 2 ^ 32 := by
  have hw := wrapped_bounds iType (product iType a b)
  unfold sum24
  rw [abs_lt]
  split
  · have h₁ := clampS32_bounds (wrapped iType (product iType a b) / 2 ^ 16 + z)
    have h₂ := clampS32_bounds (product24 iType a b / 2 ^ 16 + z)
    omega
  · rcases ht with rfl | rfl
    · have hp := abs_le.mp (product24_signed_le a b)
      omega
    · have hp := product24_unsigned_lt a b
      have hnonneg : 0 ≤ wrapped .u32 (product .u32 a b) := Int.emod_nonneg _ (by decide)
      omega

theorem ofInt_value {t : IntType} (ht : t = .s32 ∨ t = .u32) (x : PtxReg) :
    BitVec.ofInt 32 (t.value x) = x.b32 := by
  rcases ht with rfl | rfl
  · exact BitVec.ofInt_toInt
  · exact ofInt_toNat _

theorem ofInt_product (ht : iType = .s32 ∨ iType = .u32) :
    BitVec.ofInt 32 (product iType a b) = a.b32 * b.b32 := by
  rw [product, BitVec.ofInt_mul, ofInt_value ht, ofInt_value ht]

theorem setWidth_mad24Impl {satMode : Bool}
    (h : mad24Impl iType mode satMode a b c = some d) :
    d.setWidth 32 = BitVec.ofInt 32 (sum24 iType mode satMode
        (mode.part24 (product24 iType a b)) (iType.value c)) ↔
      Mad24Exact iType mode satMode a b c := by
  have ht : iType = .s32 ∨ iType = .u32 := by
    cases iType <;> cases mode <;> simp [mad24Impl] at h ⊢
  cases mode with
  | wide => rcases ht with rfl | rfl <;> cases h
  | hi =>
    rw [setWidth_mad24Impl_hi ht h]
    refine (ofInt_eq_iff_of_near (sum24_near ht _)).trans ?_
    rcases ht with rfl | rfl <;> rfl
  | lo =>
    have hd : d.setWidth 32 = a.b32 * b.b32 + c.b32 := by
      rcases ht with rfl | rfl
      · obtain rfl := Option.some.inj h
        exact (setWidth_signExtend (by decide) _).trans
          (congrArg (· + c.b32) (setWidth_signExtend (by decide) _))
      · obtain rfl := Option.some.inj h
        exact (BitVec.setWidth_setWidth (by decide)).trans ((setWidth_self _).trans
          (congrArg (· + c.b32) ((BitVec.setWidth_setWidth (by decide)).trans (setWidth_self _))))
    have hsum : sum24 iType .lo satMode (MulMode.part24 (product24 iType a b) .lo)
        (iType.value c) = product24 iType a b + iType.value c := by
      unfold sum24
      rw [if_neg (by simp)]
      rfl
    rw [hd, hsum, BitVec.ofInt_add, ofInt_value ht, BitVec.add_left_inj, ← ofInt_product ht,
      ofInt_eq_iff, Int.modEq_comm, Int.modEq_iff_dvd]
    rcases ht with rfl | rfl <;> rfl

/-! ### When the results are right -/

theorem bits_le_of_mulImpl (h : mulImpl iType mode a b = some d) :
    mode.bits iType.width ≤ 64 := by
  cases iType <;> cases mode <;> first | decide | cases h

theorem bits_le_of_madDef {useCarry : Bool} {carry : PtxReg}
    (h : madDef iType mode useCarry a b c carry = some d) : mode.bits iType.width ≤ 64 := by
  cases iType <;> cases mode <;> first | decide | cases h

theorem mulRight (iType : IntType) (mode : MulMode) (a b : PtxReg) :
    MulRight iType mode a b :=
  fun _ h => (writes_iff (bits_le_of_mulImpl h)).mpr (setWidth_mulImpl h)

theorem mul24Right (iType : IntType) (mode : MulMode) (a b : PtxReg) :
    Mul24Right iType mode a b := by
  intro d h
  have hbits : mode.bits24 ≤ 64 := by cases mode <;> decide
  exact (writes_iff hbits).mpr (setWidth_mul24Impl h)

theorem madRight_iff (iType : IntType) (mode : MulMode) (useCarry : Bool)
    (a b c carry : PtxReg) : MadRight iType mode useCarry a b c carry ↔
      MadExact iType mode a b c (carryBit useCarry carry).toNat := by
  cases h : madDef iType mode useCarry a b c carry with
  | none =>
    refine iff_of_true ⟨fun d hd => ?_, fun m d _ hd => ?_⟩ ?_
    · rw [h] at hd
      cases hd
    · rw [h] at hd
      cases hd
    · cases iType <;> cases mode <;> first | exact trivial | cases h
  | some d =>
    have hbits := bits_le_of_madDef h
    rw [← setWidth_madDef h, ← writes_iff hbits]
    refine ⟨fun hright => hright.exact d h, fun hwrites => ⟨fun d' hd' => ?_,
      fun m d' hm hd' => ?_⟩⟩
    · obtain rfl := Option.some.inj (h.symm.trans hd')
      exact hwrites
    · obtain rfl := Option.some.inj (h.symm.trans hd')
      rw [setWidth_mulImpl hm, sum_eq_ofInt]
      exact hwrites

theorem mad24Right_iff (iType : IntType) (mode : MulMode) (satMode : Bool) (a b c : PtxReg) :
    Mad24Right iType mode satMode a b c ↔ Mad24Exact iType mode satMode a b c := by
  cases h : mad24Impl iType mode satMode a b c with
  | none =>
    refine iff_of_true ⟨fun d hd => ?_, fun _ m d _ hd => ?_⟩ ?_
    · rw [h] at hd
      cases hd
    · rw [h] at hd
      cases hd
    · unfold mad24Impl at h
      split at h
      · dsimp only at h
        split_ifs at h
      · cases h
      · cases h
      · cases h
      · unfold Mad24Exact
        split <;> simp_all
  | some d =>
    rw [← setWidth_mad24Impl h, ← writes_iff (by decide)]
    refine ⟨fun hright => hright.exact d h, fun hwrites => ⟨fun d' hd' => ?_,
      fun hsat m d' hm hd' => ?_⟩⟩
    · obtain rfl := Option.some.inj (h.symm.trans hd')
      exact hwrites
    · obtain rfl := Option.some.inj (h.symm.trans hd')
      have ht : iType = .s32 ∨ iType = .u32 := by
        cases iType <;> cases mode <;> simp [mad24Impl] at h ⊢
      have hm32 : m.b32 = BitVec.ofInt 32 (mode.part24 (product24 iType a b)) := by
        cases mode with
        | wide => rcases ht with rfl | rfl <;> cases h
        | hi => exact setWidth_mul24Impl hm
        | lo => exact setWidth_mul24Impl hm
      have hsum : sum24 iType mode satMode (mode.part24 (product24 iType a b))
          (iType.value c) = mode.part24 (product24 iType a b) + iType.value c := by
        unfold sum24
        rw [if_neg (by simp [hsat])]
      rw [hsum, BitVec.ofInt_add, ofInt_value ht, ← hm32] at hwrites
      exact hwrites

/-- `mul_impl` and `mul24_impl` write the parts of the exact products of all operands, `mad_def` and
`mad24_impl` those with the addend exactly where their shorter products and sums show them. -/
theorem multiplies_exactly_iff (iType : IntType) (mode : MulMode) (useCarry satMode : Bool)
    (a b c carry : PtxReg) :
    MulRight iType mode a b ∧ Mul24Right iType mode a b ∧
      (MadRight iType mode useCarry a b c carry ↔
        MadExact iType mode a b c (carryBit useCarry carry).toNat) ∧
      (Mad24Right iType mode satMode a b c ↔ Mad24Exact iType mode satMode a b c) :=
  ⟨mulRight iType mode a b, mul24Right iType mode a b,
    madRight_iff iType mode useCarry a b c carry, mad24Right_iff iType mode satMode a b c⟩

/-- `mad.wide.s32` loses the upper half of the product, `mad.hi.u16` the addend, and `mad24.lo.u32`
takes bit 24 of an operand into its product. -/
theorem not_multiplies_exactly : ¬ MadRight .s32 .wide false 65536 65536 0 0 ∧
    ¬ MadRight .u16 .hi false 0 0 1 0 ∧ ¬ Mad24Right .u32 .lo false 0x01000000 1 0 := by
  rw [madRight_iff, madRight_iff, mad24Right_iff]
  simp only [MadExact, Mad24Exact]
  decide

end FlashGpuSim
