import Mathlib.Tactic

/-!
Words of a fixed width as integers. An operation on words is the one on integers followed by a cut,
so a computation in words of several widths is read off from the integers.
-/

namespace Lib

variable {n m k : Nat} {z z' : Int}

theorem ofInt_eq_iff : BitVec.ofInt n z = BitVec.ofInt n z' ↔ z ≡ z' [ZMOD 2 ^ n] := by
  have hpos : (0 : Int) < 2 ^ n := by positivity
  rw [← BitVec.toNat_inj, BitVec.toNat_ofInt, BitVec.toNat_ofInt, Int.ModEq]
  push_cast
  have hz := Int.emod_nonneg z hpos.ne'
  have hz' := Int.emod_nonneg z' hpos.ne'
  omega

theorem setWidth_ofInt (h : n ≤ m) : (BitVec.ofInt m z).setWidth n = BitVec.ofInt n z := by
  have hpos : (0 : Int) < 2 ^ m := by positivity
  apply BitVec.eq_of_toNat_eq
  apply Int.ofNat_inj.mp
  have hpos' : (0 : Int) < 2 ^ n := by positivity
  rw [BitVec.toNat_setWidth, BitVec.toNat_ofInt, BitVec.toNat_ofInt]
  push_cast
  rw [Int.toNat_of_nonneg (Int.emod_nonneg z hpos.ne'),
    Int.toNat_of_nonneg (Int.emod_nonneg z hpos'.ne')]
  exact Int.emod_emod_of_dvd z (pow_dvd_pow 2 h)

theorem ofInt_toNat (x : BitVec n) : BitVec.ofInt n x.toNat = x := by simp

theorem setWidth_eq_ofInt (x : BitVec m) : x.setWidth n = BitVec.ofInt n x.toNat :=
  (BitVec.ofNat_toNat n x).symm

theorem signExtend_eq_ofInt (x : BitVec m) : x.signExtend n = BitVec.ofInt n x.toInt := rfl

/-- An extension shows the word below it. -/
theorem setWidth_signExtend (h : n ≤ m) (x : BitVec n) : (x.signExtend m).setWidth n = x := by
  rw [signExtend_eq_ofInt, setWidth_ofInt h, BitVec.ofInt_toInt]

/-- Bits that a shift brings down are those of the quotient. -/
theorem ediv_modEq (hz : z ≡ z' [ZMOD 2 ^ m]) (h : n + k ≤ m) :
    z / 2 ^ k ≡ z' / 2 ^ k [ZMOD 2 ^ n] := by
  obtain ⟨q, hq⟩ := (hz.of_dvd (pow_dvd_pow 2 h)).dvd
  have hz' : z' = z + 2 ^ k * (2 ^ n * q) := by
    rw [eq_add_of_sub_eq' hq, pow_add]
    ring
  rw [hz', Int.add_mul_ediv_left _ _ (by positivity : (2 : Int) ^ k ≠ 0)]
  exact (Int.modEq_iff_dvd.mpr ⟨q, by ring⟩)

theorem setWidth_sshiftRight (h : n + k ≤ m) :
    ((BitVec.ofInt m z).sshiftRight k).setWidth n = BitVec.ofInt n (z / 2 ^ k) := by
  rw [BitVec.sshiftRight, setWidth_ofInt (by omega), ofInt_eq_iff, Int.shiftRight_eq_div_pow]
  push_cast
  refine ediv_modEq ?_ h
  rw [← ofInt_eq_iff, BitVec.ofInt_toInt]

theorem setWidth_ushiftRight (h : n + k ≤ m) :
    ((BitVec.ofInt m z) >>> k).setWidth n = BitVec.ofInt n (z / 2 ^ k) := by
  rw [setWidth_eq_ofInt, ofInt_eq_iff, BitVec.toNat_ushiftRight, Nat.shiftRight_eq_div_pow]
  push_cast
  refine ediv_modEq ?_ h
  rw [← ofInt_eq_iff, ofInt_toNat]

/-! ### Masks -/

/-- The low bits are kept. -/
theorem and_allOnes (x : BitVec n) (k : Nat) :
    x &&& (BitVec.allOnes k).setWidth n = (x.setWidth k).setWidth n := by
  apply BitVec.eq_of_getLsbD_eq
  intro i hi
  simp [hi, Bool.and_comm]

/-- A word whose sign bit is set is extended by ones. -/
theorem or_not_allOnes {x : BitVec k} (h : x.msb = true) :
    x.setWidth n ||| ~~~ (BitVec.allOnes k).setWidth n = x.signExtend n := by
  apply BitVec.eq_of_getLsbD_eq
  intro i hi
  rw [BitVec.getLsbD_signExtend]
  simp [hi, h, Bool.or_comm]

end Lib
