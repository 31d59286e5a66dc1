import FlashGpuSim.Alu.PtxReg

/-!
The byte permutation `prmt`. Byte `n` of the eight source bytes is byte `n` of the first operand
and, from 4 on, byte `n - 4` of the second.
-/

namespace FlashGpuSim

open Lib PtxReg

/-- The modes that `prmt_mode_present` knows. -/
inductive PrmtMode
  | f4e | b4e | rc8 | ecl | ecr | rc16
  deriving DecidableEq, Repr

/-! ### The code -/

/-- The tables of `read_byte` -/
def PrmtMode.table : PrmtMode → List (List Nat)
  | f4e => [[0, 1, 2, 3], [1, 2, 3, 4], [2, 3, 4, 5], [3, 4, 5, 6]]
  | b4e => [[0, 7, 6, 5], [1, 0, 7, 6], [2, 1, 0, 7], [3, 2, 1, 0]]
  | rc8 => [[0, 0, 0, 0], [1, 1, 1, 1], [2, 2, 2, 2], [3, 3, 3, 3]]
  | ecl => [[0, 1, 2, 3], [1, 1, 2, 3], [2, 2, 2, 3], [3, 3, 3, 3]]
  | ecr => [[0, 0, 0, 0], [0, 1, 1, 1], [0, 1, 2, 2], [0, 1, 2, 3]]
  | rc16 => [[0, 1, 0, 1], [2, 3, 2, 3], [0, 1, 0, 1], [2, 3, 2, 3]]

/-- `returnval` of `read_byte` before it is moved to its place. -/
def readValue (mode : Option PrmtMode) (control dSelIndex : Nat) (value : BitVec 64) :
    BitVec 32 :=
  match mode with
  | none =>
    if control.testBit 3 then 0xff
    else (value.sshiftRight (8 * control) &&& 0xff).setWidth 32
  | some mode => BitVec.ofNat 32 (mode.table[control]!)[dSelIndex]!

def readByte (mode : Option PrmtMode) (control dSelIndex : Nat) (value : BitVec 64) :
    BitVec 32 :=
  readValue mode control dSelIndex value <<< (8 * dSelIndex)

/-- `ctl`, the selection of each byte. -/
def prmtCtl (mode : Option PrmtMode) (src3 : PtxReg) (i : Nat) : Nat :=
  match mode with
  | none => ((src3.b32.sshiftRight (4 * i)) &&& 0xf).toNat
  | some _ => (src3.b32 &&& 0x3).toNat

/-- `prmt_impl`. The first operand is joined to the second as an `int`. -/
def prmtImpl (mode : Option PrmtMode) (src1 src2 src3 : PtxReg) : PtxReg :=
  let tmpdata := src1.b32.signExtend 64 ||| src2 <<< 32
  let byte i := readByte mode (prmtCtl mode src3 i) i tmpdata
  of32 (0 ||| byte 0 ||| byte 1 ||| byte 2 ||| byte 3)

/-! ### The instruction -/

/-- Byte `n` of the operands `b` and `a`, `a` in the low half. -/
def sourceByte (a b : BitVec 32) (n : Nat) : BitVec 8 := (b ++ a).extractLsb' (8 * n) 8

/-- The source byte that a mode puts at place `i` for the control value `c`. -/
def PrmtMode.selects (mode : PrmtMode) (c i : Nat) : Nat :=
  match mode with
  | f4e => c + i
  | b4e => (c + 8 - i) % 8
  | rc8 => c
  | ecl => max c i
  | ecr => min c i
  | rc16 => 2 * (c % 2) + i % 2

/-- The nibble that selects byte `i` in default mode. -/
def nibble (c : BitVec 32) (i : Nat) : Nat := (c.extractLsb' (4 * i) 4).toNat

/-- Byte `i` of the result. -/
def prmtByte (mode : Option PrmtMode) (a b c : BitVec 32) (i : Nat) : BitVec 8 :=
  match mode with
  | none =>
    let byte := sourceByte a b (nibble c i % 8)
    if nibble c i < 8 then byte else if byte.msb then BitVec.allOnes 8 else 0
  | some mode => sourceByte a b (mode.selects (c.toNat % 4) i)

/-- `prmt_impl` writes the bytes that the instruction selects. -/
def PrmtRight (mode : Option PrmtMode) (src1 src2 src3 : PtxReg) : Prop :=
  ∃ r, Writes 32 (prmtImpl mode src1 src2 src3) r ∧
    ∀ i < 4, r.extractLsb' (8 * i) 8 = prmtByte mode src1.b32 src2.b32 src3.b32 i

/-- The selected bytes that the code gets right: in default mode the sign bits that are set, the
bytes of the first operand, and bytes of the second one where the first is not negative or they
are full; in the other modes the bytes equal to their own number. -/
def ByteRight (mode : Option PrmtMode) (a b c : BitVec 32) (i : Nat) : Prop :=
  match mode with
  | none =>
    if nibble c i < 8 then
      4 ≤ nibble c i → a.msb = true → sourceByte a b (nibble c i) = BitVec.allOnes 8
    else (sourceByte a b (nibble c i % 8)).msb = true
  | some mode =>
    let n := mode.selects (c.toNat % 4) i
    sourceByte a b n = BitVec.ofNat 8 n

instance (a b c : BitVec 32) (i : Nat) :
    (mode : Option PrmtMode) → Decidable (ByteRight mode a b c i)
  | none => inferInstanceAs (Decidable (if nibble c i < 8 then
      4 ≤ nibble c i → a.msb = true → sourceByte a b (nibble c i) = BitVec.allOnes 8
    else (sourceByte a b (nibble c i % 8)).msb = true))
  | some mode => inferInstanceAs (Decidable (sourceByte a b (mode.selects (c.toNat % 4) i) =
      BitVec.ofNat 8 (mode.selects (c.toNat % 4) i)))

theorem nibble_lt (c : BitVec 32) (i : Nat) : nibble c i < 16 := BitVec.isLt _

theorem prmtCtl_none {src3 : PtxReg} {i : Nat} (hi : i < 4) :
    prmtCtl none src3 i = nibble src3.b32 i := by
  have hsame : src3.b32.sshiftRight (4 * i) &&& 0xf =
      (src3.b32.extractLsb' (4 * i) 4).setWidth 32 := by
    apply BitVec.eq_of_getLsbD_eq
    intro j hj
    have hmask : (0xf : BitVec 32) = (BitVec.allOnes 4).setWidth 32 := by decide
    simp only [hmask, BitVec.getLsbD_and, BitVec.getLsbD_sshiftRight, BitVec.getLsbD_setWidth,
      BitVec.getLsbD_allOnes, BitVec.getLsbD_extractLsb', hj]
    have hbit : j < 4 → 4 * i + j < 32 := by omega
    grind
  unfold prmtCtl nibble
  rw [hsame, BitVec.toNat_setWidth, Nat.mod_eq_of_lt (by omega)]

theorem prmtCtl_some {mode : PrmtMode} {src3 : PtxReg} {i : Nat} :
    prmtCtl (some mode) src3 i = src3.b32.toNat % 4 := by
  unfold prmtCtl
  rw [BitVec.toNat_and]
  exact Nat.and_two_pow_sub_one_eq_mod src3.b32.toNat 2

theorem PrmtMode.table_selects (mode : PrmtMode) {c i : Nat} (hc : c < 4) (hi : i < 4) :
    (mode.table[c]!)[i]! = mode.selects c i := by
  interval_cases c <;> interval_cases i <;> cases mode <;> rfl

theorem PrmtMode.selects_lt (mode : PrmtMode) {c i : Nat} (hc : c < 4) (hi : i < 4) :
    mode.selects c i < 8 := by
  cases mode <;> simp only [PrmtMode.selects] <;> omega

/-- Four bytes moved to their places. -/
theorem extract_places (x : Nat → BitVec 8) {i : Nat} (hi : i < 4) :
    ((0 : BitVec 32) ||| (x 0).setWidth 32 <<< (8 * 0) ||| (x 1).setWidth 32 <<< (8 * 1) |||
      (x 2).setWidth 32 <<< (8 * 2) ||| (x 3).setWidth 32 <<< (8 * 3)).extractLsb' (8 * i) 8 =
      x i := by
  apply BitVec.eq_of_getLsbD_eq
  intro j hj
  have habove : ∀ n k, 8 ≤ k → (x n).getLsbD k = false := fun n k hk =>
    BitVec.getLsbD_of_ge _ _ hk
  interval_cases i <;> simp [hj] <;> grind

/-- The byte that `read_byte` reads. -/
def codeByte (mode : Option PrmtMode) (control i : Nat) (value : BitVec 64) : BitVec 8 :=
  (readValue mode control i value).setWidth 8

theorem readValue_eq {mode : Option PrmtMode} {control i : Nat} {value : BitVec 64}
    (hmode : mode ≠ none → control < 4) (hi : i < 4) :
    readValue mode control i value = (codeByte mode control i value).setWidth 32 := by
  unfold codeByte readValue
  cases mode with
  | none =>
    dsimp only
    split
    · rfl
    · apply BitVec.eq_of_getLsbD_eq
      intro j hj
      have hmask : (0xff : BitVec 64) = (BitVec.allOnes 8).setWidth 64 := by decide
      simp only [hmask, BitVec.getLsbD_setWidth, BitVec.getLsbD_and, BitVec.getLsbD_allOnes]
      grind
  | some mode =>
    dsimp only
    have hc := hmode (by simp)
    have hlt := mode.selects_lt hc hi
    rw [mode.table_selects hc hi]
    generalize mode.selects control i = n at hlt
    interval_cases n <;> rfl

/-- The operands as `prmt_impl` joins them. -/
theorem getLsbD_joined (src1 src2 : PtxReg) {n j : Nat} (hn : n < 8) (hj : j < 8) :
    (src1.b32.signExtend 64 ||| src2 <<< 32).getLsbD (8 * n + j) =
      ((sourceByte src1.b32 src2.b32 n).getLsbD j || (decide (4 ≤ n) && src1.b32.msb)) := by
  have hpos : 8 * n + j < 64 := by omega
  have hbyte : (sourceByte src1.b32 src2.b32 n).getLsbD j =
      if 8 * n + j < 32 then src1.b32.getLsbD (8 * n + j)
      else src2.b32.getLsbD (8 * n + j - 32) := by
    rw [sourceByte, BitVec.getLsbD_extractLsb', BitVec.getLsbD_append]
    simp [hj]
  rw [hbyte, BitVec.getLsbD_or, BitVec.getLsbD_signExtend, BitVec.getLsbD_shiftLeft]
  have hhalf : src2.b32.getLsbD (8 * n + j - 32) = src2.getLsbD (8 * n + j - 32) := by
    simp [b32]
    omega
  rw [hhalf]
  by_cases hlow : 8 * n + j < 32
  · have hn4 : ¬ 4 ≤ n := by omega
    simp [hlow, hpos, hn4]
  · have hn4 : 4 ≤ n := by omega
    simp [hlow, hpos, hn4, Bool.or_comm]

theorem getLsbD_codeByte (value : BitVec 64) {n i j : Nat} (hn : n < 8) (hj : j < 8) :
    (codeByte none n i value).getLsbD j = value.getLsbD (8 * n + j) := by
  have hbit : n.testBit 3 = false := Nat.testBit_lt_two_pow hn
  have hmask : (0xff : BitVec 64) = (BitVec.allOnes 8).setWidth 64 := by decide
  have hpos : 8 * n + j < 64 := by omega
  simp only [codeByte, readValue, hbit, hmask, Bool.false_eq_true, if_false,
    BitVec.getLsbD_setWidth, BitVec.getLsbD_and, BitVec.getLsbD_sshiftRight,
    BitVec.getLsbD_allOnes, hj, hpos]
  have hlow : j < 32 ∧ j < 64 := by omega
  simp [hlow.1, hlow.2]

/-- The bytes of the second operand are lost under a negative first one. -/
theorem codeByte_joined (src1 src2 : PtxReg) {n i : Nat} (hn : n < 8) :
    codeByte none n i (src1.b32.signExtend 64 ||| src2 <<< 32) =
      if 4 ≤ n ∧ src1.b32.msb = true then BitVec.allOnes 8
      else sourceByte src1.b32 src2.b32 n := by
  apply BitVec.eq_of_getLsbD_eq
  intro j hj
  rw [getLsbD_codeByte _ hn hj, getLsbD_joined src1 src2 hn hj]
  split
  · rename_i h
    simp only [h.1, h.2, BitVec.getLsbD_allOnes, hj, decide_true, Bool.and_true, Bool.or_true]
  · rename_i h
    grind

theorem codeByte_sign {n i : Nat} (hn : 8 ≤ n) (hlt : n < 16) (value : BitVec 64) :
    codeByte none n i value = BitVec.allOnes 8 := by
  have hbit : n.testBit 3 = true := by interval_cases n <;> decide
  simp [codeByte, readValue, hbit]

/-- One byte of the result. -/
theorem codeByte_iff (mode : Option PrmtMode) (src1 src2 src3 : PtxReg) {i : Nat} (hi : i < 4) :
    codeByte mode (prmtCtl mode src3 i) i (src1.b32.signExtend 64 ||| src2 <<< 32) =
        prmtByte mode src1.b32 src2.b32 src3.b32 i ↔
      ByteRight mode src1.b32 src2.b32 src3.b32 i := by
  cases mode with
  | some mode =>
    have hc : src3.b32.toNat % 4 < 4 := Nat.mod_lt _ (by decide)
    rw [prmtCtl_some]
    simp only [codeByte, readValue, prmtByte, ByteRight, mode.table_selects hc hi]
    have hlt := mode.selects_lt hc hi
    generalize mode.selects _ i = n at hlt
    have hcut : (BitVec.ofNat 32 n).setWidth 8 = BitVec.ofNat 8 n :=
      BitVec.setWidth_ofNat_of_le (by decide) n
    rw [hcut, eq_comm]
  | none =>
    rw [prmtCtl_none hi]
    simp only [prmtByte, ByteRight]
    have hlt := nibble_lt src3.b32 i
    generalize nibble src3.b32 i = n at hlt
    by_cases hn : n < 8
    · rw [codeByte_joined src1 src2 hn, Nat.mod_eq_of_lt hn]
      simp only [hn, if_true]
      split
      · rename_i h
        simp [h.1, h.2, eq_comm]
      · rename_i h
        simp only [true_iff]
        exact fun h4 hneg => absurd ⟨h4, hneg⟩ h
    · rw [codeByte_sign (by omega) hlt]
      simp only [hn, if_false]
      split
      · rename_i h
        simp [h]
      · rename_i h
        simp [h]

/-- `prmt_impl` is right exactly where it gets every byte right. -/
theorem prmtRight_iff (mode : Option PrmtMode) (src1 src2 src3 : PtxReg) :
    PrmtRight mode src1 src2 src3 ↔
      ∀ i < 4, ByteRight mode src1.b32 src2.b32 src3.b32 i := by
  have hplaces := fun i hi => extract_places (fun i =>
    codeByte mode (prmtCtl mode src3 i) i (src1.b32.signExtend 64 ||| src2 <<< 32)) (i := i) hi
  have hmode : ∀ i, mode ≠ none → prmtCtl mode src3 i < 4 := by
    intro i hsome
    cases mode with
    | none => exact absurd rfl hsome
    | some mode =>
      rw [prmtCtl_some]
      exact Nat.mod_lt _ (by decide)
  have hresult : (prmtImpl mode src1 src2 src3).setWidth 32 =
      (0 : BitVec 32) ||| readByte mode (prmtCtl mode src3 0) 0 (src1.b32.signExtend 64 ||| src2 <<< 32) |||
        readByte mode (prmtCtl mode src3 1) 1 (src1.b32.signExtend 64 ||| src2 <<< 32) |||
        readByte mode (prmtCtl mode src3 2) 2 (src1.b32.signExtend 64 ||| src2 <<< 32) |||
        readByte mode (prmtCtl mode src3 3) 3 (src1.b32.signExtend 64 ||| src2 <<< 32) := by
    unfold prmtImpl
    rw [setWidth_of32 (le_refl 32), BitVec.setWidth_eq]
  simp only [readByte, readValue_eq (hmode 0) (by decide : 0 < 4),
    readValue_eq (hmode 1) (by decide : 1 < 4), readValue_eq (hmode 2) (by decide : 2 < 4),
    readValue_eq (hmode 3) (by decide : 3 < 4)] at hresult
  unfold PrmtRight
  simp only [writes_iff (by decide : 32 ≤ 64)]
  constructor
  · rintro ⟨r, hr, hbytes⟩ i hi
    rw [← codeByte_iff mode src1 src2 src3 hi, ← hbytes i hi, ← hr, hresult]
    exact (hplaces i hi).symm
  · intro hall
    refine ⟨_, rfl, fun i hi => ?_⟩
    rw [hresult, ← (codeByte_iff mode src1 src2 src3 hi).mpr (hall i hi)]
    exact hplaces i hi

/-- A byte of the second operand under a negative first one, the sign of a byte that is not
negative and a byte that a mode selects. -/
theorem not_prmtRight : ¬ PrmtRight none 0x80000000 0 0x4 ∧ ¬ PrmtRight none 0 0 0x8 ∧
    ¬ PrmtRight (some .f4e) 0x5 0 0 := by
  simp only [prmtRight_iff]
  refine ⟨fun h => ?_, fun h => ?_, fun h => ?_⟩
  · exact absurd (h 0 (by decide) (by decide) (by decide)) (by decide)
  · exact absurd (h 0 (by decide)) (by decide)
  · exact absurd (h 0 (by decide)) (by decide)

end FlashGpuSim
