import FlashGpuSim.Alu.BitField

/-!
The shifts `shl` and `shr` and the funnel shift `shf`. The types of untyped bits take the cases of
the unsigned types.
-/

namespace FlashGpuSim

open Lib PtxReg

/-! ### The code -/

def shlImpl (iType : IntType) (a b : PtxReg) : Option PtxReg :=
  match iType with
  | .u16 =>
    if 16 ≤ b.b16.toNat then some (of16 0)
    else (shl (a.b16.setWidth 32) b.b16.toNat).map fun d => of16 (d.setWidth 16)
  | .u32 => if 32 ≤ b.b32.toNat then some (of32 0) else (shl a.b32 b.b32.toNat).map of32
  | .u64 => if 64 ≤ b.b32.toNat then some 0 else shl a b.toNat
  | _ => none

/-- The result of a signed shift by a large count, without the last case of `S64_TYPE`. -/
def signFill {w : Nat} (a : BitVec w) : BitVec w := if a.msb then BitVec.allOnes w else 0

def shrImpl (iType : IntType) (a b : PtxReg) : Option PtxReg :=
  match iType with
  | .u16 =>
    if b.b16.toNat < 16 then
      (sar (a.b16.setWidth 32) b.b16.toNat).map fun d => of16 (d.setWidth 16)
    else some (of16 0)
  | .u32 => if b.b32.toNat < 32 then (shr a.b32 b.b32.toNat).map of32 else some (of32 0)
  | .u64 => if b.b32.toNat < 64 then shr a b.toNat else some 0
  | .s16 =>
    if b.b16.toNat < 16 then (sar (a.b16.signExtend 32) b.b16.toNat).map (·.signExtend 64)
    else some ((signFill a.b16).signExtend 64)
  | .s32 =>
    if b.b32.toNat < 32 then (sar a.b32 b.b32.toNat).map (·.signExtend 64)
    else some ((signFill a.b32).signExtend 64)
  | .s64 =>
    if b.toNat < 64 then sar a b.toNat
    else if a.msb && b.b32.msb then some (write32 (BitVec.allOnes 64) 0)
    else some (signFill a)
  | _ => none

/-- The count of `shf_impl` -/
def shfCount (clampMode : Bool) (c : PtxReg) : Nat :=
  if clampMode then if c.b32.toNat < 32 then c.b32.toNat else 32 else (c.b32 &&& 0x1f).toNat

def shfImpl (clampMode leftMode : Bool) (a b c : PtxReg) : Option PtxReg :=
  let n := shfCount clampMode c
  if leftMode then do
    let high ← shl b.b32 n
    let low ← shr a.b32 (32 - n)
    return of32 (high ||| low)
  else do
    let high ← shl b.b32 (32 - n)
    let low ← shr a.b32 n
    return of32 (high ||| low)

/-! ### What the instructions mean -/

/-- The shift amount of `shl` and `shr`, an unsigned word of 32 bits for all types. -/
def shiftAmount (b : PtxReg) : Nat := b.b32.toNat

/-- `shl_impl` writes the product with the power of two, cut to the width. -/
def ShlRight (iType : IntType) (a b : PtxReg) : Prop :=
  ∃ d r, shlImpl iType a b = some d ∧ Writes iType.width d r ∧
    r.toNat = (a.setWidth iType.width).toNat * 2 ^ shiftAmount b % 2 ^ iType.width

/-- `shr_impl` writes the quotient by the power of two, rounded down. -/
def ShrRight (iType : IntType) (a b : PtxReg) : Prop :=
  ∃ d r, shrImpl iType a b = some d ∧ Writes iType.width d r ∧
    (if iType.signed then r.toInt else (r.toNat : Int)) = iType.value a / 2 ^ shiftAmount b

/-- How far `shf` shifts. -/
def funnelAmount (clampMode : Bool) (c : PtxReg) : Nat :=
  if clampMode then min (shiftAmount c) 32 else shiftAmount c % 32

/-- The upper word of the pair shifted to the left, the lower one of the pair shifted to the
right. -/
def funnel (leftMode : Bool) (a b : BitVec 32) (n : Nat) : BitVec 32 :=
  if leftMode then ((b ++ a) <<< n).extractLsb' 32 32 else ((b ++ a) >>> n).extractLsb' 0 32

def ShfRight (clampMode leftMode : Bool) (a b c : PtxReg) : Prop :=
  ∃ d, shfImpl clampMode leftMode a b c = some d ∧
    Writes 32 d (funnel leftMode a.b32 b.b32 (funnelAmount clampMode c))

/-! ### Where the code is right -/

/-- The shifts to the left that come out right. The count of 16 bits is a cut one, and the count
of 64 bits must not have more than 32. -/
def ShlDefined (iType : IntType) (a b : PtxReg) : Prop :=
  match iType with
  | .u16 => b.b16.toNat = shiftAmount b ∨ 16 ≤ b.b16.toNat ∨ a.b16 <<< b.b16.toNat = 0
  | .u32 => True
  | .u64 => 64 ≤ shiftAmount b ∨ b.toNat = shiftAmount b
  | _ => False

/-- The shifts to the right that come out right. -/
def ShrDefined (iType : IntType) (a b : PtxReg) : Prop :=
  match iType with
  | .u16 => b.b16.toNat = shiftAmount b ∨ 16 ≤ b.b16.toNat ∨ a.b16 >>> b.b16.toNat = 0
  | .s16 =>
    b.b16.toNat = shiftAmount b ∨ 16 ≤ b.b16.toNat ∨
      a.b16.sshiftRight b.b16.toNat = signFill a.b16
  | .u32 | .s32 => True
  | .u64 => 64 ≤ shiftAmount b ∨ b.toNat = shiftAmount b
  | .s64 =>
    b.toNat < 64 ∨ if shiftAmount b < 64 then a.sshiftRight (shiftAmount b) = signFill a
      else a.msb = true → shiftAmount b < 2 ^ 31
  | _ => False

/-- The funnel shifts that move some bits of both words. -/
def ShfDefined (clampMode : Bool) (c : PtxReg) : Prop :=
  0 < funnelAmount clampMode c ∧ funnelAmount clampMode c < 32

/-! ### Words -/

section words

variable {w : Nat} (x : BitVec w) {n : Nat}

theorem toNat_shiftLeft_eq : (x <<< n).toNat = x.toNat * 2 ^ n % 2 ^ w := by
  rw [BitVec.toNat_shiftLeft, Nat.shiftLeft_eq]

theorem toNat_shiftRight_eq : ((x >>> n).toNat : Int) = (x.toNat : Int) / 2 ^ n := by
  rw [BitVec.toNat_ushiftRight, Nat.shiftRight_eq_div_pow]
  push_cast
  rfl

theorem toInt_shiftRight_eq : (x.sshiftRight n).toInt = x.toInt / 2 ^ n := by
  rw [BitVec.toInt_sshiftRight, Int.shiftRight_eq_div_pow]
  push_cast
  rfl

theorem sshiftRight_of_ge (h : w ≤ n) : x.sshiftRight n = signFill x := by
  unfold signFill
  apply BitVec.eq_of_getLsbD_eq
  intro i hi
  rw [BitVec.getLsbD_sshiftRight]
  have hge : ¬ n + i < w := by omega
  cases hmsb : x.msb <;> simp [hi, hge]

theorem signFill_cut {k : Nat} (h : k ≤ w) (y : BitVec k) :
    ((signFill y).signExtend w).setWidth k = signFill y := setWidth_signExtend h _

/-- The quotient as a word. -/
def shifted (signed : Bool) (n : Nat) : BitVec w :=
  if signed then x.sshiftRight n else x >>> n

end words

theorem shlRight_iff_word (iType : IntType) (a b : PtxReg) :
    ShlRight iType a b ↔ ∃ d, shlImpl iType a b = some d ∧
      d.setWidth iType.width = (a.setWidth iType.width) <<< shiftAmount b := by
  have hle : iType.width ≤ 64 := by cases iType <;> decide
  simp only [ShlRight, writes_iff hle, ← toNat_shiftLeft_eq, BitVec.toNat_inj]
  constructor
  · rintro ⟨d, r, himpl, rfl, hr⟩
    exact ⟨d, himpl, hr⟩
  · rintro ⟨d, himpl, hr⟩
    exact ⟨d, _, himpl, rfl, hr⟩

theorem shrRight_iff_word (iType : IntType) (a b : PtxReg) :
    ShrRight iType a b ↔ ∃ d, shrImpl iType a b = some d ∧
      d.setWidth iType.width = shifted (a.setWidth iType.width) iType.signed (shiftAmount b) := by
  have hle : iType.width ≤ 64 := by cases iType <;> decide
  have hvalue : ∀ r : BitVec iType.width,
      ((if iType.signed then r.toInt else (r.toNat : Int)) = iType.value a / 2 ^ shiftAmount b) ↔
        r = shifted (a.setWidth iType.width) iType.signed (shiftAmount b) := by
    intro r
    unfold IntType.value shifted
    cases iType.signed with
    | true =>
      simp only [if_true, ← toInt_shiftRight_eq]
      exact BitVec.toInt_inj
    | false =>
      simp only [Bool.false_eq_true, if_false, ← toNat_shiftRight_eq, Int.ofNat_inj]
      exact BitVec.toNat_inj
  simp only [ShrRight, writes_iff hle, hvalue]
  constructor
  · rintro ⟨d, r, himpl, rfl, hr⟩
    exact ⟨d, himpl, hr⟩
  · rintro ⟨d, himpl, hr⟩
    exact ⟨d, _, himpl, rfl, hr⟩

/-- The count of 16 bits is the shift amount or a cut one. -/
theorem b16_amount (b : PtxReg) :
    b.b16.toNat = shiftAmount b ∨ b.b16.toNat < 65536 ∧ 65536 ≤ shiftAmount b := by
  have hcut : b.b16.toNat = shiftAmount b % 65536 := by
    simp [b16, shiftAmount, b32, BitVec.toNat_setWidth]
  omega

theorem shiftAmount_cut {b : PtxReg} (h : b.toNat < 2 ^ 32) : b.toNat = shiftAmount b := by
  simp only [shiftAmount, b32, BitVec.toNat_setWidth]
  omega

section promoted

variable (a : BitVec 16) {n : Nat}

/-- Operands of 16 bits are shifted as `int`s. -/
theorem promoted_shl : ((a.setWidth 32) <<< n).setWidth 16 = a <<< n := by
  apply BitVec.eq_of_getLsbD_eq
  intro i hi
  simp only [BitVec.getLsbD_setWidth, BitVec.getLsbD_shiftLeft]
  grind

theorem promoted_shr (h : n < 16) : ((a.setWidth 32).sshiftRight n).setWidth 16 = a >>> n := by
  apply BitVec.eq_of_getLsbD_eq
  intro i hi
  have habove := BitVec.getLsbD_of_ge a (n + i)
  simp only [BitVec.getLsbD_setWidth, BitVec.getLsbD_sshiftRight, BitVec.getLsbD_ushiftRight]
  grind

theorem promoted_sar (h : n < 16) :
    (((a.signExtend 32).sshiftRight n).signExtend 64).setWidth 16 = a.sshiftRight n := by
  apply BitVec.eq_of_getLsbD_eq
  intro i hi
  have hpos : i < 64 ∧ i < 32 ∧ n + i < 32 := by omega
  simp only [BitVec.getLsbD_setWidth, BitVec.getLsbD_signExtend, BitVec.getLsbD_sshiftRight, hi,
    hpos.1, hpos.2.1, hpos.2.2, decide_true, Bool.true_and, if_true]
  have hmsb := BitVec.msb_eq_getLsbD_last a
  grind

end promoted

theorem shlRight_iff (iType : IntType) (a b : PtxReg) :
    ShlRight iType a b ↔ ShlDefined iType a b := by
  rw [shlRight_iff_word]
  cases iType with
  | u16 =>
    show (∃ d, shlImpl .u16 a b = some d ∧ d.setWidth 16 = a.b16 <<< shiftAmount b) ↔ _
    have hamount := b16_amount b
    simp only [shlImpl, ShlDefined]
    by_cases hlarge : 16 ≤ b.b16.toNat
    · have hzero : a.b16 <<< shiftAmount b = 0 := BitVec.shiftLeft_eq_zero (by omega)
      simp [hlarge, hzero, of16]
    · have hlt : b.b16.toNat < 32 := by omega
      simp only [hlarge, if_false, shl, hlt, if_true, Option.map_some, Option.some.injEq,
        exists_eq_left', setWidth_of16 (le_refl 16), BitVec.setWidth_eq, promoted_shl, false_or]
      rcases hamount with heq | ⟨hcut, hbig⟩
      · simp [heq]
      · have hzero : a.b16 <<< shiftAmount b = 0 := BitVec.shiftLeft_eq_zero (by omega)
        have hne : b.b16.toNat ≠ shiftAmount b := by omega
        simp [hzero, hne]
  | u32 =>
    show (∃ d, shlImpl .u32 a b = some d ∧ d.setWidth 32 = a.b32 <<< shiftAmount b) ↔ True
    simp only [shlImpl, iff_true]
    by_cases hlarge : 32 ≤ b.b32.toNat
    · have hzero : a.b32 <<< shiftAmount b = 0 := BitVec.shiftLeft_eq_zero hlarge
      simp [hlarge, hzero, of32]
    · have hlt : b.b32.toNat < 32 := by omega
      simp [hlarge, shl, hlt, shiftAmount]
  | u64 =>
    show (∃ d, shlImpl .u64 a b = some d ∧ d.setWidth 64 = a.setWidth 64 <<< shiftAmount b) ↔ _
    simp only [shlImpl, ShlDefined, BitVec.setWidth_eq]
    by_cases hlarge : 64 ≤ b.b32.toNat
    · have hzero : a <<< shiftAmount b = 0 := BitVec.shiftLeft_eq_zero hlarge
      have hge : 64 ≤ shiftAmount b := hlarge
      simp [hlarge, hzero, hge]
    · have hge : ¬ 64 ≤ shiftAmount b := hlarge
      simp only [hlarge, if_false, shl, hge, false_or]
      split
      · rename_i hlt
        have heq := shiftAmount_cut (b := b) (by omega)
        simp [heq]
      · have hne : b.toNat ≠ shiftAmount b := by omega
        simp [hne]
  | _ => simp [shlImpl, ShlDefined]

theorem allOnes_ne_write32 : BitVec.allOnes 64 ≠ write32 (BitVec.allOnes 64) 0 := by decide

theorem shrRight_iff (iType : IntType) (a b : PtxReg) :
    ShrRight iType a b ↔ ShrDefined iType a b := by
  rw [shrRight_iff_word]
  cases iType with
  | u16 =>
    show (∃ d, shrImpl .u16 a b = some d ∧ d.setWidth 16 = a.b16 >>> shiftAmount b) ↔ _
    have hamount := b16_amount b
    simp only [shrImpl, ShrDefined]
    by_cases hsmall : b.b16.toNat < 16
    · have hlt : b.b16.toNat < 32 := by omega
      have hlarge : ¬ 16 ≤ b.b16.toNat := by omega
      simp only [hsmall, hlarge, if_true, sar, hlt, Option.map_some, Option.some.injEq,
        exists_eq_left', setWidth_of16 (le_refl 16), BitVec.setWidth_eq, promoted_shr a.b16 hsmall,
        false_or]
      rcases hamount with heq | ⟨hcut, hbig⟩
      · simp [heq]
      · have hzero : a.b16 >>> shiftAmount b = 0 := BitVec.ushiftRight_eq_zero (by omega)
        have hne : b.b16.toNat ≠ shiftAmount b := by omega
        simp [hzero, hne]
    · have hzero : a.b16 >>> shiftAmount b = 0 := BitVec.ushiftRight_eq_zero (by omega)
      have hlarge : 16 ≤ b.b16.toNat := by omega
      simp [hsmall, hlarge, hzero, of16]
  | s16 =>
    show (∃ d, shrImpl .s16 a b = some d ∧ d.setWidth 16 = a.b16.sshiftRight (shiftAmount b)) ↔ _
    have hamount := b16_amount b
    simp only [shrImpl, ShrDefined]
    by_cases hsmall : b.b16.toNat < 16
    · have hlt : b.b16.toNat < 32 := by omega
      have hlarge : ¬ 16 ≤ b.b16.toNat := by omega
      simp only [hsmall, hlarge, if_true, sar, hlt, Option.map_some, Option.some.injEq,
        exists_eq_left', promoted_sar a.b16 hsmall, false_or]
      rcases hamount with heq | ⟨hcut, hbig⟩
      · simp [heq]
      · have hfill := sshiftRight_of_ge a.b16 (n := shiftAmount b) (by omega)
        have hne : b.b16.toNat ≠ shiftAmount b := by omega
        simp [hfill, hne]
    · have hfill := sshiftRight_of_ge a.b16 (n := shiftAmount b) (by omega)
      have hlarge : 16 ≤ b.b16.toNat := by omega
      simp [hsmall, hlarge, hfill, signFill_cut]
  | u32 =>
    show (∃ d, shrImpl .u32 a b = some d ∧ d.setWidth 32 = a.b32 >>> shiftAmount b) ↔ True
    simp only [shrImpl, iff_true]
    by_cases hsmall : b.b32.toNat < 32
    · simp [hsmall, shr, shiftAmount]
    · have hzero : a.b32 >>> shiftAmount b = 0 :=
        BitVec.ushiftRight_eq_zero (Nat.le_of_not_lt hsmall)
      simp [hsmall, hzero, of32]
  | s32 =>
    show (∃ d, shrImpl .s32 a b = some d ∧ d.setWidth 32 = a.b32.sshiftRight (shiftAmount b)) ↔ True
    simp only [shrImpl, iff_true]
    by_cases hsmall : b.b32.toNat < 32
    · simp [hsmall, sar, shiftAmount, setWidth_signExtend]
    · have hfill := sshiftRight_of_ge a.b32 (Nat.le_of_not_lt hsmall : 32 ≤ shiftAmount b)
      simp [hsmall, hfill, signFill_cut]
  | u64 =>
    show (∃ d, shrImpl .u64 a b = some d ∧ d.setWidth 64 = a.setWidth 64 >>> shiftAmount b) ↔ _
    simp only [shrImpl, ShrDefined, BitVec.setWidth_eq]
    by_cases hsmall : b.b32.toNat < 64
    · have hge : ¬ 64 ≤ shiftAmount b := Nat.not_le.mpr hsmall
      simp only [hsmall, if_true, shr, hge, false_or]
      split
      · rename_i hlt
        have heq := shiftAmount_cut (b := b) (by omega)
        simp [heq]
      · have hne : b.toNat ≠ shiftAmount b := by
          intro heq
          omega
        simp [hne]
    · have hge : 64 ≤ shiftAmount b := Nat.le_of_not_lt hsmall
      have hzero : a >>> shiftAmount b = 0 := BitVec.ushiftRight_eq_zero hge
      simp [hsmall, hge, hzero]
  | s64 =>
    show (∃ d, shrImpl .s64 a b = some d ∧
      d.setWidth 64 = (a.setWidth 64).sshiftRight (shiftAmount b)) ↔ _
    simp only [shrImpl, ShrDefined, BitVec.setWidth_eq]
    by_cases hsmall : b.toNat < 64
    · have heq := shiftAmount_cut (b := b) (by omega)
      simp only [hsmall, if_true, true_or, iff_true, sar]
      exact ⟨_, rfl, by rw [heq]⟩
    · have hneg : b.b32.msb = true ↔ 2 ^ 31 ≤ shiftAmount b := by
        rw [BitVec.msb_eq_decide]
        simp [shiftAmount]
      simp only [hsmall, if_false, false_or]
      by_cases hn : shiftAmount b < 64
      · have hpos : b.b32.msb = false := by
          rw [← Bool.not_eq_true, hneg]
          omega
        simp [hn, hpos, eq_comm]
      · have hfill := sshiftRight_of_ge a (n := shiftAmount b) (by omega)
        rw [if_neg hn, hfill]
        by_cases hmsb : a.msb = true
        · by_cases hb : b.b32.msb = true
          · have hfull : signFill a = BitVec.allOnes 64 := if_pos hmsb
            rw [hmsb, hb, hfull]
            refine iff_of_false ?_ fun h => ?_
            · rintro ⟨d, hd, hall⟩
              cases hd
              exact allOnes_ne_write32 hall.symm
            · exact absurd (hneg.mp hb) (Nat.not_le.mpr (h rfl))
          · have hlt : shiftAmount b < 2 ^ 31 := Nat.lt_of_not_le (mt hneg.mpr hb)
            refine iff_of_true ⟨_, ?_, rfl⟩ fun _ => hlt
            simp [hb]
        · simp [hmsb]
  | _ => simp [shrImpl, ShrDefined]

theorem shfCount_eq (clampMode : Bool) (c : PtxReg) :
    shfCount clampMode c = funnelAmount clampMode c := by
  unfold shfCount funnelAmount shiftAmount
  cases clampMode with
  | true =>
    simp only [if_true]
    split
    · omega
    · omega
  | false =>
    simp only [Bool.false_eq_true, if_false]
    rw [BitVec.toNat_and]
    exact Nat.and_two_pow_sub_one_eq_mod c.b32.toNat 5

theorem funnelAmount_le (clampMode : Bool) (c : PtxReg) : funnelAmount clampMode c ≤ 32 := by
  unfold funnelAmount
  split
  · omega
  · omega

/-- The two halves of a funnel shift. -/
theorem funnel_halves (leftMode : Bool) (a b : BitVec 32) {n : Nat} (hlt : n < 32) :
    funnel leftMode a b n =
      if leftMode then b <<< n ||| a >>> (32 - n) else b <<< (32 - n) ||| a >>> n := by
  apply BitVec.eq_of_getLsbD_eq
  intro i hi
  have ha := BitVec.getLsbD_of_ge a
  unfold funnel
  cases leftMode with
  | true =>
    simp only [if_true, BitVec.getLsbD_extractLsb', BitVec.getLsbD_shiftLeft,
      BitVec.getLsbD_append, BitVec.getLsbD_or, BitVec.getLsbD_ushiftRight]
    grind
  | false =>
    simp only [Bool.false_eq_true, if_false, BitVec.getLsbD_extractLsb', BitVec.getLsbD_shiftLeft,
      BitVec.getLsbD_append, BitVec.getLsbD_or, BitVec.getLsbD_ushiftRight]
    grind

theorem shfRight_iff (clampMode leftMode : Bool) (a b c : PtxReg) :
    ShfRight clampMode leftMode a b c ↔ ShfDefined clampMode c := by
  have hle := funnelAmount_le clampMode c
  unfold ShfRight ShfDefined shfImpl
  rw [shfCount_eq]
  generalize funnelAmount clampMode c = n at hle
  simp only [writes_iff (by decide : 32 ≤ 64)]
  by_cases hdef : 0 < n ∧ n < 32
  · have hlt : 32 - n < 32 := by omega
    have hhalves := funnel_halves leftMode a.b32 b.b32 hdef.2
    cases leftMode with
    | true => simp [shl, shr, hdef, hlt, hhalves]
    | false => simp [shl, shr, hdef, hlt, hhalves]
  · have hedge : ¬ n < 32 ∨ ¬ 32 - n < 32 := by omega
    refine iff_of_false ?_ hdef
    cases leftMode with
    | true => rcases hedge with h | h <;> simp [shl, shr, h]
    | false => rcases hedge with h | h <;> simp [shl, shr, h]

/-- The shifts are total and exact for these operands and for no others. -/
theorem shifts_iff (iType : IntType) (clampMode leftMode : Bool) (a b c : PtxReg) :
    (ShlRight iType a b ↔ ShlDefined iType a b) ∧
    (ShrRight iType a b ↔ ShrDefined iType a b) ∧
    (ShfRight clampMode leftMode a b c ↔ ShfDefined clampMode c) :=
  ⟨shlRight_iff iType a b, shrRight_iff iType a b, shfRight_iff clampMode leftMode a b c⟩

/-- A count that is cut to nothing, counts with bits above the 32 that matter, a negative word
shifted by a count whose own top bit is set, and a funnel shift by nothing. -/
theorem not_shifts : ¬ ShlRight .u16 1 0x10000 ∧ ¬ ShlRight .u64 1 0x100000000 ∧
    ¬ ShrRight .s64 (BitVec.allOnes 64) 0x80000000 ∧ ¬ ShfRight false true 1 2 0 := by
  simp only [shlRight_iff, shrRight_iff, shfRight_iff, ShlDefined, ShrDefined, ShfDefined]
  decide

end FlashGpuSim
