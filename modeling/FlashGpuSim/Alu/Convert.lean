import FlashGpuSim.Alu.PtxReg

/-!
Conversions between integer types. A table picks one of four functions for each pair of types; none
of them looks at the saturation mode, and what they leave above the destination type is what a
wider destination register shows.
-/

namespace FlashGpuSim

open Lib PtxReg

/-! ### The code -/

def chop (x : PtxReg) (_fromWidth toWidth : Nat) (_saturationMode : Bool) : Option PtxReg :=
  match toWidth with
  | 8 => some (x.maskAnd 0 0xFF)
  | 16 => some (x.maskAnd 0 0xFFFF)
  | 32 => some (x.maskAnd 0 0xFFFFFFFF)
  | 64 => some x
  | _ => none

/-- A set sign bit is copied above it. -/
def copySign (x : PtxReg) (width : Nat) : Option PtxReg :=
  match width with
  | 8 => some (if x.getBit 7 then x.maskOr 0xFFFFFFFF 0xFFFFFF00 else x)
  | 16 => some (if x.getBit 15 then x.maskOr 0xFFFFFFFF 0xFFFF0000 else x)
  | 32 => some (if x.getBit 31 then x.maskOr 0xFFFFFFFF 0x00000000 else x)
  | 64 => some x
  | _ => none

def sext (x : PtxReg) (fromWidth _toWidth : Nat) (saturationMode : Bool) : Option PtxReg := do
  let x ← chop x 0 fromWidth saturationMode
  copySign x fromWidth

/-- Sign extension from the destination's sign bit. -/
def sexd (x : PtxReg) (fromWidth toWidth : Nat) (saturationMode : Bool) : Option PtxReg := do
  let x ← chop x 0 fromWidth saturationMode
  copySign x toWidth

def zext (x : PtxReg) (fromWidth _toWidth : Nat) (saturationMode : Bool) : Option PtxReg :=
  chop x 0 fromWidth saturationMode

/-- What `type_decode` returns for an integer type. -/
def IntType.fmt : IntType → Nat
  | s8 => 0
  | s16 => 1
  | s32 => 2
  | s64 => 3
  | u8 => 4
  | u16 => 5
  | u32 => 6
  | u64 => 7

abbrev CvtFn := PtxReg → Nat → Nat → Bool → Option PtxReg

/-- The integer rows and columns of `g_cvt_fn`. -/
def gCvtFn : List (List (Option CvtFn)) :=
  [[none, sext, sext, sext, none, sext, sext, sext],
   [chop, none, sext, sext, chop, none, sext, sext],
   [chop, sexd, none, sext, chop, chop, none, sext],
   [chop, chop, chop, none, chop, chop, chop, none],
   [none, zext, zext, zext, none, zext, zext, zext],
   [chop, none, zext, zext, chop, none, zext, zext],
   [chop, chop, none, zext, chop, chop, none, zext],
   [chop, chop, chop, none, chop, chop, chop, none]]

def cvtImpl (toType fromType : IntType) (saturationMode : Bool) (data : PtxReg) :
    Option PtxReg := do
  let row ← gCvtFn[fromType.fmt]?
  match ← row[toType.fmt]? with
  | some cvt => cvt data fromType.width toType.width saturationMode
  | none => return data

/-! ### What a conversion means -/

namespace IntType

def low (t : IntType) : Int := if t.signed then -2 ^ (t.width - 1) else 0

def high (t : IntType) : Int := if t.signed then 2 ^ (t.width - 1) - 1 else 2 ^ t.width - 1

def clamp (t : IntType) (z : Int) : Int := max t.low (min z t.high)

/-- A word of the type, extended to a whole register. -/
def extend (t : IntType) (x : BitVec t.width) : PtxReg :=
  if t.signed then x.signExtend 64 else x.setWidth 64

end IntType

/-- The value that a conversion writes. -/
def converted (toType fromType : IntType) (sat : Bool) (x : PtxReg) : Int :=
  if sat then toType.clamp (fromType.value x) else fromType.value x

/-- The destination register holds the value in its type, extended to its width. -/
def CvtRight (toType fromType : IntType) (sat : Bool) (bytes : Nat) (x : PtxReg) : Prop :=
  ∃ d, cvtImpl toType fromType sat x = some d ∧ setReg bytes d =
    setReg bytes (toType.extend (BitVec.ofInt _ (converted toType fromType sat x)))

/-- A value that the other type has comes back. -/
def CvtRestores (toType fromType : IntType) (sat : Bool) (x : PtxReg) : Prop :=
  toType.low ≤ fromType.value x → fromType.value x ≤ toType.high →
    ∀ bytes, toType.width ≤ bits bytes → ∃ d d', cvtImpl toType fromType sat x = some d ∧
      cvtImpl fromType toType sat (setReg bytes d) = some d' ∧
        ∀ bytes', fromType.width ≤ bits bytes' →
          fromType.value (setReg bytes' d') = fromType.value x

/-- The operands whose bits above the destination type come out right in a register of `w` bits. -/
def CvtExtends (toType fromType : IntType) (w : Nat) (x : PtxReg) : Prop :=
  w ≤ toType.width ∨
    if fromType.width = toType.width then
      ∀ i, toType.width ≤ i → i < w →
        x.getLsbD i = (toType.signed && x.getLsbD (toType.width - 1))
    else if fromType.width < toType.width then
      fromType.signed = true → toType.signed = false → x.getLsbD (fromType.width - 1) = false
    else if fromType = .s32 ∧ toType = .s16 then
      x.getLsbD 15 = true ∨ ∀ i, 16 ≤ i → i < min w 32 → x.getLsbD i = false
    else toType.signed = true → x.getLsbD (toType.width - 1) = false

/-- Saturation is not needed in a register of `w` bits. -/
def CvtFits (toType fromType : IntType) (sat : Bool) (w : Nat) (x : PtxReg) : Prop :=
  sat = true → toType.clamp (fromType.value x) ≡ fromType.value x [ZMOD 2 ^ min w toType.width]

/-! ### The bits that the functions leave -/

section bits

variable {t toType fromType : IntType} {sat : Bool} {x y d : PtxReg}

theorem width_le (t : IntType) : t.width ≤ 64 := by cases t <;> decide

theorem width_pos (t : IntType) : 0 < t.width := by cases t <;> decide

theorem chop_eq (x : PtxReg) (n : Nat) (t : IntType) (sat : Bool) :
    chop x n t.width sat = some ((x.setWidth t.width).setWidth 64) := by
  have hmask : ∀ (w : Nat) (m : BitVec 64), m = (BitVec.allOnes w).setWidth 64 →
      some (x &&& m) = some ((x.setWidth w).setWidth 64) := by
    rintro w m rfl
    rw [and_allOnes]
  have h8 : (0 : BitVec 32) ++ (0xFF : BitVec 32) = (BitVec.allOnes 8).setWidth 64 := by decide
  have h16 : (0 : BitVec 32) ++ (0xFFFF : BitVec 32) = (BitVec.allOnes 16).setWidth 64 := by
    decide
  have h32 : (0 : BitVec 32) ++ (0xFFFFFFFF : BitVec 32) = (BitVec.allOnes 32).setWidth 64 := by
    decide
  have h64 : some x = some ((x.setWidth 64).setWidth 64) := by simp
  cases t with
  | s8 => exact hmask 8 _ h8
  | u8 => exact hmask 8 _ h8
  | s16 => exact hmask 16 _ h16
  | u16 => exact hmask 16 _ h16
  | s32 => exact hmask 32 _ h32
  | u32 => exact hmask 32 _ h32
  | s64 => exact h64
  | u64 => exact h64

theorem getLsbD_chop (h : chop x 0 t.width sat = some d) (i : Nat) :
    d.getLsbD i = (decide (i < t.width) && x.getLsbD i) := by
  have hw := width_le t
  rw [chop_eq] at h
  obtain rfl := Option.some.inj h
  rw [BitVec.getLsbD_setWidth, BitVec.getLsbD_setWidth]
  grind

theorem exists_copySign (y : PtxReg) (t : IntType) : ∃ d, copySign y t.width = some d ∧
    ∀ i < 64, d.getLsbD i =
      (y.getLsbD i || y.getLsbD (t.width - 1) && decide (t.width ≤ i)) := by
  have hmask : ∀ (w : Nat) (m : BitVec 64), m = ~~~ (BitVec.allOnes w).setWidth 64 →
      ∀ i < 64, (if y.getLsbD (w - 1) then y ||| m else y).getLsbD i =
        (y.getLsbD i || y.getLsbD (w - 1) && decide (w ≤ i)) := by
    rintro w m rfl i hi
    split
    · rename_i h
      simp only [BitVec.getLsbD_or, BitVec.getLsbD_not, BitVec.getLsbD_setWidth,
        BitVec.getLsbD_allOnes, h]
      grind
    · rename_i h
      simp [h]
  have hfull : ∀ i < 64, y.getLsbD i = (y.getLsbD i || y.getLsbD 63 && decide (64 ≤ i)) := by
    intro i hi
    simp [hi.not_ge]
  have h8 : (0xFFFFFFFF : BitVec 32) ++ (0xFFFFFF00 : BitVec 32) =
      ~~~ (BitVec.allOnes 8).setWidth 64 := by decide
  have h16 : (0xFFFFFFFF : BitVec 32) ++ (0xFFFF0000 : BitVec 32) =
      ~~~ (BitVec.allOnes 16).setWidth 64 := by decide
  have h32 : (0xFFFFFFFF : BitVec 32) ++ (0x00000000 : BitVec 32) =
      ~~~ (BitVec.allOnes 32).setWidth 64 := by decide
  cases t with
  | s8 => exact ⟨_, rfl, hmask 8 _ h8⟩
  | u8 => exact ⟨_, rfl, hmask 8 _ h8⟩
  | s16 => exact ⟨_, rfl, hmask 16 _ h16⟩
  | u16 => exact ⟨_, rfl, hmask 16 _ h16⟩
  | s32 => exact ⟨_, rfl, hmask 32 _ h32⟩
  | u32 => exact ⟨_, rfl, hmask 32 _ h32⟩
  | s64 => exact ⟨_, rfl, hfull⟩
  | u64 => exact ⟨_, rfl, hfull⟩

/-- What the table picks. -/
theorem cvtImpl_eq (toType fromType : IntType) (sat : Bool) (x : PtxReg) :
    cvtImpl toType fromType sat x =
      if fromType.width = toType.width then some x
      else if fromType.width < toType.width then
        if fromType.signed then sext x fromType.width toType.width sat
        else zext x fromType.width toType.width sat
      else if fromType = .s32 ∧ toType = .s16 then sexd x fromType.width toType.width sat
      else chop x fromType.width toType.width sat := by
  cases fromType <;> cases toType <;> rfl

/-- The bits of a conversion's result. -/
def cvtBit (toType fromType : IntType) (x : PtxReg) (i : Nat) : Bool :=
  if fromType.width = toType.width then x.getLsbD i
  else if fromType.width < toType.width then
    if i < fromType.width then x.getLsbD i
    else fromType.signed && x.getLsbD (fromType.width - 1)
  else if fromType = .s32 ∧ toType = .s16 then
    decide (i < 32) && x.getLsbD i || x.getLsbD 15 && decide (16 ≤ i)
  else decide (i < toType.width) && x.getLsbD i

theorem exists_cvtImpl (toType fromType : IntType) (sat : Bool) (x : PtxReg) :
    ∃ d, cvtImpl toType fromType sat x = some d ∧
      ∀ i < 64, d.getLsbD i = cvtBit toType fromType x i := by
  rw [cvtImpl_eq]
  unfold cvtBit
  split
  · exact ⟨x, rfl, fun i _ => rfl⟩
  · split
    · have hchop := chop_eq x 0 fromType sat
      split
      · rename_i hsigned
        obtain ⟨d, hd, hbits⟩ := exists_copySign ((x.setWidth fromType.width).setWidth 64) fromType
        refine ⟨d, ?_, fun i hi => ?_⟩
        · unfold sext
          rw [hchop]
          exact hd
        · have hpos := width_pos fromType
          rw [hbits i hi, getLsbD_chop hchop, getLsbD_chop hchop, hsigned]
          grind
      · rename_i hunsigned
        refine ⟨_, hchop, fun i hi => ?_⟩
        rw [getLsbD_chop hchop]
        grind
    · split
      · rename_i hpair
        obtain ⟨rfl, rfl⟩ := hpair
        have hchop := chop_eq x 0 .s32 sat
        obtain ⟨d, hd, hbits⟩ :=
          exists_copySign ((x.setWidth IntType.s32.width).setWidth 64) .s16
        refine ⟨d, ?_, fun i hi => ?_⟩
        · unfold sexd
          rw [hchop]
          exact hd
        · have h := hbits i hi
          rw [getLsbD_chop hchop, getLsbD_chop hchop] at h
          exact h
      · rw [chop_eq]
        refine ⟨_, rfl, fun i hi => ?_⟩
        rw [getLsbD_chop (chop_eq x 0 toType sat)]

theorem getLsbD_value (t : IntType) (x : PtxReg) {i : Nat} (hi : i < 64) :
    (BitVec.ofInt 64 (t.value x)).getLsbD i =
      if i < t.width then x.getLsbD i else t.signed && x.getLsbD (t.width - 1) := by
  have hpos := width_pos t
  unfold IntType.value
  cases t.signed with
  | true =>
    rw [if_pos rfl, ← signExtend_eq_ofInt, BitVec.getLsbD_signExtend, BitVec.msb_eq_getLsbD_last]
    simp only [BitVec.getLsbD_setWidth]
    grind
  | false =>
    rw [if_neg (by simp), ← setWidth_eq_ofInt]
    simp only [BitVec.getLsbD_setWidth]
    grind

/-- Below the destination type the result always shows the value. -/
theorem cvtBit_low {i : Nat} (hi : i < toType.width) (x : PtxReg) :
    cvtBit toType fromType x i = (BitVec.ofInt 64 (fromType.value x)).getLsbD i := by
  have hle := width_le toType
  rw [getLsbD_value fromType x (by omega)]
  unfold cvtBit
  split
  · rw [if_pos (by omega)]
  · split
    · rfl
    · split
      · rename_i hpair
        obtain ⟨rfl, rfl⟩ := hpair
        have h16 : i < 16 := hi
        have h32 : i < 32 := by omega
        have hnot : ¬ 16 ≤ i := by omega
        simp [h32, hnot, IntType.width]
      · rw [if_pos (by omega)]
        simp [hi]

theorem getLsbD_extend (t : IntType) (b : BitVec t.width) {i : Nat} (hi : i < 64) :
    (t.extend b).getLsbD i =
      if i < t.width then b.getLsbD i else t.signed && b.getLsbD (t.width - 1) := by
  unfold IntType.extend
  have hge := BitVec.getLsbD_of_ge b i
  cases t.signed with
  | true =>
    rw [if_pos rfl, BitVec.getLsbD_signExtend, BitVec.msb_eq_getLsbD_last]
    grind
  | false =>
    rw [if_neg (by simp), BitVec.getLsbD_setWidth]
    grind

theorem bits_le (bytes : Nat) : PtxReg.bits bytes ≤ 64 := by
  unfold PtxReg.bits
  split <;> omega

theorem setReg_eq_iff {bytes : Nat} : setReg bytes x = setReg bytes y ↔
    ∀ i < PtxReg.bits bytes, x.getLsbD i = y.getLsbD i := by
  have hle := bits_le bytes
  constructor
  · intro h i hi
    have hbit := congrArg (BitVec.getLsbD · i) h
    simpa [getLsbD_setReg, hi] using hbit
  · intro h
    apply BitVec.eq_of_getLsbD_eq
    intro i _
    rw [getLsbD_setReg, getLsbD_setReg]
    grind

/-- Above the destination type the result shows its sign exactly for these operands. -/
theorem cvtExtends_iff {w : Nat} (hw : w ≤ 64) (x : PtxReg) :
    (∀ i, toType.width ≤ i → i < w → cvtBit toType fromType x i =
      (toType.signed && cvtBit toType fromType x (toType.width - 1))) ↔
        CvtExtends toType fromType w x := by
  have hpos := width_pos toType
  have hpos' := width_pos fromType
  unfold CvtExtends
  rcases le_or_gt w toType.width with hle | hgt
  · exact iff_of_true (fun i hi hi' => by omega) (.inl hle)
  · rw [or_iff_right (by omega)]
    unfold cvtBit
    split
    · rfl
    · split
      · rename_i hwider
        have htop : ¬ toType.width - 1 < fromType.width := by omega
        rw [if_neg htop]
        constructor
        · intro h hsigned hunsigned
          have hfirst := h toType.width le_rfl hgt
          rw [if_neg (by omega), hsigned, hunsigned] at hfirst
          simpa using hfirst
        · intro h i hi _
          rw [if_neg (by omega)]
          cases hs : fromType.signed with
          | false => simp
          | true =>
            cases hd : toType.signed with
            | false => simp [h hs hd]
            | true => simp
      · split
        · rename_i hpair
          obtain ⟨rfl, rfl⟩ := hpair
          have hw16 : IntType.s16.width = 16 := rfl
          have hsigned : IntType.s16.signed = true := rfl
          simp only [hw16, hsigned]
          cases htop : x.getLsbD 15 with
          | true => simp +contextual
          | false =>
            simp only [reduceCtorEq, false_or]
            constructor
            · intro h i hi hlt
              have hbit := h i hi (by omega)
              simp [show i < 32 by omega] at hbit
              exact hbit
            · intro h i hi hlt
              rcases lt_or_ge i 32 with h32 | h32
              · simp [h i hi (by omega)]
              · simp [h32.not_gt]
        · have htop : toType.width - 1 < toType.width := by omega
          simp only [htop, decide_true, Bool.true_and]
          constructor
          · intro h hsigned
            have hfirst := h toType.width le_rfl hgt
            rw [hsigned] at hfirst
            simpa using hfirst.symm
          · intro h i hi _
            cases hd : toType.signed with
            | false => simp [hi.not_gt]
            | true => simp [h hd, hi.not_gt]

/-! ### When conversions are right -/

theorem getLsbD_ofInt {n : Nat} (hn : n ≤ 64) (z : Int) {i : Nat} (hi : i < n) :
    (BitVec.ofInt n z).getLsbD i = (BitVec.ofInt 64 z).getLsbD i := by
  rw [← setWidth_ofInt hn, BitVec.getLsbD_setWidth]
  simp [hi]

theorem ofInt_eq_iff_bits {n : Nat} (hn : n ≤ 64) {z z' : Int} :
    z ≡ z' [ZMOD 2 ^ n] ↔
      ∀ i < n, (BitVec.ofInt 64 z).getLsbD i = (BitVec.ofInt 64 z').getLsbD i := by
  rw [← ofInt_eq_iff]
  constructor
  · intro h i hi
    rw [← getLsbD_ofInt hn z hi, h, getLsbD_ofInt hn z' hi]
  · intro h
    apply BitVec.eq_of_getLsbD_eq
    intro i hi
    rw [getLsbD_ofInt hn z hi, h i hi, getLsbD_ofInt hn z' hi]

theorem cvtFits_iff {w : Nat} (x : PtxReg) : CvtFits toType fromType sat w x ↔
    ∀ i, i < w → i < toType.width → cvtBit toType fromType x i =
      (BitVec.ofInt toType.width (converted toType fromType sat x)).getLsbD i := by
  have hle := width_le toType
  have hmod : CvtFits toType fromType sat w x ↔ fromType.value x ≡
      converted toType fromType sat x [ZMOD 2 ^ min w toType.width] := by
    unfold CvtFits converted
    cases sat with
    | true => simpa using Int.modEq_comm
    | false => simp
  rw [hmod, ofInt_eq_iff_bits (by omega)]
  constructor
  · intro h i hi hi'
    rw [cvtBit_low hi', getLsbD_ofInt hle _ hi', h i (by omega)]
  · intro h i hi
    have hi' : i < toType.width := by omega
    have hbit := h i (by omega) hi'
    rwa [cvtBit_low hi', getLsbD_ofInt hle _ hi'] at hbit

theorem cvtRight_iff (toType fromType : IntType) (sat : Bool) (bytes : Nat) (x : PtxReg) :
    CvtRight toType fromType sat bytes x ↔
      CvtFits toType fromType sat (PtxReg.bits bytes) x ∧
        CvtExtends toType fromType (PtxReg.bits bytes) x := by
  have hle := bits_le bytes
  have hpos := width_pos toType
  obtain ⟨d, hd, hbits⟩ := exists_cvtImpl toType fromType sat x
  have hright : CvtRight toType fromType sat bytes x ↔ ∀ i < PtxReg.bits bytes,
      cvtBit toType fromType x i = (toType.extend
        (BitVec.ofInt _ (converted toType fromType sat x))).getLsbD i := by
    constructor
    · rintro ⟨d', hd', hsame⟩ i hi
      obtain rfl := Option.some.inj (hd.symm.trans hd')
      rw [← hbits i (by omega)]
      exact setReg_eq_iff.mp hsame i hi
    · intro h
      refine ⟨d, hd, setReg_eq_iff.mpr fun i hi => ?_⟩
      rw [hbits i (by omega)]
      exact h i hi
  rw [hright, cvtFits_iff, ← cvtExtends_iff hle]
  constructor
  · intro h
    have hlow : ∀ i, i < PtxReg.bits bytes → i < toType.width → cvtBit toType fromType x i =
        (BitVec.ofInt toType.width (converted toType fromType sat x)).getLsbD i := by
      intro i hi hi'
      rw [h i hi, getLsbD_extend _ _ (by omega), if_pos hi']
    refine ⟨hlow, fun i hi hi' => ?_⟩
    rw [h i hi', getLsbD_extend _ _ (by omega), if_neg (by omega),
      hlow (toType.width - 1) (by omega) (by omega)]
  · rintro ⟨hlow, habove⟩ i hi
    rw [getLsbD_extend _ _ (by omega)]
    split
    · rename_i hi'
      exact hlow i hi hi'
    · rw [habove i (by omega) hi, hlow (toType.width - 1) (by omega) (by omega)]

/-! ### There and back -/

/-- A value that a type has is read back from its word. -/
theorem value_of_low {t : IntType} {z : Int} (hlow : t.low ≤ z) (hhigh : z ≤ t.high)
    (hx : x.setWidth t.width = BitVec.ofInt t.width z) : t.value x = z := by
  have hpos := width_pos t
  unfold IntType.value IntType.low IntType.high at *
  rw [hx]
  cases hs : t.signed with
  | true =>
    rw [hs, if_pos rfl] at hlow hhigh
    rw [if_pos rfl]
    exact BitVec.toInt_ofInt_eq_self hpos hlow (by omega)
  | false =>
    rw [hs, if_neg (by simp)] at hlow hhigh
    rw [if_neg (by simp), BitVec.toNat_ofInt]
    push_cast
    rw [Int.emod_eq_of_lt hlow (by omega)]
    exact Int.toNat_of_nonneg hlow

theorem value_bounds (t : IntType) (x : PtxReg) : t.low ≤ t.value x ∧ t.value x ≤ t.high := by
  have hsigned := BitVec.le_toInt (x.setWidth t.width)
  have hsigned' := BitVec.toInt_lt (x := x.setWidth t.width)
  have hunsigned := (x.setWidth t.width).isLt
  unfold IntType.value IntType.low IntType.high
  cases t.signed with
  | true =>
    rw [if_pos rfl, if_pos rfl, if_pos rfl]
    exact ⟨hsigned, by omega⟩
  | false =>
    rw [if_neg (by simp), if_neg (by simp), if_neg (by simp)]
    refine ⟨Int.natCast_nonneg _, ?_⟩
    have hcast : ((x.setWidth t.width).toNat : Int) < 2 ^ t.width := by exact_mod_cast hunsigned
    omega

theorem setWidth_setReg {bytes n : Nat} (hn : n ≤ PtxReg.bits bytes) (x : PtxReg) :
    (setReg bytes x).setWidth n = x.setWidth n := by
  have hle := bits_le bytes
  exact (writes_iff (by omega)).mpr rfl bytes hn

theorem setWidth_cvtImpl (h : cvtImpl toType fromType sat x = some d) :
    d.setWidth toType.width = BitVec.ofInt toType.width (fromType.value x) := by
  have hle := width_le toType
  obtain ⟨d', hd', hbits⟩ := exists_cvtImpl toType fromType sat x
  obtain rfl := Option.some.inj (h.symm.trans hd')
  apply BitVec.eq_of_getLsbD_eq
  intro i hi
  rw [BitVec.getLsbD_setWidth, hbits i (by omega), cvtBit_low hi, getLsbD_ofInt hle _ hi]
  simp [hi]

theorem cvtRestores (toType fromType : IntType) (sat : Bool) (x : PtxReg) :
    CvtRestores toType fromType sat x := by
  intro hlow hhigh bytes hbytes
  obtain ⟨d, hd, -⟩ := exists_cvtImpl toType fromType sat x
  obtain ⟨d', hd', -⟩ := exists_cvtImpl fromType toType sat (setReg bytes d)
  refine ⟨d, d', hd, hd', fun bytes' hbytes' => ?_⟩
  have hthere : toType.value (setReg bytes d) = fromType.value x :=
    value_of_low hlow hhigh ((setWidth_setReg hbytes d).trans (setWidth_cvtImpl hd))
  obtain ⟨hlow', hhigh'⟩ := value_bounds fromType x
  apply value_of_low hlow' hhigh'
  rw [setWidth_setReg hbytes', setWidth_cvtImpl hd', hthere]

end bits

/-- A conversion writes the value, saturated and extended, exactly where no saturation is needed
and the bits above the destination type happen to be its extension; a value that both types have is
always restored. -/
theorem conversions_iff (toType fromType : IntType) (sat : Bool) (bytes : Nat) (x : PtxReg) :
    (CvtRight toType fromType sat bytes x ↔
      CvtFits toType fromType sat (PtxReg.bits bytes) x ∧
        CvtExtends toType fromType (PtxReg.bits bytes) x) ∧
      CvtRestores toType fromType sat x :=
  ⟨cvtRight_iff toType fromType sat bytes x, cvtRestores toType fromType sat x⟩

/-- A negative byte is not extended in a register of 32 bits, and 300 is not clamped to a byte. -/
theorem not_conversions : ¬ CvtRight .s8 .s32 false 4 0xFF ∧ ¬ CvtRight .u8 .s32 true 4 300 := by
  constructor
  · rintro ⟨d, hd, hright⟩
    obtain rfl := Option.some.inj hd
    exact absurd hright (by decide)
  · rintro ⟨d, hd, hright⟩
    obtain rfl := Option.some.inj hd
    exact absurd hright (by decide)

end FlashGpuSim
