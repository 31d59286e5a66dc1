import FlashGpuSim.Alu.PtxReg

/-!
The bit-field instructions. A shift whose count is not below the width of its operand has no
meaning in the host language, and neither has a search that does not end: both are `none`.
-/

namespace FlashGpuSim

open Lib PtxReg

/-- `<<` -/
def shl {w : Nat} (x : BitVec w) (count : Nat) : Option (BitVec w) :=
  if count < w then some (x <<< count) else none

/-- `>>` of an unsigned operand -/
def shr {w : Nat} (x : BitVec w) (count : Nat) : Option (BitVec w) :=
  if count < w then some (x >>> count) else none

/-- `>>` of a signed operand -/
def sar {w : Nat} (x : BitVec w) (count : Nat) : Option (BitVec w) :=
  if count < w then some (x.sshiftRight count) else none

/-- The types of the instructions on untyped bits. -/
inductive BitType
  | b32 | b64
  deriving DecidableEq, Repr

def BitType.width : BitType → Nat
  | b32 => 32
  | b64 => 64

/-- Writes to the low half of a register. -/
def PtxReg.write32 (x : PtxReg) (v : BitVec 32) : PtxReg := x.extractLsb' 32 32 ++ v

/-! ### The code -/

/-- The bits of a control operand that count. -/
def fieldOperand (x : PtxReg) : BitVec 32 := x.b32 &&& 0xFF

/-- The cases `U32_TYPE` and `U64_TYPE` of `bfe_impl` -/
def bfeUnsigned {w : Nat} (src : BitVec w) (pos len : BitVec 32) : Option (BitVec w) := do
  let data ← shr src pos.toNat
  let mask ← shr (BitVec.allOnes w) (BitVec.ofNat 32 w - len).toNat
  return data &&& mask

/-- `sbit`, by which the signed cases of `bfe_impl` extend a field. -/
def bfeSbit {w : Nat} (src : BitVec w) (pos len : BitVec 32) : Option Bool :=
  let msb := BitVec.ofNat 32 (w - 1)
  let min := if pos + len - 1 < msb then pos + len - 1 else msb
  if len = 0 then some false else (sar src min.toNat).map (·.getLsbD 0)

/-- The cases `S32_TYPE` and `S64_TYPE` of `bfe_impl` -/
def bfeSigned {w : Nat} (src : BitVec w) (pos len : BitVec 32) : Option (BitVec w) := do
  let sbit ← bfeSbit src pos len
  let data ← sar src pos.toNat
  if sbit then
    let mask ← shl (BitVec.allOnes w) len.toNat
    return data ||| mask
  else
    let mask ← shr (BitVec.allOnes w) (BitVec.ofNat 32 w - len).toNat
    return data &&& mask

def bfeImpl (iType : IntType) (src b c : PtxReg) : Option PtxReg :=
  let pos := fieldOperand b
  let len := fieldOperand c
  match iType with
  | .u32 => (bfeUnsigned src.b32 pos len).map of32
  | .u64 => bfeUnsigned src pos len
  | .s32 => (bfeSigned src.b32 pos len).map of32
  | .s64 => bfeSigned src pos len
  | _ => none

/-- The loop of `bfi_impl`, with `n` bits left of the field. The bits are those of `int`s and of
the low half of the register. -/
def bfiLoop (max pos : Nat) (src1 : BitVec 32) : Nat → Nat → PtxReg → Option PtxReg
  | 0, _, data => some data
  | n + 1, i, data =>
    if pos + i < max then do
      let bit ← shl (1 : BitVec 32) (pos + i)
      let source ← shl (1 : BitVec 32) i
      let moved ← shl (src1 &&& source) pos
      bfiLoop max pos src1 n (i + 1) (data.write32 (~~~bit &&& data.b32 ||| moved))
    else some data

def bfiImpl (iType : BitType) (src1 src2 src3 src4 : PtxReg) : Option PtxReg :=
  let pos := fieldOperand src3
  let len := fieldOperand src4
  bfiLoop iType.width pos.toNat src1.b32 len.toNat 0 src2

/-- The search of `bfind_impl` from a bit downwards. Below bit 0 the unsigned index is
`0xffffffff`, by which nothing can be shifted. -/
def bfindLoop (a : BitVec 64) : Nat → Option (BitVec 32)
  | 0 => do
    let bit ← shl (1 : BitVec 32) 0
    if a &&& bit.signExtend 64 ≠ 0 then return 0 else none
  | i + 1 => do
    let bit ← shl (1 : BitVec 32) (i + 1)
    if a &&& bit.signExtend 64 ≠ 0 then return BitVec.ofNat 32 (i + 1) else bfindLoop a i

/-- Negative signed operands are complemented. -/
def bfindOperand (signed : Bool) (msb : Nat) (a : BitVec 64) : Option (BitVec 64) :=
  if signed then
    (shl (1 : BitVec 32) msb).map fun bit => if a &&& bit.signExtend 64 ≠ 0 then ~~~ a else a
  else some a

/-- The search, with the operand as an `unsigned long`. -/
def bfindFrom (signed : Bool) (msb : Nat) (a : BitVec 64) : Option PtxReg := do
  let a ← bfindOperand signed msb a
  let d ← bfindLoop a msb
  return of32 d

def bfindImpl (iType : IntType) (src : PtxReg) : Option PtxReg :=
  match iType with
  | .s32 => bfindFrom true 31 (src.b32.signExtend 64)
  | .u32 => bfindFrom false 31 (src.b32.setWidth 64)
  | .s64 => bfindFrom true 63 src
  | .u64 => bfindFrom false 63 src
  | _ => none

/-- The loop bodies of `brev_impl`, with `int`s shifted in both. -/
def brevStep32 (src data : PtxReg) (i : Nat) : Option PtxReg := do
  let bit ← shl (1 : BitVec 32) i
  if src.b32 &&& bit ≠ 0 then
    let moved ← shl (1 : BitVec 32) (31 - i)
    return data.write32 (data.b32 ||| moved)
  else return data

def brevStep64 (src data : PtxReg) (i : Nat) : Option PtxReg := do
  let bit ← shl (1 : BitVec 32) i
  if src &&& bit.signExtend 64 ≠ 0 then
    let moved ← shl (1 : BitVec 32) (63 - i)
    return data ||| moved.signExtend 64
  else return data

def brevImpl (iType : BitType) (src : PtxReg) : Option PtxReg :=
  match iType with
  | .b32 => (List.range 32).foldlM (brevStep32 src) 0
  | .b64 => (List.range 64).foldlM (brevStep64 src) 0

/-! ### What the instructions mean -/

/-- The field of `len` bits from `pos` on, extended by its sign or by zeros. -/
def Bfe {w : Nat} (signed : Bool) (src : BitVec w) (pos len : Nat) (d : BitVec w) : Prop :=
  ∀ i < w, d.getLsbD i =
    if i < len ∧ pos + i < w then src.getLsbD (pos + i)
    else signed && decide (len ≠ 0) && src.getLsbD (min (pos + len - 1) (w - 1))

/-- The low bits of `a` in the place of `len` bits of `b` from `pos` on. -/
def Bfi {w : Nat} (a b : BitVec w) (pos len : Nat) (d : BitVec w) : Prop :=
  ∀ i < w, d.getLsbD i =
    if pos ≤ i ∧ i < pos + len then a.getLsbD (i - pos) else b.getLsbD i

/-- A bit that is not as the sign. -/
def Differs {w : Nat} (signed : Bool) (src : BitVec w) (p : Nat) : Prop :=
  p < w ∧ src.getLsbD p ≠ (signed && src.msb)

/-- The position of the most significant bit that is not as the sign, or how far it has to be
shifted up. -/
def Bfind {w : Nat} (signed shiftamt : Bool) (src : BitVec w) (d : BitVec 32) : Prop :=
  (∃ p, Differs signed src p ∧ (∀ q, p < q → ¬ Differs signed src q) ∧
    d = BitVec.ofNat 32 (if shiftamt then w - 1 - p else p)) ∨
  (∀ p, ¬ Differs signed src p) ∧ d = 0xFFFFFFFF

/-! ### Fields -/

theorem fieldOperand_lt (x : PtxReg) : (fieldOperand x).toNat < 256 := by
  unfold fieldOperand
  rw [BitVec.toNat_and]
  exact Nat.lt_of_le_of_lt Nat.and_le_right (by decide)

section extract

variable {w : Nat} {src : BitVec w} {pos len : BitVec 32}

/-- The count by which the mask of a field is shifted down. -/
theorem mask_count (hw : w ≤ 64) (hlen : len.toNat < 256) :
    (BitVec.ofNat 32 w - len).toNat < w ↔ 0 < len.toNat ∧ len.toNat ≤ w := by
  rw [BitVec.toNat_sub, BitVec.toNat_ofNat]
  omega

theorem mask_count_eq (hw : w ≤ 64) (hlen : len.toNat ≤ w) :
    (BitVec.ofNat 32 w - len).toNat = w - len.toNat := by
  rw [BitVec.toNat_sub, BitVec.toNat_ofNat]
  omega

/-- The unsigned field is right exactly where both shifts have a meaning. -/
theorem bfeUnsigned_iff (hw : w ≤ 64) (hlen : len.toNat < 256) :
    (∃ d, bfeUnsigned src pos len = some d ∧ Bfe false src pos.toNat len.toNat d) ↔
      pos.toNat < w ∧ 0 < len.toNat ∧ len.toNat ≤ w := by
  rw [← mask_count hw hlen]
  unfold bfeUnsigned shr
  constructor
  · rintro ⟨d, h, -⟩
    split at h
    · rename_i hpos
      split at h
      · rename_i hmask
        exact ⟨hpos, hmask⟩
      · cases h
    · cases h
  · rintro ⟨hpos, hmask⟩
    rw [if_pos hpos, if_pos hmask]
    refine ⟨_, rfl, fun i hi => ?_⟩
    obtain ⟨-, hle⟩ := (mask_count hw hlen).mp hmask
    rw [mask_count_eq hw hle]
    simp only [BitVec.getLsbD_and, BitVec.getLsbD_ushiftRight, BitVec.getLsbD_allOnes,
      Bool.false_and]
    have := BitVec.getLsbD_of_ge src (pos.toNat + i)
    grind

/-- The bit that extends a signed field. -/
def signBit (src : BitVec w) (pos len : Nat) : Bool :=
  decide (len ≠ 0) && src.getLsbD (min (pos + len - 1) (w - 1))

theorem min_toNat (hw : w ≤ 64) (hpos : pos.toNat < 256) (hlen : len.toNat < 256)
    (hne : len ≠ 0) :
    (if pos + len - 1 < BitVec.ofNat 32 (w - 1) then pos + len - 1
      else BitVec.ofNat 32 (w - 1)).toNat = min (pos.toNat + len.toNat - 1) (w - 1) := by
  have hlen' : 0 < len.toNat := by
    rw [Nat.pos_iff_ne_zero]
    exact fun h => hne (BitVec.eq_of_toNat_eq h)
  have hsum : (pos + len - 1).toNat = pos.toNat + len.toNat - 1 := by
    rw [BitVec.toNat_sub, BitVec.toNat_add]
    show (2 ^ 32 - 1 + _) % 2 ^ 32 = _
    omega
  have hmsb : (BitVec.ofNat 32 (w - 1)).toNat = w - 1 := by
    rw [BitVec.toNat_ofNat]
    omega
  split
  · rename_i h
    rw [BitVec.lt_def, hsum, hmsb] at h
    rw [hsum]
    omega
  · rename_i h
    rw [BitVec.lt_def, hsum, hmsb] at h
    rw [hmsb]
    omega

theorem bfeSbit_eq (hw : w ≤ 64) (hpos : pos.toNat < 256) (hlen : len.toNat < 256)
    (hwpos : 0 < w) : bfeSbit src pos len = some (signBit src pos.toNat len.toNat) := by
  unfold bfeSbit signBit
  split
  · rename_i heq
    rw [heq]
    rfl
  · rename_i hne
    have hne' : len.toNat ≠ 0 := fun h => hne (BitVec.eq_of_toNat_eq h)
    dsimp only
    rw [min_toNat hw hpos hlen hne, sar, if_pos (by omega), Option.map_some,
      BitVec.getLsbD_sshiftRight]
    simp [hne', show min (pos.toNat + len.toNat - 1) (w - 1) < w by omega]
    omega

theorem bfeSigned_eq (hw : w ≤ 64) (hpos : pos.toNat < 256) (hlen : len.toNat < 256)
    (hwpos : 0 < w) : bfeSigned src pos len =
      (sar src pos.toNat).bind fun data =>
        if signBit src pos.toNat len.toNat then
          (shl (BitVec.allOnes w) len.toNat).map (data ||| ·)
        else (shr (BitVec.allOnes w) (BitVec.ofNat 32 w - len).toNat).map (data &&& ·) := by
  unfold bfeSigned
  rw [bfeSbit_eq hw hpos hlen hwpos]
  show (sar src pos.toNat).bind _ = _
  refine congrArg _ (funext fun data => ?_)
  cases signBit src pos.toNat len.toNat with
  | true => exact Option.map_eq_bind.symm
  | false => exact Option.map_eq_bind.symm

/-- A field that reaches past the top is extended by the top bit. -/
theorem signBit_top {pos len : Nat} (hlen : 0 < len) (h : w ≤ pos + len) :
    signBit src pos len = src.msb := by
  unfold signBit
  rw [BitVec.msb_eq_getLsbD_last, min_eq_right (by omega)]
  simp [hlen.ne']

/-- The signed field is right exactly where its shifts have a meaning, the one that sets the bits
above it included. -/
theorem bfeSigned_iff (hw : w ≤ 64) (hpos : pos.toNat < 256) (hlen : len.toNat < 256)
    (hwpos : 0 < w) :
    (∃ d, bfeSigned src pos len = some d ∧ Bfe true src pos.toNat len.toNat d) ↔
      pos.toNat < w ∧ 0 < len.toNat ∧ len.toNat ≤ w ∧ ¬ (len.toNat = w ∧ src.msb = true) := by
  rw [bfeSigned_eq hw hpos hlen hwpos]
  have htop : ∀ i, i < len.toNat → w ≤ pos.toNat + i →
      signBit src pos.toNat len.toNat = src.msb :=
    fun i hi hle => signBit_top (by omega) (by omega)
  have hspec : (true && decide (len.toNat ≠ 0) &&
      src.getLsbD (min (pos.toNat + len.toNat - 1) (w - 1))) =
        signBit src pos.toNat len.toNat := by rw [Bool.true_and, signBit]
  have hfull : len.toNat = w → signBit src pos.toNat len.toNat = src.msb :=
    fun heq => signBit_top (by omega) (by omega)
  have hzero : len.toNat = 0 → signBit src pos.toNat len.toNat = false := by
    intro heq
    simp [signBit, heq]
  rcases lt_or_ge pos.toNat w with hlt | hle
  · rw [sar, if_pos hlt, Option.bind_some]
    unfold Bfe
    simp only [hspec]
    generalize signBit src pos.toNat len.toNat = sbit at *
    cases sbit with
    | true =>
      rw [if_pos rfl, shl]
      split
      · refine iff_of_true ⟨_, rfl, fun i hi => ?_⟩ ?_
        · simp only [BitVec.getLsbD_or, BitVec.getLsbD_sshiftRight, BitVec.getLsbD_shiftLeft,
            BitVec.getLsbD_allOnes]
          grind
        · grind
      · refine iff_of_false ?_ ?_
        · rintro ⟨d, h, -⟩
          cases h
        · grind
    | false =>
      rw [if_neg (by simp), shr]
      split
      · rename_i hmask
        obtain ⟨hpos', hle⟩ := (mask_count hw hlen).mp hmask
        refine iff_of_true ⟨_, rfl, fun i hi => ?_⟩ ?_
        · rw [mask_count_eq hw hle]
          simp only [BitVec.getLsbD_and, BitVec.getLsbD_sshiftRight, BitVec.getLsbD_ushiftRight,
            BitVec.getLsbD_allOnes]
          grind
        · grind
      · rename_i hmask
        rw [mask_count hw hlen] at hmask
        refine iff_of_false ?_ ?_
        · rintro ⟨d, h, -⟩
          cases h
        · grind
  · rw [sar, if_neg (by omega)]
    simp
    omega

end extract

theorem fieldOperand_eq (x : PtxReg) : (fieldOperand x).toNat = (x.setWidth 8).toNat := by
  have hmask : (0xFF : BitVec 32) = (BitVec.allOnes 8).setWidth 32 := by decide
  unfold fieldOperand
  rw [hmask, and_allOnes, BitVec.toNat_setWidth_of_le (by decide), b32,
    BitVec.setWidth_setWidth (by decide)]

/-- `bfe_impl` writes the field. -/
def BfeRight (iType : IntType) (src b c : PtxReg) : Prop :=
  ∃ d r, bfeImpl iType src b c = some d ∧ Writes iType.width d r ∧
    Bfe iType.signed (src.setWidth iType.width) (b.setWidth 8).toNat (c.setWidth 8).toNat r

/-- The fields whose shifts have a meaning: they begin below the top and are not empty, and a
negative operand is not taken whole. -/
def BfeDefined (iType : IntType) (src : PtxReg) (pos len : Nat) : Prop :=
  32 ≤ iType.width ∧ pos < iType.width ∧ 0 < len ∧ len ≤ iType.width ∧
    ¬ (iType.signed = true ∧ len = iType.width ∧ (src.setWidth iType.width).msb = true)

theorem exists_writes32 {o : Option (BitVec 32)} {P : BitVec 32 → Prop} :
    (∃ d r, o.map of32 = some d ∧ Writes 32 d r ∧ P r) ↔ ∃ r, o = some r ∧ P r := by
  have hof32 : ∀ r, (of32 r).setWidth 32 = r :=
    fun r => (setWidth_of32 le_rfl r).trans (BitVec.setWidth_eq r)
  constructor
  · rintro ⟨d, r, ho, hwrites, hp⟩
    obtain ⟨r', hr', rfl⟩ := Option.map_eq_some_iff.mp ho
    rw [writes_iff (by decide), hof32] at hwrites
    exact ⟨r, hwrites ▸ hr', hp⟩
  · rintro ⟨r, rfl, hp⟩
    exact ⟨of32 r, r, rfl, (writes_iff (by decide)).mpr (hof32 r), hp⟩

theorem exists_writes64 {o : Option PtxReg} {P : BitVec 64 → Prop} :
    (∃ d r, o = some d ∧ Writes 64 d r ∧ P r) ↔ ∃ r, o = some r ∧ P r := by
  constructor
  · rintro ⟨d, r, ho, hwrites, hp⟩
    rw [writes_iff le_rfl, BitVec.setWidth_eq] at hwrites
    exact ⟨r, hwrites ▸ ho, hp⟩
  · rintro ⟨r, rfl, hp⟩
    exact ⟨r, r, rfl, (writes_iff le_rfl).mpr (BitVec.setWidth_eq r), hp⟩

theorem bfeRight_iff (iType : IntType) (src b c : PtxReg) : BfeRight iType src b c ↔
    BfeDefined iType src (b.setWidth 8).toNat (c.setWidth 8).toNat := by
  have hpos := fieldOperand_lt b
  have hlen := fieldOperand_lt c
  unfold BfeRight BfeDefined
  rw [← fieldOperand_eq, ← fieldOperand_eq]
  have hnone : iType.width < 32 → bfeImpl iType src b c = none := by
    cases iType <;> simp [IntType.width, bfeImpl]
  cases iType with
  | u32 =>
    refine (exists_writes32.trans (bfeUnsigned_iff (by decide) hlen)).trans ?_
    simp [IntType.width, IntType.signed]
  | u64 =>
    have hself : src.setWidth IntType.u64.width = src := BitVec.setWidth_eq src
    refine exists_writes64.trans ?_
    rw [hself]
    refine (bfeUnsigned_iff le_rfl hlen).trans ?_
    simp [IntType.width, IntType.signed]
  | s32 =>
    refine (exists_writes32.trans (bfeSigned_iff (by decide) hpos hlen (by decide))).trans ?_
    simp [IntType.width, IntType.signed, b32]
  | s64 =>
    have hself : src.setWidth IntType.s64.width = src := BitVec.setWidth_eq src
    refine exists_writes64.trans ?_
    rw [hself]
    refine (bfeSigned_iff le_rfl hpos hlen (by decide)).trans ?_
    simp [IntType.width, IntType.signed]
  | _ =>
    rw [hnone (by decide)]
    simp [IntType.width]

/-! ### Insertion -/

theorem getLsbD_write32 (x : PtxReg) (v : BitVec 32) (k : Nat) :
    (x.write32 v).getLsbD k = if k < 32 then v.getLsbD k else x.getLsbD k := by
  unfold write32
  rw [BitVec.getLsbD_append]
  have := BitVec.getLsbD_of_ge x k
  split
  · rfl
  · simp
    grind

theorem getLsbD_bit {i k : Nat} (hi : i < 32) :
    ((1 : BitVec 32) <<< i).getLsbD k = decide (k = i) := by
  show ((1#32) <<< i).getLsbD k = _
  rw [← BitVec.twoPow_eq, BitVec.getLsbD_twoPow]
  grind

theorem shl_of_lt {w count : Nat} (x : BitVec w) (h : count < w) :
    shl x count = some (x <<< count) := if_pos h

theorem shl_of_ge {w count : Nat} (x : BitVec w) (h : w ≤ count) : shl x count = none :=
  if_neg h.not_gt

/-- A step of the loop puts one bit into its place. -/
theorem getLsbD_insert {src1 : BitVec 32} {data : PtxReg} {pos i : Nat} (h : pos + i < 32)
    (k : Nat) : (data.write32 (~~~((1 : BitVec 32) <<< (pos + i)) &&& data.b32 |||
      (src1 &&& (1 : BitVec 32) <<< i) <<< pos)).getLsbD k =
        if k = pos + i then src1.getLsbD i else data.getLsbD k := by
  rw [getLsbD_write32]
  simp only [BitVec.getLsbD_or, BitVec.getLsbD_and, BitVec.getLsbD_not, BitVec.getLsbD_shiftLeft,
    getLsbD_bit h, getLsbD_bit (show i < 32 by omega), b32, BitVec.getLsbD_setWidth]
  have hplace : pos ≤ k → (k - pos = i ↔ k = pos + i) := by omega
  rcases lt_or_ge k pos with hlow | hhigh
  · grind
  · simp only [hplace hhigh]
    grind

theorem bfiLoop_some {max pos : Nat} {src1 : BitVec 32} (n i : Nat) (data : PtxReg)
    (h : n = 0 ∨ max ≤ pos + i ∨ min (pos + i + n) max ≤ 32) :
    ∃ d, bfiLoop max pos src1 n i data = some d ∧ ∀ k < max, d.getLsbD k =
      if pos + i ≤ k ∧ k < pos + i + n then src1.getLsbD (k - pos) else data.getLsbD k := by
  induction n generalizing i data with
  | zero =>
    refine ⟨data, rfl, fun k _ => ?_⟩
    rw [if_neg (by omega)]
  | succ n ih =>
    unfold bfiLoop
    split
    · rename_i hlt
      have hbit : pos + i < 32 := by omega
      simp only [shl_of_lt _ hbit, shl_of_lt _ (show i < 32 by omega),
        shl_of_lt _ (show pos < 32 by omega), Option.bind_eq_bind, Option.bind_some]
      obtain ⟨d, hd, hbits⟩ := ih (i + 1) (data.write32
        (~~~((1 : BitVec 32) <<< (pos + i)) &&& data.b32 |||
          (src1 &&& (1 : BitVec 32) <<< i) <<< pos)) (by omega)
      refine ⟨d, hd, fun k hk => ?_⟩
      rw [hbits k hk, getLsbD_insert hbit]
      grind
    · rename_i hge
      refine ⟨data, rfl, fun k hk => ?_⟩
      rw [if_neg (by omega)]

/-- A field that reaches past the low half is not inserted. -/
theorem bfiLoop_none {max pos : Nat} {src1 : BitVec 32} (n i : Nat) (data : PtxReg)
    (h : 0 < n ∧ pos + i < max ∧ 32 < min (pos + i + n) max) :
    bfiLoop max pos src1 n i data = none := by
  induction n generalizing i data with
  | zero => omega
  | succ n ih =>
    unfold bfiLoop
    rw [if_pos h.2.1]
    rcases lt_or_ge (pos + i) 32 with hlt | hge
    · simp only [shl_of_lt _ hlt, shl_of_lt _ (show i < 32 by omega),
        shl_of_lt _ (show pos < 32 by omega), Option.bind_eq_bind, Option.bind_some]
      exact ih (i + 1) _ (by omega)
    · rw [shl_of_ge _ hge]
      rfl

/-- `bfi_impl` writes the field into the operand. -/
def BfiRight (iType : BitType) (src1 src2 src3 src4 : PtxReg) : Prop :=
  ∃ d r, bfiImpl iType src1 src2 src3 src4 = some d ∧ Writes iType.width d r ∧
    Bfi (src1.setWidth iType.width) (src2.setWidth iType.width) (src3.setWidth 8).toNat
      (src4.setWidth 8).toNat r

/-- The fields that lie in the low half of their operand, which is all that is written. -/
def BfiDefined (iType : BitType) (pos len : Nat) : Prop :=
  iType = .b32 ∨ len = 0 ∨ 64 ≤ pos ∨ pos + len ≤ 32

theorem bfiRight_iff (iType : BitType) (src1 src2 src3 src4 : PtxReg) :
    BfiRight iType src1 src2 src3 src4 ↔
      BfiDefined iType (src3.setWidth 8).toNat (src4.setWidth 8).toNat := by
  have hw : iType.width ≤ 64 := by cases iType <;> decide
  have hdefined : BfiDefined iType (fieldOperand src3).toNat (fieldOperand src4).toNat ↔
      (fieldOperand src4).toNat = 0 ∨ iType.width ≤ (fieldOperand src3).toNat + 0 ∨
        min ((fieldOperand src3).toNat + 0 + (fieldOperand src4).toNat) iType.width ≤ 32 := by
    cases iType <;> simp [BfiDefined, BitType.width]
  unfold BfiRight bfiImpl
  dsimp only
  rw [← fieldOperand_eq, ← fieldOperand_eq, hdefined]
  generalize (fieldOperand src3).toNat = pos
  generalize (fieldOperand src4).toNat = len
  by_cases h : len = 0 ∨ iType.width ≤ pos + 0 ∨ min (pos + 0 + len) iType.width ≤ 32
  · obtain ⟨d, hd, hbits⟩ := @bfiLoop_some iType.width pos src1.b32 len 0 src2 h
    refine iff_of_true ⟨d, d.setWidth _, hd, (writes_iff hw).mpr rfl, fun k hk => ?_⟩ h
    rw [BitVec.getLsbD_setWidth, hbits k hk]
    simp only [b32, BitVec.getLsbD_setWidth]
    have hcases : iType.width = 32 ∨ iType.width = 64 := by cases iType <;> simp [BitType.width]
    grind
  · refine iff_of_false ?_ h
    rintro ⟨d, r, hd, -⟩
    rw [bfiLoop_none len 0 src2 (by omega)] at hd
    cases hd

/-! ### Reversal -/

theorem and_bit (x : BitVec 32) {i : Nat} (hi : i < 32) :
    x &&& (1 : BitVec 32) <<< i ≠ 0 ↔ x.getLsbD i = true := by
  show x &&& 1#32 <<< i ≠ 0 ↔ _
  rw [← BitVec.twoPow_eq, BitVec.and_twoPow]
  split
  · rename_i h
    refine iff_of_true (fun hzero => ?_) h
    have hbit := congrArg (BitVec.getLsbD · i) hzero
    simp [hi] at hbit
  · rename_i h
    simp [h]

/-- The bits that the first `n` rounds have moved. -/
theorem brevStep32_run (src : PtxReg) {n : Nat} (hn : n ≤ 32) :
    ∃ d, (List.range n).foldlM (brevStep32 src) 0 = some d ∧
      ∀ k < 32, d.getLsbD k = (decide (32 - n ≤ k) && src.b32.getLsbD (31 - k)) := by
  induction n with
  | zero => exact ⟨0, rfl, fun k hk => by simp; omega⟩
  | succ n ih =>
    obtain ⟨d, hd, hbits⟩ := ih (by omega)
    rw [List.range_succ, List.foldlM_append, hd]
    simp only [Option.bind_eq_bind, Option.bind_some, List.foldlM_cons, List.foldlM_nil]
    unfold brevStep32
    rw [shl_of_lt _ (show n < 32 by omega), Option.bind_eq_bind, Option.bind_some]
    split
    · rename_i hset
      rw [and_bit _ (by omega)] at hset
      rw [shl_of_lt _ (show 31 - n < 32 by omega)]
      refine ⟨_, rfl, fun k hk => ?_⟩
      rw [getLsbD_write32, if_pos hk, BitVec.getLsbD_or, getLsbD_bit (by omega), b32,
        BitVec.getLsbD_setWidth, hbits k hk]
      grind
    · rename_i hclear
      rw [and_bit _ (by omega)] at hclear
      refine ⟨d, rfl, fun k hk => ?_⟩
      rw [hbits k hk]
      grind

theorem brevImpl_b32 (src : PtxReg) :
    ∃ d, brevImpl .b32 src = some d ∧ d.b32 = src.b32.reverse := by
  obtain ⟨d, hd, hbits⟩ := brevStep32_run src le_rfl
  refine ⟨d, hd, BitVec.eq_of_getLsbD_eq fun k hk => ?_⟩
  rw [b32, BitVec.getLsbD_setWidth, hbits k hk, BitVec.getLsbD_reverse, BitVec.getMsbD_eq_getLsbD]
  simp [hk]

theorem brevImpl_b64 (src : PtxReg) : brevImpl .b64 src = none := by
  have hrange : List.range 64 = List.range 32 ++ 32 :: List.range' 33 31 := by decide
  unfold brevImpl
  rw [hrange, List.foldlM_append]
  cases (List.range 32).foldlM (brevStep64 src) 0 with
  | none => rfl
  | some data => rfl

/-- `brev_impl` writes the reversed bits, and the operand again from them. -/
def BrevRight (iType : BitType) (src : PtxReg) : Prop :=
  ∃ d, brevImpl iType src = some d ∧ Writes iType.width d (src.setWidth iType.width).reverse ∧
    ∃ d', brevImpl iType d = some d' ∧ Writes iType.width d' (src.setWidth iType.width)

theorem brevRight_iff (iType : BitType) (src : PtxReg) : BrevRight iType src ↔ iType = .b32 := by
  cases iType with
  | b32 =>
    refine iff_of_true ?_ rfl
    obtain ⟨d, hd, hrev⟩ := brevImpl_b32 src
    obtain ⟨d', hd', hrev'⟩ := brevImpl_b32 d
    refine ⟨d, hd, (writes_iff (by decide)).mpr hrev, d', hd', (writes_iff (by decide)).mpr ?_⟩
    exact hrev'.trans (by rw [hrev, BitVec.reverse_reverse_eq]; rfl)
  | b64 =>
    refine iff_of_false ?_ (by simp)
    rintro ⟨d, hd, -⟩
    rw [brevImpl_b64] at hd
    cases hd

/-! ### Search -/

/-- The test of a bit in an operand of 32 bits, for bit 31 with a mask that reaches to the top. -/
theorem search_test (y : BitVec 32) {i : Nat} (hi : i < 32) :
    y.setWidth 64 &&& ((1 : BitVec 32) <<< i).signExtend 64 ≠ 0 ↔ y.getLsbD i = true := by
  have hand : y.setWidth 64 &&& ((1 : BitVec 32) <<< i).signExtend 64 =
      (y &&& (1 : BitVec 32) <<< i).setWidth 64 := by
    apply BitVec.eq_of_getLsbD_eq
    intro k hk
    have hge := BitVec.getLsbD_of_ge y k
    simp only [BitVec.getLsbD_and, BitVec.getLsbD_setWidth, BitVec.getLsbD_signExtend]
    grind
  have hzero : ∀ z : BitVec 32, z.setWidth 64 = 0 ↔ z = 0 := by
    intro z
    constructor
    · intro h
      have hback := congrArg (BitVec.setWidth 32) h
      rw [BitVec.setWidth_setWidth_of_le _ (by decide), BitVec.setWidth_eq] at hback
      exact hback
    · rintro rfl
      rfl
  rw [hand, Ne, hzero]
  exact and_bit y hi

theorem bfindLoop_some {y : BitVec 32} {p : Nat} (hp : y.getLsbD p = true) (n : Nat)
    (hn : p + n < 32) (habove : ∀ q, p < q → y.getLsbD q = false) :
    bfindLoop (y.setWidth 64) (p + n) = some (BitVec.ofNat 32 p) := by
  induction n with
  | zero =>
    cases p with
    | zero =>
      unfold bfindLoop
      simp only [shl_of_lt _ (show 0 < 32 by decide), Option.bind_eq_bind, Option.bind_some]
      rw [if_pos ((search_test y (by decide)).mpr hp)]
      rfl
    | succ p =>
      unfold bfindLoop
      simp only [shl_of_lt _ (show p + 1 < 32 by omega), Option.bind_eq_bind, Option.bind_some]
      rw [if_pos ((search_test y (by omega)).mpr hp)]
      rfl
  | succ n ih =>
    rw [← Nat.add_assoc, bfindLoop]
    simp only [shl_of_lt _ (show p + n + 1 < 32 by omega), Option.bind_eq_bind, Option.bind_some]
    rw [if_neg, ih (by omega)]
    rw [search_test y (by omega), habove _ (by omega)]
    simp

/-- Where no bit is set the search does not end. -/
theorem bfindLoop_none {n : Nat} (hn : n < 32) : bfindLoop 0 n = none := by
  have htest : ∀ x : BitVec 64, ¬ (0 &&& x ≠ 0) := by simp
  induction n with
  | zero =>
    unfold bfindLoop
    simp only [shl_of_lt _ (show 0 < 32 by decide), Option.bind_eq_bind, Option.bind_some]
    rw [if_neg (htest _)]
  | succ n ih =>
    unfold bfindLoop
    simp only [shl_of_lt _ hn, Option.bind_eq_bind, Option.bind_some]
    rw [if_neg (htest _), ih (by omega)]

theorem bfindLoop_wide (a : BitVec 64) : bfindLoop a 63 = none := by
  rw [bfindLoop, shl_of_ge _ (by decide)]
  rfl

/-- The operand with the bits set that are not as its sign. -/
def unlikeSign (signed : Bool) (x : BitVec 32) : BitVec 32 :=
  if signed && x.msb then ~~~ x else x

theorem differs_iff {signed : Bool} {x : BitVec 32} {p : Nat} :
    Differs signed x p ↔ (unlikeSign signed x).getLsbD p = true := by
  unfold Differs unlikeSign
  have hge := BitVec.getLsbD_of_ge x p
  split
  · rename_i h
    rw [h, BitVec.getLsbD_not]
    grind
  · rename_i h
    rw [Bool.not_eq_true] at h
    rw [h]
    grind

theorem bfindOperand_signed (x : BitVec 32) :
    bfindOperand true 31 (x.signExtend 64) = some ((unlikeSign true x).setWidth 64) := by
  unfold bfindOperand unlikeSign
  rw [if_pos rfl, shl_of_lt _ (by decide), Option.map_some, Bool.true_and]
  cases hmsb : x.msb with
  | true =>
    have hset : x.signExtend 64 &&& ((1 : BitVec 32) <<< 31).signExtend 64 ≠ 0 := by
      intro hzero
      have hbit := congrArg (BitVec.getLsbD · 31) hzero
      rw [BitVec.msb_eq_getLsbD_last] at hmsb
      simp at hbit
      grind
    rw [if_pos hset, if_pos rfl, ← or_not_allOnes hmsb]
    congr 1
    apply BitVec.eq_of_getLsbD_eq
    intro k hk
    simp only [BitVec.getLsbD_not, BitVec.getLsbD_or, BitVec.getLsbD_setWidth,
      BitVec.getLsbD_allOnes]
    grind
  | false =>
    have hclear : ¬ x.setWidth 64 &&& ((1 : BitVec 32) <<< 31).signExtend 64 ≠ 0 := by
      rw [search_test x (by decide)]
      rw [BitVec.msb_eq_getLsbD_last] at hmsb
      simpa using hmsb
    rw [BitVec.signExtend_eq_setWidth_of_msb_false hmsb, if_neg hclear, if_neg (by simp)]

/-- Operands of 32 bits are searched for a bit unlike their sign. -/
theorem bfindImpl_eq {iType : IntType} (hw : iType.width = 32) (src : PtxReg) :
    bfindImpl iType src =
      (bfindLoop ((unlikeSign iType.signed src.b32).setWidth 64) 31).map of32 := by
  cases iType with
  | u32 => exact Option.map_eq_bind.symm
  | s32 =>
    unfold bfindImpl bfindFrom
    dsimp only
    rw [bfindOperand_signed]
    exact Option.map_eq_bind.symm
  | _ => simp [IntType.width] at hw

theorem bfindImpl_wide {iType : IntType} (hw : iType.width ≠ 32) (src : PtxReg) :
    bfindImpl iType src = none := by
  have hunsigned : ∀ a, bfindFrom false 63 a = none := by
    intro a
    unfold bfindFrom bfindOperand
    rw [if_neg (by simp)]
    simp [bfindLoop_wide]
  have hsigned : ∀ a, bfindFrom true 63 a = none := by
    intro a
    unfold bfindFrom bfindOperand
    rw [if_pos rfl, shl_of_ge _ (by decide)]
    rfl
  cases iType with
  | s64 => exact hsigned src
  | u64 => exact hunsigned src
  | s32 => exact absurd rfl hw
  | u32 => exact absurd rfl hw
  | _ => rfl

/-- The highest bit that is set. -/
theorem exists_highest {y : BitVec 32} (h : ∃ p, y.getLsbD p = true) :
    ∃ p, y.getLsbD p = true ∧ ∀ q, p < q → y.getLsbD q = false := by
  have hbound : ∀ p, y.getLsbD p = true → p ≤ 32 := fun p hp =>
    (BitVec.lt_of_getLsbD hp).le
  obtain ⟨p, hp⟩ := h
  refine ⟨Nat.findGreatest (fun p => y.getLsbD p = true) 32,
    Nat.findGreatest_spec (P := fun p => y.getLsbD p = true) (hbound p hp) hp, fun q hq => ?_⟩
  rcases le_or_gt q 32 with hle | hgt
  · exact Bool.not_eq_true _ ▸ Nat.findGreatest_is_greatest hq hle
  · exact BitVec.getLsbD_of_ge y q hgt.le

/-- `bfind_impl` writes the position, for `.shiftamt` the distance to the top. -/
def BfindRight (iType : IntType) (shiftamt : Bool) (src : PtxReg) : Prop :=
  ∃ d r, bfindImpl iType src = some d ∧ Writes 32 d r ∧
    Bfind iType.signed shiftamt (src.setWidth iType.width) r

/-- The operands of 32 bits in which some bit is found, without `.shiftamt`. -/
def BfindDefined (iType : IntType) (shiftamt : Bool) (src : PtxReg) : Prop :=
  iType.width = 32 ∧ shiftamt = false ∧
    ∃ p, Differs iType.signed (src.setWidth iType.width) p

theorem bfindRight_iff (iType : IntType) (shiftamt : Bool) (src : PtxReg) :
    BfindRight iType shiftamt src ↔ BfindDefined iType shiftamt src := by
  unfold BfindRight BfindDefined
  by_cases hw : iType.width = 32
  · have hdiffers : ∀ p, Differs iType.signed (src.setWidth iType.width) p ↔
        (unlikeSign iType.signed src.b32).getLsbD p = true := by
      intro p
      rw [hw]
      exact differs_iff
    have hwidth : iType.width - 1 = 31 := by omega
    rw [bfindImpl_eq hw]
    unfold Bfind
    simp only [hdiffers, hwidth]
    generalize unlikeSign iType.signed src.b32 = y
    rw [exists_writes32]
    by_cases hfound : ∃ p, y.getLsbD p = true
    · obtain ⟨p, hp, habove⟩ := exists_highest hfound
      have hlt := BitVec.lt_of_getLsbD hp
      have hloop := bfindLoop_some hp (31 - p) (by omega) habove
      rw [Nat.add_sub_cancel' (by omega)] at hloop
      rw [hloop]
      cases shiftamt with
      | false =>
        refine iff_of_true ⟨_, rfl, .inl ⟨p, hp, fun q hq => ?_, rfl⟩⟩ ⟨hw, rfl, hfound⟩
        simp [habove q hq]
      | true =>
        refine iff_of_false ?_ (by simp)
        rintro ⟨r, hr, ⟨p', hp', habove', hshift⟩ | ⟨hnone, -⟩⟩
        · have hlt' := BitVec.lt_of_getLsbD hp'
          have hsame : p' = p := by
            rcases lt_trichotomy p' p with h | h | h
            · exact absurd hp (habove' p h)
            · exact h
            · rw [habove p' h] at hp'
              cases hp'
          have hnat := congrArg BitVec.toNat ((Option.some.inj hr).trans hshift)
          rw [if_pos rfl, BitVec.toNat_ofNat, BitVec.toNat_ofNat] at hnat
          omega
        · exact absurd hp (hnone p)
    · have hzero : y = 0 := by
        apply BitVec.eq_of_getLsbD_eq
        intro p _
        simpa using fun hp => hfound ⟨p, hp⟩
      have hloop : bfindLoop (y.setWidth 64) 31 = none := by
        rw [hzero]
        exact bfindLoop_none (by decide)
      rw [hloop]
      simp [hfound]
  · rw [bfindImpl_wide hw]
    simp [hw]

/-! ### The instructions -/

/-- The bit-field instructions write what they mean exactly for these operands: the others shift
by the width of an operand or more, or search for ever. -/
theorem bitFields_iff (iType : IntType) (bType : BitType) (shiftamt : Bool)
    (src1 src2 src3 src4 : PtxReg) :
    (BfeRight iType src1 src2 src3 ↔
      BfeDefined iType src1 (src2.setWidth 8).toNat (src3.setWidth 8).toNat) ∧
    (BfiRight bType src1 src2 src3 src4 ↔
      BfiDefined bType (src3.setWidth 8).toNat (src4.setWidth 8).toNat) ∧
    (BfindRight iType shiftamt src1 ↔ BfindDefined iType shiftamt src1) ∧
    (BrevRight bType src1 ↔ bType = .b32) :=
  ⟨bfeRight_iff .., bfiRight_iff .., bfindRight_iff .., brevRight_iff ..⟩

/-- An empty field, a field in the high half, a search in zero and a reversal of 64 bits. -/
theorem not_bitFields : ¬ BfeRight .u32 5 0 0 ∧ ¬ BfiRight .b64 1 0 40 1 ∧
    ¬ BfindRight .u32 false 0 ∧ ¬ BrevRight .b64 0 := by
  rw [bfeRight_iff, bfiRight_iff, bfindRight_iff, brevRight_iff]
  refine ⟨?_, by simp [BfiDefined], ?_, by simp⟩
  · rintro ⟨-, -, hlen, -⟩
    cases hlen
  · rintro ⟨-, -, p, hp, hset⟩
    simp [IntType.signed] at hset

end FlashGpuSim
