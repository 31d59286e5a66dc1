import FlashGpuSim.Tma.TileTransfer
import Mathlib.Tactic

/-!
The shared addresses at which WGMMA reads a matrix through its descriptor, and the swizzle of a
tile that the TMA has put there.
-/

namespace FlashGpuSim

open Lib

def wgmmaGmmaDescBase (desc : BitVec 64) : BitVec 64 := (desc &&& 0x3FFF) <<< 4

def wgmmaGmmaDescLeadingByteOffset (desc : BitVec 64) : BitVec 64 :=
  ((desc >>> 16) &&& 0x3FFF) <<< 4

def wgmmaGmmaDescStrideByteOffset (desc : BitVec 64) : BitVec 64 :=
  ((desc >>> 32) &&& 0x3FFF) <<< 4

def wgmmaGmmaDescSwizzleMode (desc : BitVec 64) : BitVec 32 := ((desc >>> 62) &&& 0x3).setWidth 32

/-- `wgmma_apply_gmma_swizzle` of an offset. -/
def wgmmaApplyGmmaSwizzle (byteOffset : BitVec 64) (swizzleMode : BitVec 32) : BitVec 64 :=
  let swizzle (bits : Nat) :=
    let yMask := ((1 <<< bits : BitVec 64) - 1) <<< (4 + 3)
    byteOffset ^^^ ((byteOffset &&& yMask) >>> 3)
  match swizzleMode with
  | 1 => swizzle 3
  | 2 => swizzle 2
  | 3 => swizzle 1
  | _ => byteOffset

def wgmmaSwizzleBytes : BitVec 32 → Nat
  | 1 => 128
  | 2 => 64
  | 3 => 32
  | _ => 0

def wgmmaSwizzlePeriodBytes (swizzleMode : BitVec 32) : BitVec 64 :=
  if wgmmaSwizzleBytes swizzleMode = 0 then 0
  else BitVec.ofNat 64 (wgmmaSwizzleBytes swizzleMode) * 8

/-- `wgmma_apply_gmma_swizzle` of an offset from a base, whose low bits count too. -/
def wgmmaApplyGmmaSwizzleAt (base byteOffset : BitVec 64) (swizzleMode : BitVec 32) : BitVec 64 :=
  let period := wgmmaSwizzlePeriodBytes swizzleMode
  if period = 0 then base + byteOffset
  else
    let periodBase := base &&& ~~~(period - 1)
    let periodOffset := base - periodBase + byteOffset
    periodBase + wgmmaApplyGmmaSwizzle periodOffset swizzleMode

def wgmmaGmmaKMajorSmemAddr (desc : BitVec 64) (col k elementSize defaultContiguousK : Nat) :
    BitVec 32 :=
  let base := wgmmaGmmaDescBase desc
  let leading := wgmmaGmmaDescLeadingByteOffset desc
  let stride := wgmmaGmmaDescStrideByteOffset desc
  let swizzleMode := wgmmaGmmaDescSwizzleMode desc
  let swizzleBytes := wgmmaSwizzleBytes swizzleMode
  if swizzleBytes ≠ 0 then
    let elementsPer128b := 16 / elementSize
    let leadingOffset := if leading = 0 then 16 else leading
    let offset := BitVec.ofNat 64 (col / 8) * stride + BitVec.ofNat 64 (col % 8 * swizzleBytes) +
      BitVec.ofNat 64 (k / elementsPer128b) * leadingOffset +
      BitVec.ofNat 64 (k % elementsPer128b * elementSize)
    (wgmmaApplyGmmaSwizzleAt base offset swizzleMode).setWidth 32
  else
    let contiguousK := if stride = 0 then defaultContiguousK else stride.toNat / elementSize
    let contiguousK := if contiguousK = 0 then defaultContiguousK else contiguousK
    (base + BitVec.ofNat 64 (k / contiguousK) * leading + BitVec.ofNat 64 col * stride +
      BitVec.ofNat 64 (k % contiguousK * elementSize)).setWidth 32

def wgmmaGmmaMnMajorSmemAddr (desc : BitVec 64) (row k elementSize : Nat) : BitVec 32 :=
  let base := wgmmaGmmaDescBase desc
  let leading := wgmmaGmmaDescLeadingByteOffset desc
  let stride := wgmmaGmmaDescStrideByteOffset desc
  let swizzleMode := wgmmaGmmaDescSwizzleMode desc
  let swizzleBytes := wgmmaSwizzleBytes swizzleMode
  let elementsPer128b := 16 / elementSize
  if swizzleBytes = 0 then
    (base + (BitVec.ofNat 64 (row / elementsPer128b) * stride +
      BitVec.ofNat 64 (row % elementsPer128b * elementSize) + BitVec.ofNat 64 (k / 8) * leading +
      BitVec.ofNat 64 (k % 8 * 16))).setWidth 32
  else
    let rowsPerSwizzle := swizzleBytes / elementSize
    let offset := BitVec.ofNat 64 (row / rowsPerSwizzle) * leading +
      BitVec.ofNat 64 (row % rowsPerSwizzle * elementSize) + BitVec.ofNat 64 (k / 8) * stride +
      BitVec.ofNat 64 (k % 8 * swizzleBytes)
    (wgmmaApplyGmmaSwizzleAt base offset swizzleMode).setWidth 32

/-- The widths of a swizzle, with their modes in descriptors and in tensor maps. -/
inductive SwizzleWidth
  | b128 | b64 | b32
  deriving DecidableEq, Repr

namespace SwizzleWidth

def gmma : SwizzleWidth → BitVec 32
  | b128 => 1
  | b64 => 2
  | b32 => 3

def tma : SwizzleWidth → BitVec 32
  | b128 => tmaSwizzle128B
  | b64 => tmaSwizzle64B
  | b32 => tmaSwizzle32B

def bytes : SwizzleWidth → Nat
  | b128 => 128
  | b64 => 64
  | b32 => 32

/-- The row bits of the width, as the TMA takes them. -/
def mask : SwizzleWidth → BitVec 32
  | b128 => 7
  | b64 => 3
  | b32 => 1

/-- Eight rows. -/
def period (w : SwizzleWidth) : Nat := 8 * w.bytes

variable (w : SwizzleWidth)

theorem swizzleMask_tma : swizzleMask w.tma = some w.mask := by cases w <;> rfl

@[simp] theorem wgmmaSwizzleBytes_gmma : wgmmaSwizzleBytes w.gmma = w.bytes := by cases w <;> rfl

theorem period_gmma : wgmmaSwizzlePeriodBytes w.gmma = BitVec.ofNat 64 w.period := by
  cases w <;> rfl

theorem bytes_pos : 0 < w.bytes := by cases w <;> decide

theorem mask_le : w.mask.toNat ≤ 7 := by cases w <;> decide

/-- The mask of one side and of the other. -/
theorem chunkBits_eq (x : BitVec 64) :
    (x &&& (w.mask.setWidth 64 <<< 7)) >>> 3 = chunkBits w.mask x := by
  unfold chunkBits
  apply BitVec.eq_of_getLsbD_eq
  intro i hi
  have hhigh : ∀ j, 32 ≤ j → w.mask.getLsbD j = false := fun j hj => BitVec.getLsbD_of_ge _ _ hj
  simp only [BitVec.getLsbD_ushiftRight, BitVec.getLsbD_and, BitVec.getLsbD_shiftLeft,
    BitVec.getLsbD_setWidth]
  grind

/-- WGMMA and the TMA swizzle an offset alike. -/
theorem applyGmmaSwizzle (x : BitVec 64) :
    wgmmaApplyGmmaSwizzle x w.gmma = swizzleBits w.mask x := by
  have hexpand : swizzleBits w.mask x = x ^^^ chunkBits w.mask x := rfl
  rw [hexpand, ← w.chunkBits_eq]
  cases w <;> rfl

/-- The swizzle of an offset, in numbers: it exchanges the chunks within a line of 128 bytes. -/
theorem sharedOffset_eq {o : Nat} (ho : o < 2 ^ 64) : sharedOffset w.mask o =
    o / 128 * 128 + ((o / 16 % 8) ^^^ (o / 128 % (w.bytes / 16))) * 16 + o % 16 := by
  obtain ⟨hdiv, hmod⟩ := sharedOffset_div w.mask_le ho
  have hchunk : sharedOffset w.mask o / 16 % 8 = (o / 16 % 8) ^^^ (o / 128 % (w.bytes / 16)) := by
    have hrow : (chunkBits w.mask (BitVec.ofNat 64 o)).toNat = o / 128 % (w.bytes / 16) * 16 := by
      have hmask : ∀ x : Nat, x &&& w.mask.toNat = x % (w.bytes / 16) := by
        intro x
        cases w
        · exact Nat.and_two_pow_sub_one_eq_mod x 3
        · exact Nat.and_two_pow_sub_one_eq_mod x 2
        · exact Nat.and_two_pow_sub_one_eq_mod x 1
      have hlt : o / 128 % (w.bytes / 16) < 8 := by
        have := Nat.mod_lt (o / 128) (show 0 < w.bytes / 16 by cases w <;> decide)
        have : w.bytes / 16 ≤ 8 := by cases w <;> decide
        omega
      have hlow : o / 128 % 2 ^ 32 % (w.bytes / 16) = o / 128 % (w.bytes / 16) :=
        Nat.mod_mod_of_dvd _ (by cases w <;> decide)
      unfold chunkBits
      rw [BitVec.toNat_shiftLeft, BitVec.toNat_setWidth, BitVec.toNat_and, BitVec.toNat_setWidth,
        BitVec.toNat_ushiftRight, BitVec.toNat_ofNat, Nat.mod_eq_of_lt ho,
        Nat.shiftRight_eq_div_pow, hmask, Nat.shiftLeft_eq, hlow]
      omega
    have hxor : sharedOffset w.mask o = o ^^^ (o / 128 % (w.bytes / 16) * 16) := by
      rw [← hrow]
      unfold sharedOffset
      refine (BitVec.toNat_xor _ _).trans ?_
      rw [BitVec.toNat_ofNat, Nat.mod_eq_of_lt ho]
      rfl
    have hdiv16 : sharedOffset w.mask o / 2 ^ 4 = o / 16 ^^^ o / 128 % (w.bytes / 16) := by
      rw [hxor, Nat.xor_div_two_pow, Nat.mul_div_cancel _ (by decide)]
    have hmod8 : sharedOffset w.mask o / 2 ^ 4 % 2 ^ 3 =
        (o / 16 % 8) ^^^ (o / 128 % (w.bytes / 16) % 8) := by
      rw [hdiv16, Nat.xor_mod_two_pow]
    have hsmall : o / 128 % (w.bytes / 16) % 8 = o / 128 % (w.bytes / 16) := by
      have := Nat.mod_lt (o / 128) (show 0 < w.bytes / 16 by cases w <;> decide)
      have : w.bytes / 16 ≤ 8 := by cases w <;> decide
      omega
    rw [hsmall] at hmod8
    exact hmod8
  omega

/-- Whole periods pass through the swizzle. -/
theorem sharedOffset_period {o q : Nat} (h : w.period * q + o < 2 ^ 64) :
    sharedOffset w.mask (w.period * q + o) = w.period * q + sharedOffset w.mask o := by
  have ho : o < 2 ^ 64 := by omega
  rw [w.sharedOffset_eq h, w.sharedOffset_eq ho]
  have hchunk : (w.period * q + o) / 16 % 8 = o / 16 % 8 := by
    cases w <;> simp only [period, bytes] <;> omega
  have hrow : (w.period * q + o) / 128 % (w.bytes / 16) = o / 128 % (w.bytes / 16) := by
    cases w <;> simp only [period, bytes] <;> omega
  rw [hchunk, hrow]
  have hlow : (w.period * q + o) % 16 = o % 16 := by
    cases w <;> simp only [period, bytes] <;> omega
  have hhigh : (w.period * q + o) / 128 * 128 = w.period * q + o / 128 * 128 := by
    cases w <;> simp only [period, bytes] <;> omega
  omega

/-- A byte stays in its row. -/
theorem sharedOffset_row {o : Nat} (ho : o < 2 ^ 64) :
    sharedOffset w.mask o / w.bytes = o / w.bytes := by
  have hrow : ∀ b < 8, ∀ c < w.bytes / 16, (b ^^^ c) / (w.bytes / 16) = b / (w.bytes / 16) := by
    cases w <;> decide
  have hlt := hrow (o / 16 % 8) (Nat.mod_lt _ (by decide)) (o / 128 % (w.bytes / 16))
    (Nat.mod_lt _ (by cases w <;> decide))
  rw [w.sharedOffset_eq ho]
  generalize (o / 16 % 8) ^^^ (o / 128 % (w.bytes / 16)) = x at hlt ⊢
  cases w <;> simp only [bytes] at hlt ⊢ <;> omega

/-! ### Bases -/

theorem periodBase_eq {base s : Nat} (hbase : w.period ∣ base) (hs : s < w.period)
    (hlt : base + s < 2 ^ 64) :
    BitVec.ofNat 64 (base + s) &&& ~~~(BitVec.ofNat 64 w.period - 1) = BitVec.ofNat 64 base := by
  have hexp : ∃ n < 64, w.period = 2 ^ n ∧
      BitVec.ofNat 64 w.period - 1 = (BitVec.allOnes n).setWidth 64 := by
    cases w
    · exact ⟨10, by decide, rfl, by decide⟩
    · exact ⟨9, by decide, rfl, by decide⟩
    · exact ⟨8, by decide, rfl, by decide⟩
  obtain ⟨n, hn, hperiod, hones⟩ := hexp
  have hshift : ∀ x : BitVec 64,
      x &&& ~~~((BitVec.allOnes n).setWidth 64) = (x >>> n) <<< n := by
    intro x
    apply BitVec.eq_of_getLsbD_eq
    intro i hi
    simp only [BitVec.getLsbD_and, BitVec.getLsbD_not, BitVec.getLsbD_setWidth,
      BitVec.getLsbD_allOnes, BitVec.getLsbD_shiftLeft, BitVec.getLsbD_ushiftRight]
    grind
  rw [hones, hshift]
  apply BitVec.eq_of_toNat_eq
  obtain ⟨q, rfl⟩ := hbase
  rw [hperiod] at hs hlt ⊢
  rw [BitVec.toNat_shiftLeft, BitVec.toNat_ushiftRight, BitVec.toNat_ofNat, Nat.mod_eq_of_lt hlt,
    Nat.shiftRight_eq_div_pow, Nat.shiftLeft_eq, BitVec.toNat_ofNat,
    Nat.mul_add_div (Nat.two_pow_pos n), Nat.div_eq_of_lt hs, Nat.add_zero, Nat.mul_comm]

/-- The address of an offset from a base inside of a period. -/
theorem applyGmmaSwizzleAt {base s offset : Nat} (hbase : w.period ∣ base) (hs : s < w.period)
    (hlt : base + (s + offset) + 128 ≤ 2 ^ 64) :
    (wgmmaApplyGmmaSwizzleAt (BitVec.ofNat 64 (base + s)) (BitVec.ofNat 64 offset) w.gmma).toNat =
      base + sharedOffset w.mask (s + offset) := by
  have hperiod : BitVec.ofNat 64 w.period ≠ 0 := by cases w <;> decide
  have hsum : BitVec.ofNat 64 (base + s) - BitVec.ofNat 64 base + BitVec.ofNat 64 offset =
      BitVec.ofNat 64 (s + offset) := by
    have hlow : BitVec.ofNat 64 (base + s) - BitVec.ofNat 64 base = BitVec.ofNat 64 s := by
      rw [BitVec.ofNat_add, BitVec.add_comm, BitVec.add_sub_cancel]
    rw [hlow, BitVec.ofNat_add]
  obtain ⟨hdiv, -⟩ := sharedOffset_div w.mask_le (by omega : s + offset < 2 ^ 64)
  unfold wgmmaApplyGmmaSwizzleAt
  dsimp only
  rw [w.period_gmma, if_neg hperiod, w.periodBase_eq hbase hs (by omega), hsum, w.applyGmmaSwizzle,
    BitVec.toNat_add, BitVec.toNat_ofNat, Nat.mod_eq_of_lt (by omega : base < 2 ^ 64)]
  exact Nat.mod_eq_of_lt (by unfold sharedOffset at hdiv; omega)

/-- A byte stays in the whole rows that it is in. -/
theorem sharedOffset_lt {o n : Nat} (ho : o < 2 ^ 64) (hn : w.bytes ∣ n) (hlt : o < n) :
    sharedOffset w.mask o < n := by
  obtain ⟨m, rfl⟩ := hn
  have hrow := w.sharedOffset_row ho
  have hm : o / w.bytes < m := Nat.div_lt_of_lt_mul hlt
  rw [← hrow] at hm
  exact (Nat.div_lt_iff_lt_mul w.bytes_pos).mp hm |>.trans_eq (Nat.mul_comm _ _)

/-! ### Descriptors -/

/-- The fields of a descriptor. -/
structure Describes (desc : BitVec 64) (start leading stride : Nat) : Prop where
  base : (wgmmaGmmaDescBase desc).toNat = start
  leading : (wgmmaGmmaDescLeadingByteOffset desc).toNat = leading
  stride : (wgmmaGmmaDescStrideByteOffset desc).toNat = stride
  mode : wgmmaGmmaDescSwizzleMode desc = w.gmma

theorem field_toNat (desc : BitVec 64) (n : Nat) :
    (((desc >>> n) &&& 0x3FFF) <<< 4).toNat = desc.toNat / 2 ^ n % 2 ^ 14 * 16 := by
  have hmask : (0x3FFF : BitVec 64).toNat = 2 ^ 14 - 1 := rfl
  rw [BitVec.toNat_shiftLeft, BitVec.toNat_and, BitVec.toNat_ushiftRight, hmask,
    Nat.and_two_pow_sub_one_eq_mod, Nat.shiftRight_eq_div_pow, Nat.shiftLeft_eq]
  have hlt := Nat.mod_lt (desc.toNat / 2 ^ n) (Nat.two_pow_pos 14)
  omega

/-- Fields of 18 bits, in steps of 16, can be described. -/
theorem exists_describes {start leading stride : Nat} (hstart : start % 16 = 0)
    (hstart' : start < 2 ^ 18) (hleading : leading % 16 = 0) (hleading' : leading < 2 ^ 18)
    (hstride : stride % 16 = 0) (hstride' : stride < 2 ^ 18) :
    ∃ desc, w.Describes desc start leading stride := by
  have hmode : ∃ mode < 4, w.gmma.toNat = mode := ⟨_, by cases w <;> decide, rfl⟩
  obtain ⟨mode, hmode, hgmma⟩ := hmode
  let n := start / 16 + leading / 16 * 2 ^ 16 + stride / 16 * 2 ^ 32 + mode * 2 ^ 62
  have hlt : n < 2 ^ 64 := by omega
  have hnat : (BitVec.ofNat 64 n).toNat = n := by
    rw [BitVec.toNat_ofNat, Nat.mod_eq_of_lt hlt]
  have hbase : wgmmaGmmaDescBase (BitVec.ofNat 64 n) =
      ((BitVec.ofNat 64 n >>> 0) &&& 0x3FFF) <<< 4 := by
    rw [BitVec.ushiftRight_zero]
    rfl
  refine ⟨BitVec.ofNat 64 n, ?_, ?_, ?_, ?_⟩
  · rw [hbase, field_toNat, hnat]
    omega
  · exact (field_toNat _ 16).trans (by rw [hnat]; omega)
  · exact (field_toNat _ 32).trans (by rw [hnat]; omega)
  · apply BitVec.eq_of_toNat_eq
    have hthree : (0x3 : BitVec 64).toNat = 2 ^ 2 - 1 := rfl
    unfold wgmmaGmmaDescSwizzleMode
    rw [BitVec.toNat_setWidth, BitVec.toNat_and, BitVec.toNat_ushiftRight, hnat, hthree,
      Nat.and_two_pow_sub_one_eq_mod, Nat.shiftRight_eq_div_pow, hgmma]
    omega

/-- The sizes of elements. -/
def ElementSize (size : Nat) : Prop := size = 1 ∨ size = 2 ∨ size = 4

variable {w} {desc : BitVec 64} {base s leading size row k tile : Nat}

theorem ofNat_toNat {x : BitVec 64} {n : Nat} (h : x.toNat = n) : x = BitVec.ofNat 64 n := by
  rw [← h, BitVec.ofNat_toNat, BitVec.setWidth_eq]

/-- A swizzled address as a 32-bit number. -/
theorem swizzledAddress {offset : Nat} (hbase : w.period ∣ base) (hs : s < w.period)
    (hfits : base + tile ≤ 2 ^ 32) (htile : w.bytes ∣ tile) (hlt : s + offset < tile) :
    ((wgmmaApplyGmmaSwizzleAt (BitVec.ofNat 64 (base + s)) (BitVec.ofNat 64 offset)
      w.gmma).setWidth 32).toNat = base + sharedOffset w.mask (s + offset) := by
  have hplace := w.sharedOffset_lt (by omega) htile hlt
  rw [BitVec.toNat_setWidth, w.applyGmmaSwizzleAt hbase hs (by omega)]
  exact Nat.mod_eq_of_lt (by omega)

theorem kMajor_eq (h : w.Describes desc (base + s) leading w.period)
    (hleading : leading = 0 ∨ leading = 16) (hsize : ElementSize size) (hbase : w.period ∣ base)
    (hs : s < w.bytes) (hfits : base + tile ≤ 2 ^ 32) (htile : w.bytes ∣ tile)
    (hlt : row * w.bytes + s + k * size < tile) (defaultContiguousK : Nat) :
    (wgmmaGmmaKMajorSmemAddr desc row k size defaultContiguousK).toNat =
      base + sharedOffset w.mask (row * w.bytes + s + k * size) := by
  have hleadingOffset : (if wgmmaGmmaDescLeadingByteOffset desc = 0 then 16
      else wgmmaGmmaDescLeadingByteOffset desc) = BitVec.ofNat 64 16 := by
    rw [ofNat_toNat h.leading]
    rcases hleading with rfl | rfl <;> rfl
  have hoffset : row / 8 * w.period + row % 8 * w.bytes + k / (16 / size) * 16 +
      k % (16 / size) * size = row * w.bytes + k * size := by
    have hrow : row / 8 * w.period + row % 8 * w.bytes = row * w.bytes := by
      cases w <;> simp only [period, bytes] <;> omega
    have hk : k / (16 / size) * 16 + k % (16 / size) * size = k * size := by
      rcases hsize with rfl | rfl | rfl <;> omega
    omega
  have hperiod : w.bytes ≤ w.period := by cases w <;> decide
  unfold wgmmaGmmaKMajorSmemAddr
  dsimp only
  rw [h.mode, w.wgmmaSwizzleBytes_gmma, if_pos w.bytes_pos.ne', hleadingOffset,
    ofNat_toNat h.base, ofNat_toNat h.stride, ← BitVec.ofNat_mul, ← BitVec.ofNat_mul,
    ← BitVec.ofNat_add, ← BitVec.ofNat_add, ← BitVec.ofNat_add, hoffset,
    swizzledAddress hbase (by omega) hfits htile (by omega)]
  congr 2
  omega

theorem mnMajor_eq (h : w.Describes desc (base + s) leading w.period)
    (hleading : w.period ∣ leading) (hbase : w.period ∣ base) (hs : s < w.bytes)
    (hfits : base + (row / (w.bytes / size) * leading + tile) ≤ 2 ^ 32) (htile : w.bytes ∣ tile)
    (hlt : k * w.bytes + s + row % (w.bytes / size) * size < tile) :
    (wgmmaGmmaMnMajorSmemAddr desc row k size).toNat =
      base + row / (w.bytes / size) * leading +
        sharedOffset w.mask (k * w.bytes + s + row % (w.bytes / size) * size) := by
  obtain ⟨l, rfl⟩ := hleading
  have hoffset : row / (w.bytes / size) * (w.period * l) + row % (w.bytes / size) * size +
      k / 8 * w.period + k % 8 * w.bytes =
      w.period * (row / (w.bytes / size) * l) +
        (k * w.bytes + row % (w.bytes / size) * size) := by
    have hk : k / 8 * w.period + k % 8 * w.bytes = k * w.bytes := by
      cases w <;> simp only [period, bytes] <;> omega
    have hgroup : row / (w.bytes / size) * (w.period * l) =
        w.period * (row / (w.bytes / size) * l) := Nat.mul_left_comm _ _ _
    omega
  have hgroup : row / (w.bytes / size) * (w.period * l) =
      w.period * (row / (w.bytes / size) * l) := Nat.mul_left_comm _ _ _
  have hperiod : w.bytes ≤ w.period := by cases w <;> decide
  have hdvd : w.bytes ∣ w.period * (row / (w.bytes / size) * l) + tile := by
    refine (Dvd.dvd.mul_right ?_ _).add htile
    exact Dvd.intro_left 8 rfl
  have hsplit : s + (w.period * (row / (w.bytes / size) * l) +
      (k * w.bytes + row % (w.bytes / size) * size)) = w.period * (row / (w.bytes / size) * l) +
        (k * w.bytes + s + row % (w.bytes / size) * size) := by omega
  unfold wgmmaGmmaMnMajorSmemAddr
  dsimp only
  rw [h.mode, w.wgmmaSwizzleBytes_gmma, if_neg w.bytes_pos.ne', ofNat_toNat h.leading,
    ofNat_toNat h.base, ofNat_toNat h.stride, ← BitVec.ofNat_mul, ← BitVec.ofNat_mul,
    ← BitVec.ofNat_add, ← BitVec.ofNat_add, ← BitVec.ofNat_add, hoffset,
    swizzledAddress hbase (by omega) (by rw [← hgroup]; exact hfits) hdvd (by omega), hsplit,
    w.sharedOffset_period (by omega), hgroup]
  exact (Nat.add_assoc _ _ _).symm

end SwizzleWidth

end FlashGpuSim
