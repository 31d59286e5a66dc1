import FlashGpuSim.Tensor.GmmaAddress
import FlashGpuSim.Tma.SwizzledLoad

/-!
Tiles that the TMA loads and WGMMA reads. The addresses of a descriptor are the swizzled offsets of
the tile for every tile; whether the elements are there depends on the copies of the load.
-/

namespace FlashGpuSim

open Lib

/-- Boxes of one tensor map, loaded one at a time at bases that lie `leading` bytes apart, whose
rows are as wide as the swizzle. -/
structure GmmaTiles where
  width : SwizzleWidth
  tm : TensorMap
  size : Nat
  base : Nat
  leading : Nat
  groups : Nat
  coords : Nat → Nat → BitVec 32
  tile : Nat
  valid : tm.isValid = true
  swizzle : tm.swizzle = width.tma
  row : tm.rowBytes = width.bytes
  tileBytes : ∀ g, tm.tileBytes (coords g) = tile
  elementSize : SwizzleWidth.ElementSize size
  baseAligned : width.period ∣ base
  leadingAligned : width.period ∣ leading
  baseField : base < 2 ^ 18
  leadingField : leading < 2 ^ 18
  groups_pos : 0 < groups
  apart : 1 < groups → tile ≤ leading
  fits : base + (groups - 1) * leading + tile < 2 ^ 32

namespace GmmaTiles

variable (t : GmmaTiles)

/-- The place of a box. -/
def boxBase (g : Nat) : Nat := t.base + g * t.leading

/-- What a load of a box leaves for a tile offset. -/
def tileByte (g : Nat) (global : ByteMemory) (pattern : Nat → BitVec 8) (o : Nat) : BitVec 8 :=
  if t.tm.byteInside (t.coords g) o then global (t.tm.byteAddress (t.coords g) o).toNat
  else pattern (o % 128)

/-- The load of a box leaves these bytes. -/
def Loads (float : FloatReduction) (g : Nat) (post : (Nat → BitVec 8) → ByteMemory →
    (Nat → BitVec 8) → Prop) : Prop :=
  ∀ shared global : ByteMemory, ∃ shared' pattern,
    getPattern t.tm.oobFill t.tm.tensorDataType = some pattern ∧
    doTmaTransfer float t.tm (t.coords g) shared global (BitVec.ofNat 32 (t.boxBase g)) true .none =
      some (shared', global) ∧ post pattern global shared'

/-- A slice that begins `s` bytes into the rows of the first box. -/
structure KSlice (desc : BitVec 64) (s : Nat) : Prop where
  start : s < t.width.bytes
  describes : ∃ leading, (leading = 0 ∨ leading = 16) ∧
    t.width.Describes desc (t.base + s) leading t.width.period

/-- A slice over all boxes. -/
structure MnSlice (desc : BitVec 64) (s : Nat) : Prop where
  start : s < t.width.bytes
  describes : t.width.Describes desc (t.base + s) t.leading t.width.period

/-- A row of a box and an element in it, counted from `s`. -/
structure Inside (s row x : Nat) : Prop where
  row : row < t.tile / t.width.bytes
  element : s + x * t.size < t.width.bytes

/-- The rows of one row group. -/
def rowsPerBox : Nat := t.width.bytes / t.size

/-- What WGMMA reads along K. -/
structure KMajor (float : FloatReduction) : Prop where
  place : ∀ desc s, t.KSlice desc s → ∀ row k, t.Inside s row k → ∀ default,
    (wgmmaGmmaKMajorSmemAddr desc row k t.size default).toNat =
      t.base + sharedOffset t.width.mask (row * t.width.bytes + s + k * t.size)
  injective : ∀ desc s, t.KSlice desc s → ∀ row k row' k', t.Inside s row k → t.Inside s row' k' →
    ∀ default, wgmmaGmmaKMajorSmemAddr desc row k t.size default =
      wgmmaGmmaKMajorSmemAddr desc row' k' t.size default → row = row' ∧ k = k'
  stored : t.Loads float 0 fun pattern global shared' =>
    ∀ desc s, t.KSlice desc s → ∀ row k, t.Inside s row k → ∀ default, ∀ b < t.size,
      shared' ((wgmmaGmmaKMajorSmemAddr desc row k t.size default).toNat + b) =
        t.tileByte 0 global pattern (row * t.width.bytes + s + k * t.size + b)

/-- What WGMMA reads along M or N, with one box for each row group. -/
structure MnMajor (float : FloatReduction) : Prop where
  place : ∀ desc s, t.MnSlice desc s → ∀ row k, row / t.rowsPerBox < t.groups →
    t.Inside s k (row % t.rowsPerBox) →
      (wgmmaGmmaMnMajorSmemAddr desc row k t.size).toNat = t.boxBase (row / t.rowsPerBox) +
        sharedOffset t.width.mask (k * t.width.bytes + s + row % t.rowsPerBox * t.size)
  injective : ∀ desc s, t.MnSlice desc s → ∀ row k row' k', row / t.rowsPerBox < t.groups →
    row' / t.rowsPerBox < t.groups → t.Inside s k (row % t.rowsPerBox) →
    t.Inside s k' (row' % t.rowsPerBox) →
      wgmmaGmmaMnMajorSmemAddr desc row k t.size = wgmmaGmmaMnMajorSmemAddr desc row' k' t.size →
        row = row' ∧ k = k'
  stored : ∀ g < t.groups, t.Loads float g fun pattern global shared' =>
    ∀ desc s, t.MnSlice desc s → ∀ row k, row / t.rowsPerBox = g →
      t.Inside s k (row % t.rowsPerBox) → ∀ b < t.size,
        shared' ((wgmmaGmmaMnMajorSmemAddr desc row k t.size).toNat + b) =
          t.tileByte g global pattern (k * t.width.bytes + s + row % t.rowsPerBox * t.size + b)

/-! ### Places -/

variable {t} {float : FloatReduction} {desc : BitVec 64} {s row k x g o b : Nat}

theorem bytes_dvd_tile (t : GmmaTiles) : t.width.bytes ∣ t.tile := by
  rw [← t.row, ← t.tileBytes 0]
  exact TensorMap.rowBytes_dvd _ _ _

theorem boxBase_fits (hg : g < t.groups) : t.boxBase g + t.tile < 2 ^ 32 := by
  have hle : g * t.leading ≤ (t.groups - 1) * t.leading := Nat.mul_le_mul_right _ (by omega)
  have hfits := t.fits
  unfold boxBase
  omega

theorem Inside.lt (h : t.Inside s row x) : row * t.width.bytes + s + x * t.size < t.tile := by
  have hrow : (row + 1) * t.width.bytes ≤ t.tile :=
    (Nat.mul_le_mul_right _ h.row).trans (Nat.div_mul_le_self _ _)
  have helement := h.element
  rw [Nat.succ_mul] at hrow
  omega

/-- The bytes of an element lie in one chunk. -/
theorem sharedOffset_element (t : GmmaTiles) (ho : o + b < 2 ^ 64) (hmod : o % t.size = 0)
    (hb : b < t.size) :
    sharedOffset t.width.mask (o + b) = sharedOffset t.width.mask o + b := by
  have hchunk : (o + b) / 16 = o / 16 ∧ (o + b) % 16 = o % 16 + b := by
    rcases t.elementSize with hsize | hsize | hsize <;> rw [hsize] at hmod hb <;> omega
  have hline : (o + b) / 128 = o / 128 := by omega
  rw [t.width.sharedOffset_eq ho, t.width.sharedOffset_eq (by omega), hchunk.1, hchunk.2, hline]
  omega

/-- Slices begin on elements. -/
theorem start_mod {leading stride : Nat} (h : t.width.Describes desc (t.base + s) leading stride) :
    s % t.size = 0 := by
  have hbase : t.base % 16 = 0 := by
    obtain ⟨q, hq⟩ := t.baseAligned
    rw [hq]
    cases t.width <;> simp only [SwizzleWidth.period, SwizzleWidth.bytes] <;> omega
  have hfield := SwizzleWidth.field_toNat desc 0
  have hstart : (wgmmaGmmaDescBase desc).toNat = desc.toNat % 2 ^ 14 * 16 := by
    rw [BitVec.ushiftRight_zero, Nat.pow_zero, Nat.div_one] at hfield
    exact hfield
  have hsum := h.base
  rw [hstart] at hsum
  rcases t.elementSize with hsize | hsize | hsize <;> rw [hsize] <;> omega

theorem element_mod (hs : s % t.size = 0) (row x : Nat) :
    (row * t.width.bytes + s + x * t.size) % t.size = 0 := by
  have hdvd : t.size ∣ t.width.bytes := by
    rcases t.elementSize with hsize | hsize | hsize <;> rw [hsize] <;> cases t.width <;> decide
  exact Nat.mod_eq_zero_of_dvd (((hdvd.mul_left row).add (Nat.dvd_of_mod_eq_zero hs)).add
    (Dvd.intro_left x rfl))

theorem kPlace (t : GmmaTiles) (h : t.KSlice desc s) (hin : t.Inside s row k) (default : Nat) :
    (wgmmaGmmaKMajorSmemAddr desc row k t.size default).toNat =
      t.base + sharedOffset t.width.mask (row * t.width.bytes + s + k * t.size) := by
  obtain ⟨leading, hleading, hdesc⟩ := h.describes
  have hfits := boxBase_fits t.groups_pos
  unfold boxBase at hfits
  exact SwizzleWidth.kMajor_eq hdesc hleading t.elementSize t.baseAligned h.start (by omega)
    t.bytes_dvd_tile hin.lt default

theorem mnPlace (t : GmmaTiles) (h : t.MnSlice desc s) (hg : row / t.rowsPerBox < t.groups)
    (hin : t.Inside s k (row % t.rowsPerBox)) :
    (wgmmaGmmaMnMajorSmemAddr desc row k t.size).toNat = t.boxBase (row / t.rowsPerBox) +
      sharedOffset t.width.mask (k * t.width.bytes + s + row % t.rowsPerBox * t.size) := by
  have hfits := boxBase_fits hg
  unfold boxBase at hfits ⊢
  exact SwizzleWidth.mnMajor_eq h.describes t.leadingAligned t.baseAligned h.start
    (by unfold rowsPerBox at hfits; omega) t.bytes_dvd_tile hin.lt

/-- Two elements of a box at one tile offset. -/
theorem Inside.eq {row' x' : Nat} (h : t.Inside s row x) (h' : t.Inside s row' x')
    (heq : row * t.width.bytes + s + x * t.size = row' * t.width.bytes + s + x' * t.size) :
    row = row' ∧ x = x' := by
  have hpos := t.width.bytes_pos
  have hsize : 0 < t.size := by
    rcases t.elementSize with hsize | hsize | hsize <;> omega
  have hrow : ∀ r y, s + y < t.width.bytes → (r * t.width.bytes + s + y) / t.width.bytes = r := by
    intro r y hlt
    rw [Nat.add_assoc, Nat.mul_comm, Nat.mul_add_div hpos, Nat.div_eq_of_lt hlt, Nat.add_zero]
  have hsame := congrArg (· / t.width.bytes) heq
  rw [hrow _ _ h.element, hrow _ _ h'.element] at hsame
  subst hsame
  exact ⟨rfl, Nat.eq_of_mul_eq_mul_right hsize (by omega)⟩

/-- A swizzled offset belongs to one offset of the tile. -/
theorem Inside.of_sharedOffset {row' x' : Nat} (h : t.Inside s row x) (h' : t.Inside s row' x')
    (heq : sharedOffset t.width.mask (row * t.width.bytes + s + x * t.size) =
      sharedOffset t.width.mask (row' * t.width.bytes + s + x' * t.size)) :
    row = row' ∧ x = x' := by
  have hlt := h.lt
  have hlt' := h'.lt
  have hfits := t.fits
  exact h.eq h' (sharedOffset_inj t.width.mask_le (by omega) (by omega) heq)

theorem kInjective (t : GmmaTiles) (h : t.KSlice desc s) {row' k' : Nat}
    (hin : t.Inside s row k) (hin' : t.Inside s row' k') {default : Nat}
    (heq : wgmmaGmmaKMajorSmemAddr desc row k t.size default =
      wgmmaGmmaKMajorSmemAddr desc row' k' t.size default) : row = row' ∧ k = k' := by
  have hnat := congrArg BitVec.toNat heq
  rw [t.kPlace h hin, t.kPlace h hin'] at hnat
  exact hin.of_sharedOffset hin' (Nat.add_left_cancel hnat)

/-- Boxes lie apart. -/
theorem boxBase_inj {g g' p p' : Nat} (hg : g < t.groups) (hg' : g' < t.groups) (hp : p < t.tile)
    (hp' : p' < t.tile) (heq : t.boxBase g + p = t.boxBase g' + p') : g = g' ∧ p = p' := by
  unfold boxBase at heq
  have horder : ∀ a b, a < b → b < t.groups → a * t.leading + t.tile ≤ b * t.leading := by
    intro a b hab hb
    have hapart := t.apart (by omega)
    have hmul : (a + 1) * t.leading ≤ b * t.leading := Nat.mul_le_mul_right _ hab
    rw [Nat.succ_mul] at hmul
    omega
  rcases Nat.lt_trichotomy g g' with hlt | rfl | hgt
  · have hle := horder g g' hlt hg'
    omega
  · exact ⟨rfl, by omega⟩
  · have hle := horder g' g hgt hg
    omega

theorem Inside.sharedOffset_lt (h : t.Inside s row x) :
    sharedOffset t.width.mask (row * t.width.bytes + s + x * t.size) < t.tile := by
  have hlt := h.lt
  have hfits := t.fits
  exact t.width.sharedOffset_lt (by omega) t.bytes_dvd_tile hlt

theorem mnInjective (t : GmmaTiles) (h : t.MnSlice desc s) {row' k' : Nat}
    (hg : row / t.rowsPerBox < t.groups) (hg' : row' / t.rowsPerBox < t.groups)
    (hin : t.Inside s k (row % t.rowsPerBox)) (hin' : t.Inside s k' (row' % t.rowsPerBox))
    (heq : wgmmaGmmaMnMajorSmemAddr desc row k t.size =
      wgmmaGmmaMnMajorSmemAddr desc row' k' t.size) : row = row' ∧ k = k' := by
  have hnat := congrArg BitVec.toNat heq
  rw [t.mnPlace h hg hin, t.mnPlace h hg' hin'] at hnat
  obtain ⟨hgroup, hplace⟩ := boxBase_inj hg hg' hin.sharedOffset_lt hin'.sharedOffset_lt hnat
  obtain ⟨hk, hrow⟩ := hin.of_sharedOffset hin' hplace
  refine ⟨?_, hk⟩
  rw [← Nat.div_add_mod row t.rowsPerBox, ← Nat.div_add_mod row' t.rowsPerBox, hgroup, hrow]

/-! ### Contents -/

/-- The load of a box has its bytes at the swizzled offsets. -/
def BoxRight (t : GmmaTiles) (float : FloatReduction) (g : Nat) : Prop :=
  t.Loads float g fun pattern global shared' => ∀ o < t.tile,
    shared' (t.boxBase g + sharedOffset t.width.mask o) = t.tileByte g global pattern o

theorem boxBase_toNat (hg : g < t.groups) : (BitVec.ofNat 32 (t.boxBase g)).toNat = t.boxBase g := by
  have hfits := boxBase_fits hg
  rw [BitVec.toNat_ofNat]
  exact Nat.mod_eq_of_lt (by omega)

theorem boxRight_iff (hg : g < t.groups) : t.BoxRight float g ↔
    CopiesFollowSwizzle t.tm (t.coords g) (BitVec.ofNat 32 (t.boxBase g)) t.width.mask := by
  have hfits := boxBase_fits hg
  have htile := t.tileBytes g
  have hmask : swizzleMask t.tm.swizzle = some t.width.mask := by
    rw [t.swizzle]
    exact t.width.swizzleMask_tma
  have hload : SwizzledLoadRight float t.tm (t.coords g) (BitVec.ofNat 32 (t.boxBase g))
      t.width.mask ↔ CopiesFollowSwizzle t.tm (t.coords g) (BitVec.ofNat 32 (t.boxBase g))
        t.width.mask := swizzledLoad_iff t.valid (by omega) hmask
  rw [← hload]
  unfold BoxRight Loads SwizzledLoadRight tileByte
  rw [htile, boxBase_toNat hg]

theorem Loads.mono {post post' : (Nat → BitVec 8) → ByteMemory → (Nat → BitVec 8) → Prop}
    (h : t.Loads float g post)
    (hpost : ∀ pattern global shared', post pattern global shared' →
      post' pattern global shared') : t.Loads float g post' := by
  intro shared global
  obtain ⟨shared', pattern, hpattern, hrun, hbytes⟩ := h shared global
  exact ⟨shared', pattern, hpattern, hrun, hpost _ _ _ hbytes⟩

/-- The elements of a tile offset. -/
theorem exists_element (ho : o < t.tile) : ∃ row x b, t.Inside 0 row x ∧ b < t.size ∧
    x < t.rowsPerBox ∧ o = row * t.width.bytes + 0 + x * t.size + b := by
  have hpos := t.width.bytes_pos
  have hsize : 0 < t.size := by
    rcases t.elementSize with hsize | hsize | hsize <;> omega
  have hdvd : t.size ∣ t.width.bytes := by
    rcases t.elementSize with hsize | hsize | hsize <;> rw [hsize] <;> cases t.width <;> decide
  have hlt := Nat.mod_lt o hpos
  have helement := Nat.div_add_mod (o % t.width.bytes) t.size
  have hrow := Nat.div_add_mod o t.width.bytes
  have hmul : t.size * (o % t.width.bytes / t.size) = o % t.width.bytes / t.size * t.size :=
    Nat.mul_comm _ _
  have hmul' : t.width.bytes * (o / t.width.bytes) = o / t.width.bytes * t.width.bytes :=
    Nat.mul_comm _ _
  refine ⟨o / t.width.bytes, o % t.width.bytes / t.size, o % t.width.bytes % t.size, ⟨?_, ?_⟩,
    Nat.mod_lt _ hsize, ?_, by omega⟩
  · rw [Nat.div_lt_iff_lt_mul hpos, Nat.div_mul_cancel t.bytes_dvd_tile]
    exact ho
  · omega
  · unfold rowsPerBox
    exact Nat.div_lt_div_of_lt_of_dvd hdvd hlt

theorem period_mod (t : GmmaTiles) {n : Nat} (h : t.width.period ∣ n) : n % 16 = 0 := by
  obtain ⟨q, rfl⟩ := h
  cases t.width <;> simp only [SwizzleWidth.period, SwizzleWidth.bytes] <;> omega

/-- There are slices that begin at the start of the rows. -/
theorem exists_slices (t : GmmaTiles) : (∃ desc, t.KSlice desc 0) ∧ ∃ desc, t.MnSlice desc 0 := by
  have hbase := t.period_mod t.baseAligned
  have hleading := t.period_mod t.leadingAligned
  have hperiod : t.width.period % 16 = 0 ∧ t.width.period < 2 ^ 18 := by
    cases t.width <;> decide
  constructor
  · obtain ⟨desc, hdesc⟩ := t.width.exists_describes hbase t.baseField (by decide : 16 % 16 = 0)
      (by decide) hperiod.1 hperiod.2
    exact ⟨desc, t.width.bytes_pos, 16, .inr rfl, hdesc⟩
  · obtain ⟨desc, hdesc⟩ := t.width.exists_describes hbase t.baseField hleading t.leadingField
      hperiod.1 hperiod.2
    exact ⟨desc, t.width.bytes_pos, hdesc⟩

/-- What is read of an element is what the load left for it. -/
theorem read_element (hs : s % t.size = 0) (hin : t.Inside s row x) (hb : b < t.size) :
    t.boxBase g + sharedOffset t.width.mask (row * t.width.bytes + s + x * t.size) + b =
      t.boxBase g + sharedOffset t.width.mask (row * t.width.bytes + s + x * t.size + b) := by
  have hlt := hin.lt
  have hfits := t.fits
  have hsize : t.size ≤ 4 := by
    rcases t.elementSize with hsize | hsize | hsize <;> omega
  rw [t.sharedOffset_element (by omega) (element_mod hs row x) hb, Nat.add_assoc]

theorem Inside.byte_lt (hs : s % t.size = 0) (hin : t.Inside s row x) (hb : b < t.size) :
    row * t.width.bytes + s + x * t.size + b < t.tile := by
  have hlt := hin.lt
  have hdvd : t.size ∣ t.tile := by
    refine Dvd.dvd.trans ?_ t.bytes_dvd_tile
    rcases t.elementSize with hsize | hsize | hsize <;> rw [hsize] <;> cases t.width <;> decide
  obtain ⟨n, hn⟩ := hdvd
  obtain ⟨i, hi⟩ := Nat.dvd_of_mod_eq_zero (element_mod (t := t) hs row x)
  rw [hi, hn] at hlt
  have hstep : t.size * (i + 1) ≤ t.size * n :=
    Nat.mul_le_mul_left _ (Nat.lt_of_mul_lt_mul_left hlt)
  rw [hi, hn]
  rw [Nat.mul_succ] at hstep
  omega

theorem kStored_iff : (t.Loads float 0 fun pattern global shared' =>
    ∀ desc s, t.KSlice desc s → ∀ row k, t.Inside s row k → ∀ default, ∀ b < t.size,
      shared' ((wgmmaGmmaKMajorSmemAddr desc row k t.size default).toNat + b) =
        t.tileByte 0 global pattern (row * t.width.bytes + s + k * t.size + b)) ↔
    t.BoxRight float 0 := by
  have hfirst : t.boxBase 0 = t.base := by simp [boxBase]
  constructor
  · intro h
    obtain ⟨desc, hslice⟩ := t.exists_slices.1
    refine h.mono fun pattern global shared' hbytes o ho => ?_
    obtain ⟨row, k, b, hin, hb, -, rfl⟩ := exists_element ho
    rw [← read_element (Nat.zero_mod _) hin hb, hfirst, ← t.kPlace hslice hin 0]
    exact hbytes desc 0 hslice row k hin 0 b hb
  · intro h
    refine h.mono fun pattern global shared' hbytes desc s hslice row k hin default b hb => ?_
    obtain ⟨leading, -, hdesc⟩ := hslice.describes
    have hs := start_mod hdesc
    rw [t.kPlace hslice hin default, ← hfirst, read_element hs hin hb]
    exact hbytes _ (hin.byte_lt hs hb)

theorem mnStored_iff (hg : g < t.groups) : (t.Loads float g fun pattern global shared' =>
    ∀ desc s, t.MnSlice desc s → ∀ row k, row / t.rowsPerBox = g →
      t.Inside s k (row % t.rowsPerBox) → ∀ b < t.size,
        shared' ((wgmmaGmmaMnMajorSmemAddr desc row k t.size).toNat + b) =
          t.tileByte g global pattern (k * t.width.bytes + s + row % t.rowsPerBox * t.size + b)) ↔
    t.BoxRight float g := by
  constructor
  · intro h
    obtain ⟨desc, hslice⟩ := t.exists_slices.2
    refine h.mono fun pattern global shared' hbytes o ho => ?_
    obtain ⟨k, x, b, hin, hb, hx, rfl⟩ := exists_element ho
    have hdiv : (g * t.rowsPerBox + x) / t.rowsPerBox = g := by
      rw [Nat.mul_comm, Nat.mul_add_div (by omega), Nat.div_eq_of_lt hx, Nat.add_zero]
    have hmod : (g * t.rowsPerBox + x) % t.rowsPerBox = x := by
      rw [Nat.mul_add_mod_self_right, Nat.mod_eq_of_lt hx]
    have hgroup : (g * t.rowsPerBox + x) / t.rowsPerBox < t.groups := by
      rw [hdiv]
      exact hg
    have hinside : t.Inside 0 k ((g * t.rowsPerBox + x) % t.rowsPerBox) := by
      rw [hmod]
      exact hin
    have hplace := t.mnPlace hslice hgroup hinside
    have hread := hbytes desc 0 hslice (g * t.rowsPerBox + x) k hdiv hinside b hb
    rw [hdiv, hmod] at hplace
    rw [hplace, hmod] at hread
    rw [← read_element (Nat.zero_mod _) hin hb]
    exact hread
  · intro h
    refine h.mono fun pattern global shared' hbytes desc s hslice row k hrow hin b hb => ?_
    have hs := start_mod hslice.describes
    rw [t.mnPlace hslice (by omega) hin, hrow, read_element hs hin hb]
    exact hbytes _ (hin.byte_lt hs hb)

/-- WGMMA reads the tiles where the swizzle has them, each element in its own place, and it reads
what the loads put there exactly when the copies of every load follow the swizzle. -/
theorem gmmaReads_iff (t : GmmaTiles) (float : FloatReduction) :
    (t.KMajor float ∧ t.MnMajor float) ↔ ∀ g < t.groups,
      CopiesFollowSwizzle t.tm (t.coords g) (BitVec.ofNat 32 (t.boxBase g)) t.width.mask := by
  constructor
  · rintro ⟨-, hmn⟩ g hg
    exact (boxRight_iff hg).mp ((mnStored_iff hg).mp (hmn.stored g hg))
  · intro h
    have hright : ∀ g < t.groups, t.BoxRight float g := fun g hg => (boxRight_iff hg).mpr (h g hg)
    refine ⟨⟨fun desc s hslice row k hin default => t.kPlace hslice hin default,
      fun desc s hslice row k row' k' hin hin' default => t.kInjective hslice hin hin',
      kStored_iff.mpr (hright 0 t.groups_pos)⟩, ?_⟩
    exact ⟨fun desc s hslice row k hg hin => t.mnPlace hslice hg hin,
      fun desc s hslice row k row' k' hg hg' hin hin' => t.mnInjective hslice hg hg' hin hin',
      fun g hg => (mnStored_iff hg).mpr (hright g hg)⟩

end GmmaTiles

theorem tileBytes_rowsMap (coords : Nat → BitVec 32) : (rowsMap 128).tileBytes coords = 256 := by
  have hzero := TensorMap.boxCells_axesTo_zero (rowsMap 128) coords
  have hone : boxCells ((rowsMap 128).axesTo coords 1) =
      ((rowsMap 128).boxDim 1).toNat * boxCells ((rowsMap 128).axesTo coords 0) :=
    TensorMap.boxCells_axesTo_succ
  rw [hzero] at hone
  exact hone

/-- One box of two rows of 128 bytes, from a column of the tensor on. -/
def rowTiles (column : BitVec 32) : GmmaTiles where
  width := .b128
  tm := rowsMap 128
  size := 1
  base := 1024
  leading := 0
  groups := 1
  coords := fun _ d => if d = 0 then column else 0
  tile := 256
  valid := by decide
  swizzle := rfl
  row := rfl
  tileBytes := fun _ => tileBytes_rowsMap _
  elementSize := .inl rfl
  baseAligned := ⟨1, rfl⟩
  leadingAligned := ⟨0, rfl⟩
  baseField := by decide
  leadingField := by decide
  groups_pos := Nat.one_pos
  apart := fun h => absurd h (Nat.lt_irrefl 1)
  fits := by decide

theorem gmmaReads_rows : (rowTiles 0).KMajor (fun _ _ dst _ _ => dst) ∧
    (rowTiles 0).MnMajor (fun _ _ dst _ _ => dst) := by
  refine ((rowTiles 0).gmmaReads_iff _).mpr fun g hg => ?_
  obtain rfl : g = 0 := Nat.lt_one_iff.mp hg
  exact copiesFollowSwizzle_of_places (by decide) (by decide) (.inl rfl) (by decide +kernel)
    (by decide +kernel)

/-- The box begins one column before the tensor, so the pieces of its second row are one byte
after the chunks. -/
theorem not_gmmaReads : ¬ ∀ (t : GmmaTiles) (float : FloatReduction),
    t.KMajor float ∧ t.MnMajor float := by
  intro h
  have hright := GmmaTiles.kStored_iff.mp (h (rowTiles (-1)) fun _ _ dst _ _ => dst).1.stored
  have hcopies := (GmmaTiles.boxRight_iff Nat.one_pos).mp hright
  obtain ⟨o, hlast, haddr⟩ := hcopies.copied 144 (by decide) (by decide +kernel)
  have hplaces : ∀ o < 256, copyOffset (rowsMap 128) (fun d => if d = 0 then -1 else 0) o =
      sharedOffset 7 144 → (rowsMap 128).byteAddress (fun d => if d = 0 then -1 else 0) o ≠
        (rowsMap 128).byteAddress (fun d => if d = 0 then -1 else 0) 144 := by
    decide +kernel
  exact hplaces o hlast.lt hlast.place haddr

end FlashGpuSim
