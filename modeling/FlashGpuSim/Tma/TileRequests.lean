import FlashGpuSim.Tma.TensorMap

/-!
The functional copy of a tile: a recursion over the dimensions that leaves out what is outside of
the tensor and cuts each row at the cache lines.
-/

namespace FlashGpuSim

open Lib

structure TmaRequest where
  globalAddr : BitVec 64
  tileOffset : BitVec 64
  size : BitVec 32
deriving DecidableEq, Repr

/-- The distance in the tile of neighbours along a dimension. -/
def tileStride (tm : TensorMap) : Nat → BitVec 64
  | 0 => tm.getElementSize.setWidth 64
  | d + 1 => tileStride tm d * (tm.boxDim d).setWidth 64

def computeTileStrides (tm : TensorMap) (d : Nat) : BitVec 64 :=
  if d < tm.numDims.toNat then tileStride tm d else 0

/-- The bytes up to the next cache line. The mask is a 32-bit number, which clears the upper half
of the next boundary. -/
def bytesToBoundary (currentAddr : BitVec 64) : BitVec 32 :=
  let nextBoundary := (currentAddr + 128) &&& (~~~(128 - 1 : BitVec 32)).setWidth 64
  (nextBoundary - currentAddr).setWidth 32

def genAlignedReqLoop : Nat → BitVec 64 → BitVec 64 → BitVec 32 → List TmaRequest
  | 0, _, _, _ => []
  | fuel + 1, currentAddr, currentTileOffset, remainingBytes =>
    if remainingBytes = 0 then []
    else
      let requestSize := least (least remainingBytes (bytesToBoundary currentAddr)) 128
      ⟨currentAddr, currentTileOffset, requestSize⟩ ::
        genAlignedReqLoop fuel (currentAddr + requestSize.setWidth 64)
          (currentTileOffset + requestSize.setWidth 64) (remainingBytes - requestSize)

def genAlignedReq (startAddr startTileOffset : BitVec 64) (totalBytes : BitVec 32) :
    List TmaRequest :=
  genAlignedReqLoop totalBytes.toNat startAddr startTileOffset totalBytes

def traverseTensorDim (tm : TensorMap) (coords : Nat → BitVec 32) (tileStrides : Nat → BitVec 64) :
    Nat → BitVec 64 → BitVec 64 → List TmaRequest
  | 0, baseAddr, tileOffset =>
    let elemSize := tm.getElementSize
    let startX := (coords 0).toInt
    let boxWidth : Int := (tm.boxDim 0).toNat
    let globalWidth : Int := (tm.globalDim 0).toNat
    if startX ≥ globalWidth ∨ startX + boxWidth ≤ 0 then []
    else
      let validStart := max startX 0
      let validEnd := min (startX + boxWidth) globalWidth
      if validStart ≥ validEnd then []
      else
        genAlignedReq (baseAddr + BitVec.ofInt 64 validStart * elemSize.setWidth 64)
          (tileOffset + BitVec.ofInt 64 (validStart - startX) * elemSize.setWidth 64)
          (BitVec.ofInt 32 (validEnd - validStart) * elemSize)
  | dim + 1, baseAddr, tileOffset =>
    (List.range (tm.boxDim (dim + 1)).toNat).flatMap fun (i : Nat) =>
      let currentCoord := (coords (dim + 1)).toInt + i
      if currentCoord < 0 ∨ currentCoord ≥ (tm.globalDim (dim + 1)).toNat then []
      else
        traverseTensorDim tm coords tileStrides dim
          (baseAddr + BitVec.ofInt 64 currentCoord * tm.globalStrides dim)
          (tileOffset + BitVec.ofNat 64 i * tileStrides (dim + 1))

def generateTmaRequests (tm : TensorMap) (coords : Nat → BitVec 32) : List TmaRequest :=
  if !tm.isValid || tm.tensorRank > 4 then []
  else
    traverseTensorDim tm coords (computeTileStrides tm) (tm.numDims.toNat - 1) tm.globalAddress 0

/-- A byte that a request moves: its tile offset, its global address, and the tile offset of the
first byte of the request. -/
structure RequestByte where
  offset : Nat
  address : BitVec 64
  head : Nat

namespace TmaRequest

def bytes (r : TmaRequest) : List RequestByte :=
  (List.range r.size.toNat).map fun k =>
    ⟨r.tileOffset.toNat + k, r.globalAddr + BitVec.ofNat 64 k, r.tileOffset.toNat⟩

/-- The request has bytes, and they are on one cache line. -/
def OnLine (r : TmaRequest) : Prop :=
  0 < r.size.toNat ∧ r.globalAddr.toNat % 128 + r.size.toNat ≤ 128

end TmaRequest

/-- The mask of the cache lines in 32 bits. -/
theorem and_lineMask (x : Nat) : x &&& 0xFFFFFF80 = x % 2 ^ 32 / 2 ^ 7 * 2 ^ 7 := by
  have hmask : 0xFFFFFF80 = (2 ^ 25 - 1) * 2 ^ 7 := by decide
  apply Nat.eq_of_testBit_eq
  intro i
  rw [hmask, Nat.testBit_and, Nat.testBit_mul_two_pow, Nat.testBit_mul_two_pow,
    Nat.testBit_two_pow_sub_one, Nat.testBit_div_two_pow, Nat.testBit_mod_two_pow]
  rcases Nat.lt_or_ge i 7 with hlt | hle
  · simp [Nat.not_le.mpr hlt]
  · have hback : i - 7 + 7 = i := Nat.sub_add_cancel hle
    have hbound : i - 7 < 25 ↔ i < 32 := by omega
    simp [hle, hback, hbound, Bool.and_comm]

theorem bytesToBoundary_toNat (a : BitVec 64) :
    (bytesToBoundary a).toNat = 128 - a.toNat % 128 := by
  have hmask : ((~~~(128 - 1 : BitVec 32)).setWidth 64).toNat = 0xFFFFFF80 := by decide
  have hline : (128 : BitVec 64).toNat = 128 := rfl
  unfold bytesToBoundary
  rw [BitVec.toNat_setWidth, BitVec.toNat_sub, BitVec.toNat_and, BitVec.toNat_add, hmask, hline,
    and_lineMask]
  omega

variable {a off : BitVec 64} {m : BitVec 32} {n fuel : Nat}

theorem address_toNat (a : BitVec 64) (k : Nat) :
    (a + BitVec.ofNat 64 k).toNat % 128 = (a.toNat + k) % 128 := by
  rw [BitVec.toNat_add, BitVec.toNat_ofNat]
  omega

/-- The requests hold the bytes in order, and each begins where the bytes begin or on a line. -/
theorem genAlignedReqLoop_spec (hfuel : m.toNat ≤ fuel) (hoff : off.toNat + m.toNat < 2 ^ 64) :
    (genAlignedReqLoop fuel a off m).flatMap TmaRequest.bytes =
        (List.range m.toNat).map (fun i => ⟨off.toNat + i, a + BitVec.ofNat 64 i,
          off.toNat + (i - min i ((a.toNat + i) % 128))⟩) ∧
      ∀ r ∈ genAlignedReqLoop fuel a off m, r.OnLine := by
  induction fuel generalizing a off m with
  | zero =>
    rw [Nat.le_zero.mp hfuel]
    exact ⟨rfl, fun r hr => absurd hr List.not_mem_nil⟩
  | succ fuel ih =>
    unfold genAlignedReqLoop
    split
    · rename_i hzero
      rw [hzero]
      exact ⟨rfl, fun r hr => absurd hr List.not_mem_nil⟩
    · rename_i hzero
      have hpos : 0 < m.toNat := Nat.pos_of_ne_zero fun h => hzero (BitVec.eq_of_toNat_eq h)
      dsimp only
      generalize hsize : least (least m (bytesToBoundary a)) 128 = size
      have hn : size.toNat = min m.toNat (128 - a.toNat % 128) := by
        have hline : (128 : BitVec 32).toNat = 128 := rfl
        rw [← hsize, least_toNat, least_toNat, bytesToBoundary_toNat, hline]
        omega
      have hwide : (size.setWidth 64).toNat = size.toNat := by
        rw [BitVec.toNat_setWidth]
        omega
      have hnext : (off + size.setWidth 64).toNat = off.toNat + size.toNat := by
        rw [BitVec.toNat_add, hwide]
        omega
      obtain ⟨rest, hsum⟩ : ∃ rest, m.toNat = size.toNat + rest :=
        Nat.exists_eq_add_of_le (by omega)
      have hrest : (m - size).toNat = rest := by
        rw [BitVec.toNat_sub_of_le (BitVec.le_def.mpr (by omega))]
        omega
      have haddr : a + size.setWidth 64 = a + BitVec.ofNat 64 size.toNat := by
        congr 1
        apply BitVec.eq_of_toNat_eq
        rw [hwide, BitVec.toNat_ofNat]
        omega
      obtain ⟨hbytes, hlines⟩ := @ih (a + size.setWidth 64) (off + size.setWidth 64) (m - size)
        (by omega) (by omega)
      constructor
      · rw [List.flatMap_cons, hbytes, hrest, hnext, haddr, hsum, List.range_add, List.map_append,
          List.map_map]
        congr 1
        · apply List.map_congr_left
          intro k hk
          have hlt : k < size.toNat := List.mem_range.mp hk
          have hself : k - min k ((a.toNat + k) % 128) = 0 := by omega
          rw [hself]
          rfl
        · -- the first request ends at the last byte or on a line
          apply List.map_congr_left
          intro k hk
          have hlt : k < rest := List.mem_range.mp hk
          have hline : (a.toNat + size.toNat) % 128 = 0 := by omega
          have hhead : size.toNat + k - min (size.toNat + k) ((a.toNat + (size.toNat + k)) % 128) =
              size.toNat + (k - min k (k % 128)) := by omega
          have hmod := address_toNat a size.toNat
          have hmin : min k (((a + BitVec.ofNat 64 size.toNat).toNat + k) % 128) =
              min k (k % 128) := by omega
          simp only [Function.comp_apply]
          rw [hhead, hmin, BitVec.add_assoc, ← BitVec.ofNat_add]
          congr 1 <;> omega
      · intro r hr
        rcases List.mem_cons.mp hr with rfl | hr
        · exact ⟨by dsimp only; omega, by dsimp only; omega⟩
        · exact hlines r hr

theorem genAlignedReq_spec (a off : BitVec 64) (m : BitVec 32)
    (hoff : off.toNat + m.toNat < 2 ^ 64) :
    (genAlignedReq a off m).flatMap TmaRequest.bytes =
        (List.range m.toNat).map (fun i => ⟨off.toNat + i, a + BitVec.ofNat 64 i,
          off.toNat + (i - min i ((a.toNat + i) % 128))⟩) ∧
      ∀ r ∈ genAlignedReq a off m, r.OnLine :=
  genAlignedReqLoop_spec (Nat.le_refl _) hoff

variable {tm : TensorMap} {coords : Nat → BitVec 32} {base : BitVec 64} {d i x y : Nat}

/-- The request byte of a tile offset, for a part of the tile that begins at `off` and whose
origin is at `base`. A request begins at the first byte of its row that is in the tensor, or on a
line. -/
def partByte (tm : TensorMap) (coords : Nat → BitVec 32) (d : Nat) (base : BitVec 64) (off x : Nat) :
    RequestByte :=
  let address := base + BitVec.ofInt 64 (cellPlace (tm.axesTo coords d) x)
  ⟨off + x, address,
    off + (x - min (x % tm.rowBytes - tm.leading coords) (address.toNat % 128))⟩

/-- The part's bytes in the tensor. -/
def partBytes (tm : TensorMap) (coords : Nat → BitVec 32) (d : Nat) (base : BitVec 64) (off : Nat) :
    List RequestByte :=
  ((List.range (boxCells (tm.axesTo coords d))).filter (cellInside (tm.axesTo coords d))).map
    (partByte tm coords d base off)

theorem tileStride_toNat (ht : tm.IsTile coords) (hd : d + 1 ≤ tm.tensorRank.toNat) :
    (tileStride tm (d + 1)).toNat = boxCells (tm.axesTo coords d) := by
  have hwide : ∀ w : BitVec 32, (w.setWidth 64).toNat = w.toNat := fun w => by
    rw [BitVec.toNat_setWidth]
    omega
  induction d with
  | zero =>
    have hlt := ht.rowBytes_lt
    rw [TensorMap.boxCells_axesTo_zero, tileStride, tileStride, BitVec.toNat_mul, hwide, hwide]
    apply Nat.mod_eq_of_lt
    unfold TensorMap.rowBytes at hlt
    omega
  | succ d ih =>
    have hlt := ht.axesTo_lt (d := d + 1) (by omega)
    rw [TensorMap.boxCells_axesTo_succ, Nat.mul_comm] at hlt
    rw [TensorMap.boxCells_axesTo_succ, tileStride, BitVec.toNat_mul, hwide, ih (by omega),
      Nat.mul_comm (tm.boxDim (d + 1)).toNat]
    exact Nat.mod_eq_of_lt (by omega)

/-- The places of the bytes of a row follow each other. -/
theorem cellPlace_row (hx : x < tm.rowBytes) :
    cellPlace (tm.axesTo coords 0) x = (coords 0).toInt * tm.getElementSize.toNat + x := by
  have hdiv : x / tm.getElementSize.toNat < (tm.boxDim 0).toNat := Nat.div_lt_of_lt_mul hx
  have hsplit := Nat.mod_add_div x tm.getElementSize.toNat
  have hmod : x / tm.getElementSize.toNat % (tm.boxDim 0).toNat = x / tm.getElementSize.toNat :=
    Nat.mod_eq_of_lt hdiv
  rw [TensorMap.axesTo_zero]
  simp only [cellPlace, TensorMap.byteAxis, TensorMap.axis, hmod, TensorMap.stride_zero]
  conv_rhs => rw [← hsplit]
  push_cast
  ring

/-- The bytes of a row that are in the tensor. -/
theorem cellInside_row (hx : x < tm.rowBytes) : cellInside (tm.axesTo coords 0) x =
    decide (tm.leading coords ≤ x ∧ x < tm.trailing coords) := by
  have hpos : 0 < tm.getElementSize.toNat := tm.elementSize_pos
  have hdiv : x / tm.getElementSize.toNat < (tm.boxDim 0).toNat := Nat.div_lt_of_lt_mul hx
  have hmod : x / tm.getElementSize.toNat % (tm.boxDim 0).toNat = x / tm.getElementSize.toNat :=
    Nat.mod_eq_of_lt hdiv
  have hbyte : tm.byteAxis.holds (x % tm.getElementSize.toNat) = true :=
    TensorMap.byteAxis_holds (Nat.mod_lt x hpos)
  have hlow : tm.leading coords ≤ x ↔ (-(coords 0).toInt).toNat ≤ x / tm.getElementSize.toNat := by
    rw [TensorMap.leading, Nat.le_div_iff_mul_le hpos, Nat.mul_comm]
  have hhigh : x < tm.trailing coords ↔ x / tm.getElementSize.toNat <
      (min ((tm.boxDim 0).toNat : Int) ((tm.globalDim 0).toNat - (coords 0).toInt)).toNat := by
    rw [TensorMap.trailing, Nat.div_lt_iff_lt_mul hpos, Nat.mul_comm]
  have hbox : tm.byteAxis.box = tm.getElementSize.toNat := rfl
  apply Bool.eq_iff_iff.mpr
  rw [TensorMap.axesTo_zero, decide_eq_true_eq, hlow, hhigh]
  simp only [cellInside, hbox, hbyte, Bool.true_and, Bool.and_true]
  simp only [Axis.holds, TensorMap.axis, hmod, decide_eq_true_eq]
  omega

/-- The bytes of a row. -/
theorem partBytes_zero (off : Nat) : partBytes tm coords 0 base off =
    (List.range (tm.trailing coords - tm.leading coords)).map fun i =>
      partByte tm coords 0 base off (tm.leading coords + i) := by
  have hfilter : (List.range tm.rowBytes).filter (cellInside (tm.axesTo coords 0)) =
      (List.range tm.rowBytes).filter
        (fun x => decide (tm.leading coords ≤ x ∧ x < tm.trailing coords)) := by
    apply List.filter_congr
    intro x hx
    exact cellInside_row (List.mem_range.mp hx)
  unfold partBytes
  rw [TensorMap.boxCells_axesTo_zero, hfilter, filter_range_interval (tm.trailing_le coords),
    List.map_map]
  rfl

/-- A byte of a layer of the part. -/
theorem partByte_layer {off : Nat} (hy : y < boxCells (tm.axesTo coords d))
    (hi : i < (tm.boxDim (d + 1)).toNat) :
    partByte tm coords (d + 1) base off (i * boxCells (tm.axesTo coords d) + y) =
      partByte tm coords d
        (base + BitVec.ofInt 64 ((coords (d + 1)).toInt + i) * tm.globalStrides d)
        (off + i * boxCells (tm.axesTo coords d)) y := by
  have hplace : cellPlace (tm.axesTo coords (d + 1)) (i * boxCells (tm.axesTo coords d) + y) =
      cellPlace (tm.axesTo coords d) y +
        ((coords (d + 1)).toInt + i) * (tm.globalStrides d).toNat := by
    rw [TensorMap.axesTo_succ]
    exact cellPlace_append hy hi
  have hrow : (i * boxCells (tm.axesTo coords d) + y) % tm.rowBytes = y % tm.rowBytes := by
    obtain ⟨c, hc⟩ := tm.rowBytes_dvd coords d
    rw [hc, Nat.mul_left_comm, Nat.mul_add_mod]
  have haddr : base + BitVec.ofInt 64 (cellPlace (tm.axesTo coords d) y +
      ((coords (d + 1)).toInt + i) * (tm.globalStrides d).toNat) =
      base + BitVec.ofInt 64 ((coords (d + 1)).toInt + i) * tm.globalStrides d +
        BitVec.ofInt 64 (cellPlace (tm.axesTo coords d) y) := by
    have hstride : BitVec.ofInt 64 ((tm.globalStrides d).toNat : Int) = tm.globalStrides d := by
      simp
    rw [BitVec.ofInt_add, BitVec.ofInt_mul, hstride, BitVec.add_assoc,
      BitVec.add_comm (BitVec.ofInt 64 (cellPlace _ y))]
  have hle := Nat.mod_le y tm.rowBytes
  unfold partByte
  simp only [hplace, hrow, haddr]
  congr 1 <;> omega

/-- The bytes of a part are those of its layers that are in the tensor. -/
theorem partBytes_succ (off : Nat) : partBytes tm coords (d + 1) base off =
    (List.range (tm.boxDim (d + 1)).toNat).flatMap fun i =>
      if (tm.axis coords (d + 1)).holds i then
        partBytes tm coords d
          (base + BitVec.ofInt 64 ((coords (d + 1)).toInt + i) * tm.globalStrides d)
          (off + i * boxCells (tm.axesTo coords d))
      else [] := by
  unfold partBytes
  rw [TensorMap.boxCells_axesTo_succ, range_layers, List.filter_flatMap, List.map_flatMap]
  apply List.flatMap_congr
  intro i hi
  have hlt := List.mem_range.mp hi
  rw [List.filter_map, List.map_map]
  have hinside : ∀ y ∈ List.range (boxCells (tm.axesTo coords d)),
      (cellInside (tm.axesTo coords (d + 1)) ∘ (i * boxCells (tm.axesTo coords d) + ·)) y =
        (cellInside (tm.axesTo coords d) y && (tm.axis coords (d + 1)).holds i) := by
    intro y hy
    rw [TensorMap.axesTo_succ]
    exact cellInside_append (List.mem_range.mp hy) hlt
  rw [List.filter_congr hinside]
  split
  · rename_i hholds
    simp only [hholds, Bool.and_true]
    apply List.map_congr_left
    intro y hy
    exact partByte_layer (List.mem_range.mp (List.mem_filter.mp hy).1) hlt
  · rename_i hholds
    simp [hholds]

/-- A row with no element in the tensor. -/
theorem trailing_le_leading (h : max (coords 0).toInt 0 ≥
    min ((coords 0).toInt + (tm.boxDim 0).toNat) (tm.globalDim 0).toNat) :
    tm.trailing coords ≤ tm.leading coords := by
  apply Nat.mul_le_mul_left
  omega

theorem leading_cast : (max (coords 0).toInt 0 - (coords 0).toInt) * tm.getElementSize.toNat =
    (tm.leading coords : Int) := by
  have hdiff : max (coords 0).toInt 0 - (coords 0).toInt =
      ((-(coords 0).toInt).toNat : Int) := by omega
  rw [hdiff, TensorMap.leading, Nat.mul_comm]
  push_cast
  rfl

theorem trailing_cast (hvalid : max (coords 0).toInt 0 <
    min ((coords 0).toInt + (tm.boxDim 0).toNat) (tm.globalDim 0).toNat) :
    (min ((coords 0).toInt + (tm.boxDim 0).toNat) ((tm.globalDim 0).toNat : Int) -
      (coords 0).toInt) * tm.getElementSize.toNat = (tm.trailing coords : Int) := by
  have hdiff : min ((coords 0).toInt + (tm.boxDim 0).toNat) ((tm.globalDim 0).toNat : Int) -
      (coords 0).toInt = ((min ((tm.boxDim 0).toNat : Int)
        ((tm.globalDim 0).toNat - (coords 0).toInt)).toNat : Int) := by omega
  rw [hdiff, TensorMap.trailing, Nat.mul_comm]
  push_cast
  rfl

theorem leading_lt_trailing (hvalid : max (coords 0).toInt 0 <
    min ((coords 0).toInt + (tm.boxDim 0).toNat) (tm.globalDim 0).toNat) :
    tm.leading coords < tm.trailing coords := by
  have hmul := Int.mul_lt_mul_of_pos_right (Int.sub_lt_sub_right hvalid (coords 0).toInt)
    (Int.ofNat_lt.mpr tm.elementSize_pos)
  rw [leading_cast, trailing_cast hvalid] at hmul
  exact Int.ofNat_lt.mp hmul

/-- The requests of the bytes of a row between its first and its last that is in the tensor. -/
theorem genAlignedReq_row (ht : tm.IsTile coords) {off : BitVec 64}
    (hoff : off.toNat + tm.rowBytes ≤ 2 ^ 32)
    (hvalid : max (coords 0).toInt 0 <
      min ((coords 0).toInt + (tm.boxDim 0).toNat) (tm.globalDim 0).toNat) :
    let validStart := max (coords 0).toInt 0
    let validEnd := min ((coords 0).toInt + (tm.boxDim 0).toNat) ((tm.globalDim 0).toNat : Int)
    let requests := genAlignedReq
      (base + BitVec.ofInt 64 validStart * tm.getElementSize.setWidth 64)
      (off + BitVec.ofInt 64 (validStart - (coords 0).toInt) * tm.getElementSize.setWidth 64)
      (BitVec.ofInt 32 (validEnd - validStart) * tm.getElementSize)
    requests.flatMap TmaRequest.bytes = partBytes tm coords 0 base off.toNat ∧
      ∀ r ∈ requests, r.OnLine := by
  intro validStart validEnd
  have hrow := ht.rowBytes_lt
  have hle := tm.trailing_le coords
  have hwide : ∀ k : Int, BitVec.ofInt 64 k * tm.getElementSize.setWidth 64 =
      BitVec.ofInt 64 (k * tm.getElementSize.toNat) := by
    intro k
    have hsize : tm.getElementSize.setWidth 64 =
        BitVec.ofInt 64 (tm.getElementSize.toNat : Int) := by
      apply BitVec.eq_of_toNat_eq
      simp
    rw [BitVec.ofInt_mul, hsize]
  have hlead : (validStart - (coords 0).toInt) * tm.getElementSize.toNat =
      (tm.leading coords : Int) := leading_cast
  have htrail : (validEnd - (coords 0).toInt) * tm.getElementSize.toNat =
      (tm.trailing coords : Int) := trailing_cast hvalid
  have hlt : tm.leading coords < tm.trailing coords := leading_lt_trailing hvalid
  have hsize : (BitVec.ofInt 32 (validEnd - validStart) * tm.getElementSize).toNat =
      tm.trailing coords - tm.leading coords := by
    have hprod : BitVec.ofInt 32 (validEnd - validStart) * tm.getElementSize =
        BitVec.ofNat 32 (tm.trailing coords - tm.leading coords) := by
      have helem : tm.getElementSize = BitVec.ofInt 32 (tm.getElementSize.toNat : Int) := by simp
      have hdiff : (validEnd - validStart) * tm.getElementSize.toNat =
          ((tm.trailing coords - tm.leading coords : Nat) : Int) := by
        rw [Int.ofNat_sub (Nat.le_of_lt hlt), ← hlead, ← htrail]
        ring
      conv_lhs => rw [helem]
      rw [← BitVec.ofInt_mul, hdiff, BitVec.ofInt_natCast]
    rw [hprod, BitVec.toNat_ofNat]
    omega
  have hoffset : (off + BitVec.ofInt 64 (validStart - (coords 0).toInt) *
      tm.getElementSize.setWidth 64).toNat = off.toNat + tm.leading coords := by
    rw [hwide, hlead, BitVec.ofInt_natCast, BitVec.toNat_add, BitVec.toNat_ofNat]
    omega
  obtain ⟨hbytes, hlines⟩ := genAlignedReq_spec
    (base + BitVec.ofInt 64 validStart * tm.getElementSize.setWidth 64)
    (off + BitVec.ofInt 64 (validStart - (coords 0).toInt) * tm.getElementSize.setWidth 64)
    (BitVec.ofInt 32 (validEnd - validStart) * tm.getElementSize) (by omega)
  constructor
  · rw [hbytes, hsize, hoffset, partBytes_zero]
    apply List.map_congr_left
    intro i hi
    have hi := List.mem_range.mp hi
    have haddr : base + BitVec.ofInt 64 validStart * tm.getElementSize.setWidth 64 +
        BitVec.ofNat 64 i =
          base + BitVec.ofInt 64 (cellPlace (tm.axesTo coords 0) (tm.leading coords + i)) := by
      have hplace : (coords 0).toInt * tm.getElementSize.toNat + (tm.leading coords + i : Nat) =
          validStart * tm.getElementSize.toNat + (i : Int) := by
        push_cast
        rw [← hlead]
        ring
      rw [cellPlace_row (by omega), hplace, hwide, BitVec.ofInt_add, BitVec.ofInt_natCast,
        BitVec.add_assoc]
    have hmod := address_toNat (base + BitVec.ofInt 64 validStart *
      tm.getElementSize.setWidth 64) i
    unfold partByte
    dsimp only
    rw [← haddr, hmod, Nat.mod_eq_of_lt (by omega : tm.leading coords + i < tm.rowBytes)]
    congr 1 <;> omega
  · exact hlines

/-- The requests of a row in the tensor. -/
theorem traverseTensorDim_zero (ht : tm.IsTile coords) {off : BitVec 64}
    (hoff : off.toNat + tm.rowBytes ≤ 2 ^ 32) :
    let requests := traverseTensorDim tm coords (computeTileStrides tm) 0 base off
    requests.flatMap TmaRequest.bytes = partBytes tm coords 0 base off.toNat ∧
      ∀ r ∈ requests, r.OnLine := by
  have hnone : tm.trailing coords ≤ tm.leading coords →
      ([] : List TmaRequest).flatMap TmaRequest.bytes = partBytes tm coords 0 base off.toNat ∧
        ∀ r ∈ ([] : List TmaRequest), r.OnLine := by
    intro hle
    rw [partBytes_zero, Nat.sub_eq_zero_of_le hle]
    exact ⟨rfl, fun r hr => absurd hr List.not_mem_nil⟩
  dsimp only
  unfold traverseTensorDim
  dsimp only
  split
  · rename_i hout
    exact hnone (trailing_le_leading (by omega))
  · rename_i hout
    split
    · rename_i hempty
      exact hnone (trailing_le_leading hempty)
    · rename_i hvalid
      exact genAlignedReq_row ht hoff (Int.not_le.mp hvalid)

/-- A traversal requests the bytes of its part of the tile. -/
theorem traverseTensorDim_spec (ht : tm.IsTile coords) (hd : d ≤ tm.tensorRank.toNat)
    {off : BitVec 64} (hoff : off.toNat + boxCells (tm.axesTo coords d) ≤ 2 ^ 32) :
    let requests := traverseTensorDim tm coords (computeTileStrides tm) d base off
    requests.flatMap TmaRequest.bytes = partBytes tm coords d base off.toNat ∧
      ∀ r ∈ requests, r.OnLine := by
  dsimp only
  induction d generalizing base off with
  | zero =>
    rw [TensorMap.boxCells_axesTo_zero] at hoff
    exact traverseTensorDim_zero ht hoff
  | succ d ih =>
    have hfits := ht.axesTo_lt hd
    rw [TensorMap.boxCells_axesTo_succ] at hoff hfits
    have hstride : (computeTileStrides tm (d + 1)).toNat = boxCells (tm.axesTo coords d) := by
      unfold computeTileStrides
      rw [if_pos (by rw [TensorMap.numDims_toNat ht.valid]; omega), tileStride_toNat ht hd]
    have hlayer : ∀ i < (tm.boxDim (d + 1)).toNat,
        (off + BitVec.ofNat 64 i * computeTileStrides tm (d + 1)).toNat =
          off.toNat + i * boxCells (tm.axesTo coords d) ∧
        off.toNat + i * boxCells (tm.axesTo coords d) + boxCells (tm.axesTo coords d) ≤
          2 ^ 32 := by
      intro i hi
      have hmul := Nat.mul_le_mul_right (boxCells (tm.axesTo coords d)) hi
      rw [Nat.succ_mul] at hmul
      constructor
      · rw [BitVec.toNat_add, BitVec.toNat_mul, BitVec.toNat_ofNat, hstride]
        rw [Nat.mod_eq_of_lt (by omega : i < 2 ^ 64)]
        rw [Nat.mod_eq_of_lt (by omega : i * boxCells (tm.axesTo coords d) < 2 ^ 64)]
        omega
      · omega
    have hholds : ∀ i : Nat, ((coords (d + 1)).toInt + i < 0 ∨
        (coords (d + 1)).toInt + i ≥ (tm.globalDim (d + 1)).toNat) ↔
          ¬ (tm.axis coords (d + 1)).holds i = true := by
      intro i
      rw [Axis.holds_iff]
      simp only [TensorMap.axis]
      omega
    unfold traverseTensorDim
    constructor
    · rw [List.flatMap_assoc, partBytes_succ]
      apply List.flatMap_congr
      intro i hi
      obtain ⟨hnat, hle⟩ := hlayer i (List.mem_range.mp hi)
      dsimp only
      split
      · rename_i hout
        rw [if_neg ((hholds i).mp hout)]
        rfl
      · rename_i hin
        rw [if_pos (not_not.mp (mt (hholds i).mpr hin))]
        rw [(ih (by omega) (by rw [hnat]; exact hle)).1, hnat]
    · intro r hr
      obtain ⟨i, hi, hr⟩ := List.mem_flatMap.mp hr
      obtain ⟨hnat, hle⟩ := hlayer i (List.mem_range.mp hi)
      dsimp only at hr
      split at hr
      · exact absurd hr List.not_mem_nil
      · exact (ih (by omega) (by rw [hnat]; exact hle)).2 r hr

/-- The byte of a tile offset, if a request moves it. -/
def tileByte (tm : TensorMap) (coords : Nat → BitVec 32) (offset : Nat) : RequestByte :=
  let address := tm.byteAddress coords offset
  ⟨offset, address,
    offset - min (offset % tm.rowBytes - tm.leading coords) (address.toNat % 128)⟩

/-- The tile offsets that are in the tensor. -/
def validOffsets (tm : TensorMap) (coords : Nat → BitVec 32) : List Nat :=
  (List.range (tm.tileBytes coords)).filter (tm.byteInside coords)

/-- A box with an empty dimension has no requests. -/
theorem traverseTensorDim_empty {i : Nat} {off : BitVec 64} (hi : i ≤ d)
    (hempty : (tm.boxDim i).toNat = 0) :
    traverseTensorDim tm coords (computeTileStrides tm) d base off = [] := by
  induction d generalizing base off with
  | zero =>
    rw [Nat.le_zero.mp hi] at hempty
    unfold traverseTensorDim
    dsimp only
    split
    · rfl
    · rw [if_pos (by omega)]
  | succ d ih =>
    unfold traverseTensorDim
    rcases Nat.lt_or_ge d i with hlt | hle
    · rw [← Nat.le_antisymm hi hlt, hempty]
      rfl
    · apply List.flatMap_eq_nil_iff.mpr
      intro j _
      dsimp only
      split
      · rfl
      · exact ih hle

/-- The requests of the functional copy move each byte in the tensor once, in the order of the
tile, and none of them leaves its cache line. -/
theorem generateTmaRequests_spec (hvalid : tm.isValid = true)
    (hfits : tm.tileBytes coords < 2 ^ 32) :
    (generateTmaRequests tm coords).flatMap TmaRequest.bytes =
        (validOffsets tm coords).map (tileByte tm coords) ∧
      ∀ r ∈ generateTmaRequests tm coords, r.OnLine := by
  have hguard : (!tm.isValid || tm.tensorRank > 4) = false := by
    rw [hvalid, decide_eq_false (TensorMap.not_rank_gt hvalid)]
    rfl
  have hdims : tm.numDims.toNat - 1 = tm.tensorRank.toNat := by
    rw [TensorMap.numDims_toNat hvalid]
    omega
  unfold generateTmaRequests
  rw [if_neg (by rw [hguard]; exact Bool.false_ne_true), hdims]
  by_cases hboxes : ∀ d < tm.numDims.toNat, 0 < (tm.boxDim d).toNat
  · have ht : tm.IsTile coords := ⟨hvalid, hboxes, hfits⟩
    have hspec := @traverseTensorDim_spec tm coords tm.globalAddress _ ht (Nat.le_refl _) 0
      ((Nat.zero_add _).trans_le (Nat.le_of_lt ht.fits))
    have hbytes : partBytes tm coords tm.tensorRank.toNat tm.globalAddress 0 =
        (validOffsets tm coords).map (tileByte tm coords) := by
      apply List.map_congr_left
      intro x _
      unfold partByte tileByte
      simp only [Nat.zero_add]
      rfl
    rw [← hbytes]
    exact hspec
  · obtain ⟨i, hi, hempty⟩ : ∃ i ≤ tm.tensorRank.toNat, (tm.boxDim i).toNat = 0 := by
      push Not at hboxes
      obtain ⟨i, hi, hle⟩ := hboxes
      rw [TensorMap.numDims_toNat hvalid] at hi
      exact ⟨i, by omega, by omega⟩
    have hnone : tm.tileBytes coords = 0 := TensorMap.boxCells_axesTo_empty hi hempty
    rw [traverseTensorDim_empty hi hempty]
    unfold validOffsets
    rw [hnone]
    exact ⟨rfl, fun r hr => absurd hr List.not_mem_nil⟩

end FlashGpuSim
