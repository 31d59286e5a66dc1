import FlashGpuSim.Tma.AddressUnit
import FlashGpuSim.Tma.TileTransfer
import Mathlib.Data.List.Nodup
import Mathlib.Data.List.Pairwise
import Mathlib.Data.Finset.Prod
import Mathlib.Data.Finset.Card

/-!
Reductions of tiles. A tensor store that reduces takes the elements of the tile one request at a
time, so it works on whole elements only when no element is cut at a cache line, and it works on
each element once only when no two of them overlap.
-/

namespace FlashGpuSim

open Lib

variable {tm : TensorMap} {coords : Nat → BitVec 32} {smem : BitVec 32} {o n k : Nat}
  {r : TmaRequest}

section

variable (hvalid : tm.isValid = true) (hfits : tm.tileBytes coords < 2 ^ 32)

include hvalid hfits

/-- A byte of a request is a byte of the tile. -/
theorem request_byte (hr : r ∈ generateTmaRequests tm coords) (hk : k < r.size.toNat) :
    r.tileOffset.toNat + k ∈ validOffsets tm coords ∧
      r.globalAddr + BitVec.ofNat 64 k = tm.byteAddress coords (r.tileOffset.toNat + k) ∧
      r.tileOffset.toNat = (tileByte tm coords (r.tileOffset.toNat + k)).head := by
  obtain ⟨hbytes, -⟩ := generateTmaRequests_spec hvalid hfits
  have hmem : (⟨r.tileOffset.toNat + k, r.globalAddr + BitVec.ofNat 64 k, r.tileOffset.toNat⟩ :
      RequestByte) ∈ (generateTmaRequests tm coords).flatMap TmaRequest.bytes :=
    List.mem_flatMap.mpr ⟨r, hr, List.mem_map.mpr ⟨k, List.mem_range.mpr hk, rfl⟩⟩
  rw [hbytes] at hmem
  obtain ⟨o, ho, heq⟩ := List.mem_map.mp hmem
  have hoffset : o = r.tileOffset.toNat + k := congrArg RequestByte.offset heq
  subst hoffset
  exact ⟨ho, (congrArg RequestByte.address heq).symm, (congrArg RequestByte.head heq).symm⟩

/-- A byte of the tile is in a request. -/
theorem request_cover (ho : o ∈ validOffsets tm coords) :
    ∃ r ∈ generateTmaRequests tm coords, r.tileOffset.toNat = (tileByte tm coords o).head ∧
      ∃ k < r.size.toNat, r.tileOffset.toNat + k = o := by
  obtain ⟨hbytes, -⟩ := generateTmaRequests_spec hvalid hfits
  have hmem : tileByte tm coords o ∈ (validOffsets tm coords).map (tileByte tm coords) :=
    List.mem_map_of_mem ho
  rw [← hbytes] at hmem
  obtain ⟨r, hr, hmem⟩ := List.mem_flatMap.mp hmem
  obtain ⟨k, hk, heq⟩ := List.mem_map.mp hmem
  exact ⟨r, hr, congrArg RequestByte.head heq, k, List.mem_range.mp hk,
    congrArg RequestByte.offset heq⟩

/-- No two requests have a byte of the tile in common. -/
theorem request_unique {r' : TmaRequest} (hr : r ∈ generateTmaRequests tm coords)
    (hr' : r' ∈ generateTmaRequests tm coords) (hk : k < r.size.toNat) {k' : Nat}
    (hk' : k' < r'.size.toNat) (heq : r.tileOffset.toNat + k = r'.tileOffset.toNat + k') :
    r = r' := by
  obtain ⟨hbytes, -⟩ := generateTmaRequests_spec hvalid hfits
  have hnodup : ((generateTmaRequests tm coords).flatMap fun r =>
      r.bytes.map RequestByte.offset).Nodup := by
    rw [← List.map_flatMap, hbytes, List.map_map]
    have hid : RequestByte.offset ∘ tileByte tm coords = id := rfl
    rw [hid, List.map_id]
    exact List.nodup_range.filter _
  by_contra hne
  have hsymm : Std.Symm (List.Disjoint.onFun fun r : TmaRequest =>
      r.bytes.map RequestByte.offset) := ⟨fun _ _ h => h.symm⟩
  have hdisjoint := (List.nodup_flatMap.mp hnodup).2.forall hr hr' hne
  apply hdisjoint (a := r.tileOffset.toNat + k)
  · exact List.mem_map.mpr ⟨_, List.mem_map.mpr ⟨k, List.mem_range.mpr hk, rfl⟩, rfl⟩
  · rw [heq]
    exact List.mem_map.mpr ⟨_, List.mem_map.mpr ⟨k', List.mem_range.mpr hk', rfl⟩, rfl⟩

end

/-- The axes of the box, element by element. -/
def boxAxes (tm : TensorMap) (coords : Nat → BitVec 32) : List Axis :=
  (List.range (tm.tensorRank.toNat + 1)).map (tm.axis coords)

def elementCount (tm : TensorMap) (coords : Nat → BitVec 32) : Nat := boxCells (boxAxes tm coords)

/-- The element is inside of the tensor in every dimension. -/
def elementInside (tm : TensorMap) (coords : Nat → BitVec 32) (n : Nat) : Bool :=
  cellInside (boxAxes tm coords) n

/-- The address of an element of `size` bytes: the coordinates times the strides, where the
elements of a row follow each other. -/
def elementAddress (tm : TensorMap) (coords : Nat → BitVec 32) (size n : Nat) : BitVec 64 :=
  tm.globalAddress + BitVec.ofInt 64 (cellPlace ((List.range (tm.tensorRank.toNat + 1)).map fun d =>
    { tm.axis coords d with stride := if d = 0 then size else (tm.stride d).toNat }) n)

/-- An element of `size` bytes in global memory. -/
def globalElement (tm : TensorMap) (coords : Nat → BitVec 32) (size : Nat) (global : ByteMemory)
    (n : Nat) : BitVec (8 * size) :=
  loadElement size (fun k => global (elementAddress tm coords size n + BitVec.ofNat 64 k).toNat) 0

/-- An element of the tile in shared memory. -/
def sharedElement (smem : BitVec 32) (size : Nat) (shared : ByteMemory) (n : Nat) :
    BitVec (8 * size) :=
  loadElement size (shared.read smem.toNat) n

theorem tileBytes_eq_elements : tm.tileBytes coords =
    tm.getElementSize.toNat * elementCount tm coords := boxCells_cons

theorem byteInside_element (o : Nat) : tm.byteInside coords o =
    elementInside tm coords (o / tm.getElementSize.toNat) := by
  have hbyte : tm.byteAxis.holds (o % tm.byteAxis.box) = true :=
    TensorMap.byteAxis_holds (Nat.mod_lt o tm.elementSize_pos)
  have hsplit : tm.byteInside coords o = (tm.byteAxis.holds (o % tm.byteAxis.box) &&
      elementInside tm coords (o / tm.getElementSize.toNat)) := rfl
  rw [hsplit, hbyte, Bool.true_and]

theorem byteAddress_element (o : Nat) : tm.byteAddress coords o =
    elementAddress tm coords tm.getElementSize.toNat (o / tm.getElementSize.toNat) +
      BitVec.ofNat 64 (o % tm.getElementSize.toNat) := by
  have haxes : ((List.range (tm.tensorRank.toNat + 1)).map fun d => { tm.axis coords d with
      stride := if d = 0 then tm.getElementSize.toNat else (tm.stride d).toNat }) =
        boxAxes tm coords := by
    apply List.map_congr_left
    intro d _
    cases d with
    | zero =>
      unfold TensorMap.axis
      rw [if_pos rfl, TensorMap.stride_zero]
    | succ d => rfl
  have hsplit : tm.byteAddress coords o = tm.globalAddress + BitVec.ofInt 64
      ((0 + (o % tm.getElementSize.toNat : Nat)) * (1 : Nat) +
        cellPlace (boxAxes tm coords) (o / tm.getElementSize.toNat)) := rfl
  unfold elementAddress
  rw [hsplit, haxes, Int.zero_add, Nat.cast_one, Int.mul_one, BitVec.ofInt_add,
    BitVec.ofInt_natCast, BitVec.add_assoc, BitVec.add_comm (BitVec.ofNat 64 _)]

theorem mem_validOffsets_element : o ∈ validOffsets tm coords ↔
    o / tm.getElementSize.toNat < elementCount tm coords ∧
      elementInside tm coords (o / tm.getElementSize.toNat) = true := by
  unfold validOffsets
  rw [List.mem_filter, List.mem_range, tileBytes_eq_elements, byteInside_element,
    Nat.div_lt_iff_lt_mul tm.elementSize_pos, Nat.mul_comm]

/-- No element of the tile in the tensor is on two cache lines. -/
def OnLines (tm : TensorMap) (coords : Nat → BitVec 32) (size : Nat) : Prop :=
  ∀ n < elementCount tm coords, elementInside tm coords n = true →
    (elementAddress tm coords size n).toNat % 128 + size ≤ 128

theorem head_eq (o : Nat) : (tileByte tm coords o).head =
    o - min (o % tm.rowBytes - tm.leading coords) ((tm.byteAddress coords o).toNat % 128) := rfl

/-- A byte in the tensor is not before the tensor's first byte in its row. -/
theorem leading_le (ho : o ∈ validOffsets tm coords) :
    0 < tm.rowBytes ∧ tm.leading coords ≤ o % tm.rowBytes ∧
      o % tm.rowBytes < tm.trailing coords := by
  obtain ⟨hrange, hin⟩ := List.mem_filter.mp ho
  have hlt := List.mem_range.mp hrange
  have hrow : 0 < tm.rowBytes :=
    Nat.pos_of_dvd_of_pos (tm.rowBytes_dvd coords _) (Nat.zero_lt_of_lt hlt)
  rw [byteInside_eq, Bool.and_eq_true, cellInside_row (Nat.mod_lt o hrow),
    decide_eq_true_eq] at hin
  exact ⟨hrow, hin.1⟩

theorem dvd_of_row_start (h : o % tm.rowBytes = tm.leading coords) :
    tm.getElementSize.toNat ∣ o := by
  rw [← Nat.div_add_mod o tm.rowBytes, h]
  exact Nat.dvd_add ((Dvd.intro _ rfl : tm.getElementSize.toNat ∣ tm.rowBytes).mul_right _)
    (Dvd.intro _ rfl)

/-- The bytes of an element on one line. -/
theorem byteAddress_mod (hlines : OnLines tm coords tm.getElementSize.toNat)
    (ho : o ∈ validOffsets tm coords) : (tm.byteAddress coords o).toNat % 128 =
      (elementAddress tm coords tm.getElementSize.toNat (o / tm.getElementSize.toNat)).toNat % 128 +
        o % tm.getElementSize.toNat := by
  obtain ⟨hlt, hin⟩ := mem_validOffsets_element.mp ho
  have hfits := hlines _ hlt hin
  have hmod := Nat.mod_lt o tm.elementSize_pos
  rw [byteAddress_element, address_toNat]
  omega

section

variable (hvalid : tm.isValid = true) (hfits : tm.tileBytes coords < 2 ^ 32)

include hvalid hfits

/-- A request that does not begin at the first byte of its row begins on a line. -/
theorem request_start (hr : r ∈ generateTmaRequests tm coords) :
    r.tileOffset.toNat ∈ validOffsets tm coords ∧
      (r.tileOffset.toNat % tm.rowBytes = tm.leading coords ∨
        (tm.byteAddress coords r.tileOffset.toNat).toNat % 128 = 0) := by
  have hpos := ((generateTmaRequests_spec hvalid hfits).2 r hr).1
  obtain ⟨hmem, -, hhead⟩ := request_byte hvalid hfits hr hpos
  rw [Nat.add_zero] at hmem hhead
  obtain ⟨-, hlead, -⟩ := leading_le hmem
  have hle := Nat.mod_le r.tileOffset.toNat tm.rowBytes
  rw [head_eq] at hhead
  exact ⟨hmem, by omega⟩

/-- The requests begin with whole elements. -/
theorem request_head_dvd (hlines : OnLines tm coords tm.getElementSize.toNat)
    (hr : r ∈ generateTmaRequests tm coords) : tm.getElementSize.toNat ∣ r.tileOffset.toNat := by
  obtain ⟨hmem, hrow | hline⟩ := request_start hvalid hfits hr
  · exact dvd_of_row_start hrow
  · rw [byteAddress_mod hlines hmem] at hline
    exact Nat.dvd_of_mod_eq_zero (Nat.eq_zero_of_add_eq_zero_left hline)

/-- The requests end with whole elements. -/
theorem request_size_dvd (hlines : OnLines tm coords tm.getElementSize.toNat)
    (hr : r ∈ generateTmaRequests tm coords) : tm.getElementSize.toNat ∣ r.size.toNat := by
  have hpos := ((generateTmaRequests_spec hvalid hfits).2 r hr).1
  have hhead := request_head_dvd hvalid hfits hlines hr
  rw [← Nat.dvd_add_right hhead]
  by_contra hcut
  -- the next byte is of the same element, so it is in the same request
  obtain ⟨last, hlast⟩ : ∃ last, last + 1 = r.size.toNat := Nat.exists_add_one_eq.mpr hpos
  obtain ⟨hmem, -, hstart⟩ := request_byte hvalid hfits hr (by omega : last < r.size.toNat)
  generalize ho : r.tileOffset.toNat + last = o at hmem hstart
  have hnext : r.tileOffset.toNat + r.size.toNat = o + 1 := by omega
  rw [hnext] at hcut
  have helem : o % tm.getElementSize.toNat + 1 < tm.getElementSize.toNat := by
    have hlt := Nat.mod_lt o tm.elementSize_pos
    by_contra hend
    exact hcut (Nat.dvd_of_mod_eq_zero (layer_end tm.elementSize_pos (by omega)).1)
  obtain ⟨hmod, hdiv⟩ := layer_within helem
  have hmem' : o + 1 ∈ validOffsets tm coords := by
    rw [mem_validOffsets_element, hdiv]
    exact mem_validOffsets_element.mp hmem
  obtain ⟨hrow, hlead, -⟩ := leading_le hmem
  have hrowmod : (o + 1) % tm.rowBytes = o % tm.rowBytes + 1 := by
    have hlt := Nat.mod_lt o hrow
    refine (layer_within ?_).1
    by_contra hend
    have hzero := (layer_end hrow (by omega : o % tm.rowBytes + 1 = tm.rowBytes)).1
    exact hcut ((Dvd.intro _ rfl : tm.getElementSize.toNat ∣ tm.rowBytes).trans
      (Nat.dvd_of_mod_eq_zero hzero))
  have haddr := byteAddress_mod hlines hmem
  have haddr' := byteAddress_mod hlines hmem'
  rw [hdiv, hmod] at haddr'
  obtain ⟨r', hr', hhead', k', hk', hoff'⟩ := request_cover hvalid hfits hmem'
  have hle := Nat.mod_le o tm.rowBytes
  rw [head_eq] at hstart hhead'
  have hsame : r.tileOffset.toNat = r'.tileOffset.toNat := by omega
  have heq := request_unique hvalid hfits hr hr' hpos (Nat.zero_lt_of_lt hk')
    (by rw [hsame])
  subst heq
  omega

end

/-- The byte that a tile offset has after the reduction. -/
def reducedByte (tm : TensorMap) (coords : Nat → BitVec 32) (op : TmaReductionOp) (size : Nat)
    (signed : Bool) (smem : BitVec 32) (shared global : ByteMemory) (o : Nat) : BitVec 8 :=
  byteOf ((op.reduceElement signed (globalElement tm coords size global (o / size))
    (sharedElement smem size shared (o / size))).getD 0).toNat (o % size)

section

variable {op : TmaReductionOp} {size : Nat} {signed : Bool} {shared global : ByteMemory}
  (hvalid : tm.isValid = true) (hfits : tm.tileBytes coords < 2 ^ 32)
  (hlines : OnLines tm coords tm.getElementSize.toNat)

include hvalid hfits hlines

/-- The bytes of the element of a byte are in the same request. -/
theorem request_element (hr : r ∈ generateTmaRequests tm coords) (hk : k < r.size.toNat)
    {j : Nat} (hj : j < tm.getElementSize.toNat) :
    k / tm.getElementSize.toNat * tm.getElementSize.toNat + j < r.size.toNat ∧
      r.globalAddr.toNat + (k / tm.getElementSize.toNat * tm.getElementSize.toNat + j) =
        (elementAddress tm coords tm.getElementSize.toNat
          ((r.tileOffset.toNat + k) / tm.getElementSize.toNat) + BitVec.ofNat 64 j).toNat ∧
      (r.tileOffset.toNat + k) / tm.getElementSize.toNat * tm.getElementSize.toNat =
        r.tileOffset.toNat + k / tm.getElementSize.toNat * tm.getElementSize.toNat := by
  have hpos := tm.elementSize_pos
  obtain ⟨a, ha⟩ := request_head_dvd hvalid hfits hlines hr
  obtain ⟨c, hc⟩ := request_size_dvd hvalid hfits hlines hr
  have hline := (generateTmaRequests_spec hvalid hfits).2 r hr
  have hlt : k / tm.getElementSize.toNat * tm.getElementSize.toNat + j < r.size.toNat := by
    have hdiv : k / tm.getElementSize.toNat < c := Nat.div_lt_of_lt_mul (hc ▸ hk)
    have hmul := Nat.mul_le_mul_right tm.getElementSize.toNat hdiv
    rw [Nat.succ_mul, Nat.mul_comm c] at hmul
    rw [hc]
    omega
  have hdiv : (r.tileOffset.toNat + k) / tm.getElementSize.toNat =
      a + k / tm.getElementSize.toNat := by
    rw [ha, Nat.mul_add_div hpos]
  refine ⟨hlt, ?_, ?_⟩
  · obtain ⟨-, haddr, -⟩ := request_byte hvalid hfits hr hlt
    have hoffset : r.tileOffset.toNat +
        (k / tm.getElementSize.toNat * tm.getElementSize.toNat + j) =
          (a + k / tm.getElementSize.toNat) * tm.getElementSize.toNat + j := by
      rw [ha]
      ring
    obtain ⟨hmod, hdiv'⟩ := layer_div_mod (i := a + k / tm.getElementSize.toNat) hj
    rw [← hline.address hlt, haddr, hoffset, byteAddress_element, hmod, hdiv', hdiv]
  · rw [hdiv, ha]
    ring

/-- A reduction of a request changes the bytes of its elements, each once. -/
theorem storeRequest_reduce (float : FloatReduction) (hnone : tm.swizzle = tmaSwizzleNone)
    (htype : integerType tm.tensorDataType = some (size, signed))
    (hsupported : tmaTensorReductionSupported op tm.tensorDataType = true)
    (hsize : tm.getElementSize.toNat = size) (hr : r ∈ generateTmaRequests tm coords) :
    storeRequest tm smem float op shared global r = some (global.setCells (r.bytes.map fun b =>
      (b.address.toNat, reducedByte tm coords op size signed smem shared global b.offset))) := by
  have hop := supported_ne_none hsupported
  have hline := (generateTmaRequests_spec hvalid hfits).2 r hr
  obtain ⟨data, hgather, hdata⟩ := gatherRequest_eq smem shared (.inl hnone)
    (generateTmaRequests_small hvalid hfits r hr)
  have hwhole : r.size.toNat % size = 0 := by
    rw [← hsize]
    exact Nat.mod_eq_zero_of_dvd (request_size_dvd hvalid hfits hlines hr)
  have helement := fun k hk j hj => request_element hvalid hfits hlines hr (k := k) hk (j := j) hj
  rw [hsize] at helement
  obtain ⟨out, hrun, hout, -⟩ := reduceInteger_spec size signed
    (global.read r.globalAddr.toNat) data hop (r.size.toNat / size)
  have hstore : storeRequest tm smem float op shared global r =
      some (global.write r.globalAddr.toNat r.size.toNat out) := by
    unfold storeRequest
    simp only [hgather, Option.bind_eq_bind, Option.bind_some]
    rw [if_neg hop, hsize, if_neg (not_not.mpr hwhole),
      applyTmaTensorReduction_integer float hsupported htype hwhole, hrun]
    rfl
  rw [hstore, ByteMemory.write_eq_setCells]
  unfold ByteMemory.writeCells TmaRequest.bytes
  rw [List.map_map]
  congr 2
  apply List.map_congr_left
  intro k hk
  have hk := List.mem_range.mp hk
  have hpos : 0 < size := hsize ▸ tm.elementSize_pos
  obtain ⟨value, hvalue, hbytes⟩ := hout (k / size) (by
    rw [Nat.div_lt_iff_lt_mul hpos, Nat.div_mul_cancel (Nat.dvd_of_mod_eq_zero hwhole)]
    exact hk)
  have hglobal : loadElement size (global.read r.globalAddr.toNat) (k / size) =
      globalElement tm coords size global ((r.tileOffset.toNat + k) / size) := by
    apply loadElement_congr
    intro j hj
    rw [Nat.zero_mul, Nat.zero_add]
    exact congrArg global (helement k hk j hj).2.1
  have hshared : loadElement size data (k / size) =
      sharedElement smem size shared ((r.tileOffset.toNat + k) / size) := by
    apply loadElement_congr
    intro j hj
    obtain ⟨hin, -, hplace⟩ := helement k hk j hj
    rw [hdata _ hin, bytePlace_none hnone, hplace, Nat.add_assoc r.tileOffset.toNat]
    rfl
  have hmod : (r.tileOffset.toNat + k) % size = k % size := by
    obtain ⟨a, ha⟩ := request_head_dvd hvalid hfits hlines hr
    rw [ha, hsize, Nat.mul_add_mod]
  have hbyte := hbytes (k % size) (Nat.mod_lt k hpos)
  rw [Nat.div_add_mod'] at hbyte
  simp only [Function.comp_apply]
  rw [hline.address hk]
  unfold reducedByte
  rw [← hglobal, ← hshared, hvalue, hmod, Option.getD_some, hbyte]

/-- A reduction of a tile whose elements are whole and apart, as the cells that it sets. -/
theorem doTmaTransfer_reduce (float : FloatReduction) (hnone : tm.swizzle = tmaSwizzleNone)
    (htype : integerType tm.tensorDataType = some (size, signed))
    (hsupported : tmaTensorReductionSupported op tm.tensorDataType = true)
    (hsize : tm.getElementSize.toNat = size)
    (hdistinct : ((validOffsets tm coords).map fun o => (tm.byteAddress coords o).toNat).Nodup) :
    doTmaTransfer float tm coords shared global smem false op =
      some (shared, global.setCells ((validOffsets tm coords).map fun o =>
        ((tm.byteAddress coords o).toNat,
          reducedByte tm coords op size signed smem shared global o))) := by
  obtain ⟨hbytes, hline⟩ := generateTmaRequests_spec hvalid hfits
  have hcells : ∀ m : ByteMemory, (generateTmaRequests tm coords).flatMap (fun r =>
      r.bytes.map fun b => (b.address.toNat,
        reducedByte tm coords op size signed smem shared m b.offset)) =
      (validOffsets tm coords).map fun o => ((tm.byteAddress coords o).toNat,
        reducedByte tm coords op size signed smem shared m o) := by
    intro m
    rw [← List.map_flatMap, hbytes, List.map_map]
    rfl
  have haddrs : (generateTmaRequests tm coords).flatMap (fun r =>
      r.bytes.map fun b => b.address.toNat) =
        (validOffsets tm coords).map fun o => (tm.byteAddress coords o).toNat := by
    rw [← List.map_flatMap, hbytes, List.map_map]
    rfl
  rw [← haddrs] at hdistinct
  unfold doTmaTransfer
  dsimp only
  rw [if_neg Bool.false_ne_true, foldlM_some global fun global r hr =>
    storeRequest_reduce hvalid hfits hlines float hnone htype hsupported hsize hr]
  have hcopy := @ByteMemory.foldl_ownCells global _ (generateTmaRequests tm coords) (fun m r =>
    r.bytes.map fun b => (b.address.toNat,
      reducedByte tm coords op size signed smem shared m b.offset))
    fun r => r.bytes.map fun b => b.address.toNat
  rw [hcopy, hcells]
  · rfl
  · intro m r _
    rw [List.map_map]
    rfl
  · intro r hr m m' hagree
    apply List.map_congr_left
    intro b hb
    obtain ⟨k, hk, rfl⟩ := List.mem_map.mp hb
    have hk := List.mem_range.mp hk
    have helement : globalElement tm coords size m ((r.tileOffset.toNat + k) / size) =
        globalElement tm coords size m' ((r.tileOffset.toNat + k) / size) := by
      apply loadElement_congr
      intro j hj
      rw [← hsize] at hj
      obtain ⟨hin, haddr, -⟩ := request_element hvalid hfits hlines hr hk hj
      apply hagree
      rw [Nat.zero_mul, Nat.zero_add, ← hsize, ← haddr, ← (hline r hr).address hin]
      exact List.mem_map.mpr ⟨_, List.mem_map.mpr ⟨_, List.mem_range.mpr hin, rfl⟩, rfl⟩
    unfold reducedByte
    rw [helement]
  · exact (List.nodup_flatMap.mp hdistinct).2

end

/-- What a reducing store of a tile should do: each element of the box that is in the tensor is
reduced with the element of the tile, and nothing else changes. -/
def ReducesTile (float : FloatReduction) (tm : TensorMap) (coords : Nat → BitVec 32)
    (smem : BitVec 32) (op : TmaReductionOp) (size : Nat) (signed : Bool) : Prop :=
  ∀ shared global : ByteMemory, ∃ global',
    doTmaTransfer float tm coords shared global smem false op = some (shared, global') ∧
    (∀ n < elementCount tm coords, elementInside tm coords n = true →
      op.reduceElement signed (globalElement tm coords size global n)
        (sharedElement smem size shared n) = some (globalElement tm coords size global' n)) ∧
    ∀ a, (∀ n < elementCount tm coords, elementInside tm coords n = true → ∀ k < size,
      (elementAddress tm coords size n + BitVec.ofNat 64 k).toNat ≠ a) → global' a = global a

/-- The elements of the tile in the tensor do not overlap. -/
def Apart (tm : TensorMap) (coords : Nat → BitVec 32) (size : Nat) : Prop :=
  ∀ n < elementCount tm coords, ∀ n' < elementCount tm coords,
    elementInside tm coords n = true → elementInside tm coords n' = true →
      ∀ k < size, ∀ k' < size,
        elementAddress tm coords size n + BitVec.ofNat 64 k =
          elementAddress tm coords size n' + BitVec.ofNat 64 k' → n = n'

/-- When the reduction works on whole elements, and on each of them once. -/
structure WholeElements (tm : TensorMap) (coords : Nat → BitVec 32) (size : Nat) : Prop where
  narrow : tm.tensorDataType = tmaDtypeS64 →
    ∀ n < elementCount tm coords, elementInside tm coords n = false
  lines : OnLines tm coords size
  apart : Apart tm coords size

theorem nodup_addresses (h : Apart tm coords tm.getElementSize.toNat) :
    ((validOffsets tm coords).map fun o => (tm.byteAddress coords o).toNat).Nodup := by
  apply List.Nodup.map_on _ (List.nodup_range.filter _)
  intro o ho o' ho' heq
  have hpos := tm.elementSize_pos
  have hle := tm.elementSize_le
  obtain ⟨hlt, hin⟩ := mem_validOffsets_element.mp ho
  obtain ⟨hlt', hin'⟩ := mem_validOffsets_element.mp ho'
  have haddr := BitVec.eq_of_toNat_eq heq
  rw [byteAddress_element, byteAddress_element] at haddr
  have hsame := h _ hlt _ hlt' hin hin' _ (Nat.mod_lt o hpos) _ (Nat.mod_lt o' hpos) haddr
  rw [hsame] at haddr
  have hrest := congrArg BitVec.toNat ((BitVec.add_right_inj _).mp haddr)
  rw [BitVec.toNat_ofNat, BitVec.toNat_ofNat] at hrest
  have hmod := Nat.mod_lt o hpos
  have hmod' := Nat.mod_lt o' hpos
  rw [← Nat.div_add_mod o tm.getElementSize.toNat, ← Nat.div_add_mod o' tm.getElementSize.toNat,
    hsame]
  omega

/-- A tile with no element in the tensor has no requests. -/
theorem generateTmaRequests_nil (hvalid : tm.isValid = true)
    (hfits : tm.tileBytes coords < 2 ^ 32)
    (hnone : ∀ n < elementCount tm coords, elementInside tm coords n = false) :
    generateTmaRequests tm coords = [] := by
  rw [List.eq_nil_iff_forall_not_mem]
  intro r hr
  have hpos := ((generateTmaRequests_spec hvalid hfits).2 r hr).1
  obtain ⟨hlt, hin⟩ := mem_validOffsets_element.mp (request_byte hvalid hfits hr hpos).1
  rw [hnone _ hlt] at hin
  cases hin

/-- The tile that the descriptor counts is no larger than the elements. -/
theorem tileBytes_lt {size : Nat} {signed : Bool} (hfits : elementCount tm coords * size < 2 ^ 32)
    (htype : integerType tm.tensorDataType = some (size, signed)) :
    tm.tileBytes coords < 2 ^ 32 := by
  have hle : tm.getElementSize.toNat ≤ size := by
    by_cases hwide : tm.tensorDataType = tmaDtypeS64
    · rw [hwide] at htype
      cases htype
      exact tm.elementSize_le
    · exact Nat.le_of_eq (getElementSize_integer htype hwide)
  have hmul := Nat.mul_le_mul_left (elementCount tm coords) hle
  rw [tileBytes_eq_elements, Nat.mul_comm]
  omega

section

variable {op : TmaReductionOp} {size : Nat} {signed : Bool} {float : FloatReduction}
  (hvalid : tm.isValid = true) (hfits : elementCount tm coords * size < 2 ^ 32)
  (hnone : tm.swizzle = tmaSwizzleNone) (htype : integerType tm.tensorDataType = some (size, signed))
  (hsupported : tmaTensorReductionSupported op tm.tensorDataType = true)

include hvalid hfits hnone htype hsupported

theorem WholeElements.reduces (h : WholeElements tm coords size) :
    ReducesTile float tm coords smem op size signed := by
  intro shared global
  by_cases hwide : tm.tensorDataType = tmaDtypeS64
  · have hout := h.narrow hwide
    refine ⟨global, ?_, fun n hn hin => ?_, fun _ _ => rfl⟩
    · unfold doTmaTransfer
      rw [generateTmaRequests_nil hvalid (tileBytes_lt hfits htype) hout]
      rfl
    · rw [hout n hn] at hin
      cases hin
  · have hsize := getElementSize_integer htype hwide
    have hpos := tm.elementSize_pos
    have htile := tileBytes_lt hfits htype
    have hdistinct := nodup_addresses (hsize ▸ h.apart)
    refine ⟨_, doTmaTransfer_reduce hvalid htile (hsize ▸ h.lines) float hnone htype hsupported
      hsize hdistinct, ?_, ?_⟩
    · intro n hn hin
      obtain ⟨value, hvalue⟩ := reduceElement_isSome signed (supported_ne_none hsupported)
        (globalElement tm coords size global n) (sharedElement smem size shared n)
      rw [hvalue]
      congr 1
      symm
      apply loadElement_byteOf
      intro k hk
      obtain ⟨hmod, hdiv⟩ := layer_div_mod (i := n) hk
      have hmem : n * size + k ∈ validOffsets tm coords := by
        rw [mem_validOffsets_element, hsize, hdiv]
        exact ⟨hn, hin⟩
      have haddr : elementAddress tm coords size n + BitVec.ofNat 64 k =
          tm.byteAddress coords (n * size + k) := by
        rw [byteAddress_element, hsize, hdiv, hmod]
      rw [Nat.zero_mul, Nat.zero_add, haddr]
      apply ByteMemory.setCells_of_mem
      · refine List.mem_map.mpr ⟨_, hmem, Prod.ext rfl ?_⟩
        dsimp only
        unfold reducedByte
        rw [hdiv, hmod, hvalue]
        rfl
      · intro c hc heq
        obtain ⟨o, ho, rfl⟩ := List.mem_map.mp hc
        rw [List.inj_on_of_nodup_map hdistinct ho hmem heq]
        dsimp only
        unfold reducedByte
        rw [hdiv, hmod, hvalue]
        rfl
    · intro a hother
      apply ByteMemory.setCells_of_notMem
      intro c hc heq
      obtain ⟨o, ho, rfl⟩ := List.mem_map.mp hc
      obtain ⟨hlt, hin⟩ := mem_validOffsets_element.mp ho
      rw [hsize] at hlt hin hpos
      apply hother _ hlt hin _ (Nat.mod_lt o hpos)
      rw [← heq, byteAddress_element, hsize]

end

/-- What every step keeps, a fold keeps. -/
theorem foldlM_some_keeps {α β ι : Type} {f : α → ι → Option α} {l : List ι} {a b : α}
    (value : α → β) (hkeep : ∀ i ∈ l, ∀ a b, f a i = some b → value b = value a)
    (h : l.foldlM f a = some b) : value b = value a := by
  induction l generalizing a with
  | nil =>
    cases h
    rfl
  | cons i l ih =>
    rw [List.foldlM_cons] at h
    obtain ⟨c, hc, hrest⟩ := Option.bind_eq_some_iff.mp h
    rw [ih (fun j hj => hkeep j (List.mem_cons_of_mem _ hj)) hrest,
      hkeep i List.mem_cons_self a c hc]

theorem foldlM_some_mem {α ι : Type} {f : α → ι → Option α} {l : List ι} {a b : α}
    (h : l.foldlM f a = some b) : ∀ i ∈ l, ∃ a' b', f a' i = some b' := by
  induction l generalizing a with
  | nil => exact fun i hi => absurd hi List.not_mem_nil
  | cons j l ih =>
    rw [List.foldlM_cons] at h
    obtain ⟨b', hb', hrest⟩ := Option.bind_eq_some_iff.mp h
    intro i hi
    rcases List.mem_cons.mp hi with rfl | hi
    · exact ⟨a, b', hb'⟩
    · exact ih hrest i hi

section

variable {op : TmaReductionOp} {size : Nat} {signed : Bool} {float : FloatReduction}
  {shared global global' : ByteMemory}

/-- A reducing store of a request has whole elements, and it changes nothing else. -/
theorem storeRequest_some (hop : op ≠ .none)
    (h : storeRequest tm smem float op shared global r = some global') :
    tm.getElementSize.toNat ∣ r.size.toNat ∧ ∀ a, (∀ k < r.size.toNat,
      r.globalAddr.toNat + k ≠ a) → global' a = global a := by
  unfold storeRequest at h
  obtain ⟨data, -, h⟩ := Option.bind_eq_some_iff.mp h
  rw [if_neg hop] at h
  split at h
  · cases h
  · rename_i hwhole
    obtain ⟨destination, -, h⟩ := Option.bind_eq_some_iff.mp h
    cases h
    refine ⟨Nat.dvd_of_mod_eq_zero (not_not.mp hwhole), fun a ha => ?_⟩
    unfold ByteMemory.write
    rw [if_neg]
    intro hin
    exact ha (a - r.globalAddr.toNat) (by omega) (by omega)

variable (hvalid : tm.isValid = true) (htile : tm.tileBytes coords < 2 ^ 32)

include hvalid htile

/-- When all requests end with whole elements, they begin with whole elements. -/
theorem request_head_dvd_of_sizes
    (hsizes : ∀ r ∈ generateTmaRequests tm coords, tm.getElementSize.toNat ∣ r.size.toNat) :
    ∀ t, ∀ r ∈ generateTmaRequests tm coords, r.tileOffset.toNat = t →
      tm.getElementSize.toNat ∣ t := by
  intro t
  induction t using Nat.strong_induction_on with
  | _ t ih =>
    rintro r hr rfl
    obtain ⟨hmem, hstart⟩ := request_start hvalid htile hr
    obtain ⟨hrow, hlead, htrail⟩ := leading_le hmem
    by_cases hfirst : r.tileOffset.toNat % tm.rowBytes = tm.leading coords
    · exact dvd_of_row_start hfirst
    · have hline := hstart.resolve_left hfirst
      generalize ht : r.tileOffset.toNat = t at *
      -- the byte before is of the same row, and its request ends here
      have hsplit := Nat.div_add_mod' t tm.rowBytes
      have hlt := Nat.mod_lt t hrow
      obtain ⟨hmod, hdiv⟩ := layer_div_mod (i := t / tm.rowBytes)
        (by omega : t % tm.rowBytes - 1 < tm.rowBytes)
      obtain ⟨hrange, hin⟩ := List.mem_filter.mp hmem
      have hbefore : t / tm.rowBytes * tm.rowBytes + (t % tm.rowBytes - 1) ∈
          validOffsets tm coords := by
        refine List.mem_filter.mpr ⟨List.mem_range.mpr ?_, ?_⟩
        · have hbound := List.mem_range.mp hrange
          omega
        · rw [byteInside_eq, Bool.and_eq_true] at hin ⊢
          rw [hmod, hdiv, cellInside_row (by omega), decide_eq_true_eq]
          exact ⟨by omega, hin.2⟩
      obtain ⟨r', hr', -, k', hk', hoff'⟩ := request_cover hvalid htile hbefore
      have hend : k' + 1 = r'.size.toNat := by
        by_contra hmore
        obtain ⟨-, -, hhead⟩ := request_byte hvalid htile hr' (by omega : k' + 1 < r'.size.toNat)
        have hhere : r'.tileOffset.toNat + (k' + 1) = t := by omega
        rw [hhere, head_eq, hline] at hhead
        omega
      have hsum : t = r'.tileOffset.toNat + r'.size.toNat := by omega
      rw [hsum]
      exact Nat.dvd_add (ih _ (by omega) r' hr' rfl) (hsizes r' hr')

/-- Requests with whole elements leave no element on two lines. -/
theorem onLines_of_sizes
    (hsizes : ∀ r ∈ generateTmaRequests tm coords, tm.getElementSize.toNat ∣ r.size.toNat) :
    OnLines tm coords tm.getElementSize.toNat := by
  intro n hn hin
  by_contra hcut
  have hlt := Nat.mod_lt (elementAddress tm coords tm.getElementSize.toNat n).toNat
    (by decide : 0 < 128)
  obtain ⟨j, hj⟩ : ∃ j, (elementAddress tm coords tm.getElementSize.toNat n).toNat % 128 + j =
      128 := ⟨_, Nat.add_sub_cancel' (Nat.le_of_lt hlt)⟩
  obtain ⟨hmod, hdiv⟩ := layer_div_mod (i := n) (by omega : j < tm.getElementSize.toNat)
  have hmem : n * tm.getElementSize.toNat + j ∈ validOffsets tm coords := by
    rw [mem_validOffsets_element, hdiv]
    exact ⟨hn, hin⟩
  obtain ⟨r, hr, hhead, -⟩ := request_cover hvalid htile hmem
  have hline : (tm.byteAddress coords (n * tm.getElementSize.toNat + j)).toNat % 128 = 0 := by
    rw [byteAddress_element, hdiv, hmod, address_toNat]
    omega
  rw [head_eq, hline, Nat.min_zero, Nat.sub_zero] at hhead
  have hdvd := request_head_dvd_of_sizes hvalid htile hsizes _ r hr hhead
  have hle := Nat.le_of_dvd (by omega) ((Nat.dvd_add_right (Dvd.intro_left n rfl)).mp hdvd)
  omega

end

section

variable {op : TmaReductionOp} {size : Nat} {signed : Bool} {float : FloatReduction}

/-- A byte of an element after the reduction. -/
theorem ReducesTile.byte (h : ReducesTile float tm coords smem op size signed) {shared global global' : ByteMemory} (hrun :
      doTmaTransfer float tm coords shared global smem false op = some (shared, global'))
    (hn : n < elementCount tm coords) (hin : elementInside tm coords n = true) (hk : k < size)
    {value : BitVec (8 * size)} (hvalue : (op.reduceElement signed
      (globalElement tm coords size global n) (sharedElement smem size shared n)).getD 0 = value) :
    global' (elementAddress tm coords size n + BitVec.ofNat 64 k).toNat =
      byteOf value.toNat k := by
  obtain ⟨stored, hrun', helements, -⟩ := h shared global
  rw [hrun] at hrun'
  cases hrun'
  have helement := helements n hn hin
  rw [helement, Option.getD_some] at hvalue
  have hlt := littleEndian_lt size fun k =>
    global' (elementAddress tm coords size n + BitVec.ofNat 64 (0 * size + k)).toNat
  have hpow : 2 ^ (8 * size) = 256 ^ size := Nat.pow_mul 2 8 size
  rw [← hvalue]
  unfold globalElement loadElement
  rw [BitVec.toNat_ofNat, hpow, Nat.mod_eq_of_lt hlt, byteOf_littleEndian _ hk, Nat.zero_mul,
    Nat.zero_add]

theorem ReducesTile.sizes (h : ReducesTile float tm coords smem op size signed)
    (hsupported : tmaTensorReductionSupported op tm.tensorDataType = true) :
    ∀ r ∈ generateTmaRequests tm coords,
    tm.getElementSize.toNat ∣ r.size.toNat := by
  intro r hr
  obtain ⟨global', hrun, -⟩ := h (fun _ => 0) fun _ => 0
  unfold doTmaTransfer at hrun
  dsimp only at hrun
  rw [if_neg Bool.false_ne_true] at hrun
  obtain ⟨stored, hfold, -⟩ := Option.bind_eq_some_iff.mp hrun
  obtain ⟨before, after, hstep⟩ := foldlM_some_mem hfold r hr
  exact (storeRequest_some (supported_ne_none hsupported) hstep).1

/-- The bytes outside of the requests stay as they are. -/
theorem doTmaTransfer_frame (hop : op ≠ .none) (hvalid : tm.isValid = true)
    (htile : tm.tileBytes coords < 2 ^ 32) {shared global global' : ByteMemory} (hrun :
      doTmaTransfer float tm coords shared global smem false op = some (shared, global'))
    {a : Nat} (ha : ∀ o ∈ validOffsets tm coords, (tm.byteAddress coords o).toNat ≠ a) :
    global' a = global a := by
  unfold doTmaTransfer at hrun
  dsimp only at hrun
  rw [if_neg Bool.false_ne_true] at hrun
  obtain ⟨stored, hfold, hpair⟩ := Option.bind_eq_some_iff.mp hrun
  cases hpair
  apply foldlM_some_keeps (fun m : ByteMemory => m a) _ hfold
  intro r hr m m' hstep
  apply (storeRequest_some hop hstep).2
  intro k hk
  obtain ⟨hmem, haddr, -⟩ := request_byte hvalid htile hr hk
  have hline := (generateTmaRequests_spec hvalid htile).2 r hr
  rw [← hline.address hk, haddr]
  exact ha _ hmem

variable (h : ReducesTile float tm coords smem op size signed)
  (htype : integerType tm.tensorDataType = some (size, signed))
  (hsupported : tmaTensorReductionSupported op tm.tensorDataType = true)

include h htype hsupported

/-- Two elements that overlap cannot both be reduced. -/
theorem ReducesTile.apart : Apart tm coords size := by
  intro n hn n' hn' hin hin' k hk k' hk' haddr
  by_contra hne
  obtain ⟨hzero, hother⟩ := separates htype hsupported
  generalize (separator op).1 = old at hzero hother
  generalize (separator op).2 = other at hother
  obtain ⟨global', hrun, -⟩ := h
    (fun a => if smem.toNat + n' * size ≤ a ∧ a < smem.toNat + n' * size + size then other else 0)
    fun _ => old
  have hshared : sharedElement smem size (fun a =>
      if smem.toNat + n' * size ≤ a ∧ a < smem.toNat + n' * size + size then other else 0) n =
        uniform size 0 := by
    unfold sharedElement loadElement uniform ByteMemory.read
    congr 1
    apply littleEndian_congr
    intro j hj
    dsimp only
    rw [if_neg]
    rintro ⟨hlow, hhigh⟩
    rcases Nat.lt_or_gt_of_ne hne with hlt | hgt
    · have hmul := Nat.mul_le_mul_right size hlt
      rw [Nat.succ_mul] at hmul
      omega
    · have hmul := Nat.mul_le_mul_right size hgt
      rw [Nat.succ_mul] at hmul
      omega
  have hshared' : sharedElement smem size (fun a =>
      if smem.toNat + n' * size ≤ a ∧ a < smem.toNat + n' * size + size then other else 0) n' =
        uniform size other := by
    unfold sharedElement loadElement uniform ByteMemory.read
    congr 1
    apply littleEndian_congr
    intro j hj
    dsimp only
    rw [if_pos (by omega)]
  have hbyte := h.byte hrun hn hin hk (by rw [hshared])
  have hbyte' := h.byte hrun hn' hin' hk' (by rw [hshared'])
  rw [haddr, hbyte'] at hbyte
  exact hother k' hk' (hbyte.trans (hzero k hk))

variable (hvalid : tm.isValid = true) (hfits : elementCount tm coords * size < 2 ^ 32)

include hvalid hfits

/-- The descriptor's elements of the signed 64-bit type are too small for it. -/
theorem ReducesTile.narrow (hwide : tm.tensorDataType = tmaDtypeS64) :
    ∀ n < elementCount tm coords, elementInside tm coords n = false := by
  have hsize : size = 8 := by
    rw [hwide] at htype
    cases htype
    rfl
  have helem : tm.getElementSize.toNat = 4 := by
    unfold TensorMap.getElementSize
    rw [hwide]
    rfl
  have hapart := h.apart htype hsupported
  -- contents in which the reduction changes every byte of every element
  obtain ⟨old, other, hchange⟩ : ∃ old other : BitVec 8, ∀ k < size,
      byteOf ((op.reduceElement signed (uniform size old) (uniform size other)).getD 0).toNat k
        ≠ old := by
    obtain ⟨hzero, hother⟩ := separates htype hsupported
    by_cases hold : (separator op).1 = 0
    · rw [hold] at hother
      exact ⟨0, _, hother⟩
    · exact ⟨_, 0, fun k hk heq => hold ((hzero k hk).symm.trans heq).symm⟩
  obtain ⟨global', hrun, -⟩ := h (fun _ => other) fun _ => old
  let inside := (Finset.range (elementCount tm coords)).filter fun n => elementInside tm coords n
  let written := (inside ×ˢ Finset.range 4).image fun p =>
    (tm.byteAddress coords (p.1 * 4 + p.2)).toNat
  let changed := (inside ×ˢ Finset.range 8).image fun p =>
    (elementAddress tm coords size p.1 + BitVec.ofNat 64 p.2).toNat
  have hsub : changed ⊆ written := by
    intro x hx
    obtain ⟨⟨n, k⟩, hp, rfl⟩ := Finset.mem_image.mp hx
    obtain ⟨hn, hk⟩ := Finset.mem_product.mp hp
    obtain ⟨hlt, hin⟩ := Finset.mem_filter.mp hn
    have hk : k < size := hsize ▸ Finset.mem_range.mp hk
    by_contra hnot
    have hclear : ∀ o ∈ validOffsets tm coords, (tm.byteAddress coords o).toNat ≠
        (elementAddress tm coords size n + BitVec.ofNat 64 k).toNat := by
      intro o ho haddr
      rw [mem_validOffsets_element, helem] at ho
      refine hnot (Finset.mem_image.mpr ⟨(o / 4, o % 4), Finset.mem_product.mpr ⟨?_, ?_⟩, ?_⟩)
      · exact Finset.mem_filter.mpr ⟨Finset.mem_range.mpr ho.1, ho.2⟩
      · exact Finset.mem_range.mpr (Nat.mod_lt o (by decide))
      · dsimp only
        rw [Nat.div_add_mod', haddr]
    have hkept := doTmaTransfer_frame (supported_ne_none hsupported) hvalid
      (tileBytes_lt hfits htype) hrun hclear
    have hbyte := h.byte hrun (Finset.mem_range.mp hlt) hin hk rfl
    exact hchange k hk (hbyte.symm.trans hkept)
  have hcard : changed.card = inside.card * 8 := by
    have hinj : Set.InjOn (fun p : Nat × Nat =>
        (elementAddress tm coords size p.1 + BitVec.ofNat 64 p.2).toNat)
        (inside ×ˢ Finset.range 8 : Finset (Nat × Nat)) := by
      rintro ⟨n, k⟩ hp ⟨n', k'⟩ hp' heq
      obtain ⟨hn, hk⟩ := Finset.mem_product.mp (Finset.mem_coe.mp hp)
      obtain ⟨hn', hk'⟩ := Finset.mem_product.mp (Finset.mem_coe.mp hp')
      obtain ⟨hlt, hin⟩ := Finset.mem_filter.mp hn
      obtain ⟨hlt', hin'⟩ := Finset.mem_filter.mp hn'
      have hk := Finset.mem_range.mp hk
      have hk' := Finset.mem_range.mp hk'
      have haddr := BitVec.eq_of_toNat_eq heq
      have hsame := hapart n (Finset.mem_range.mp hlt) n' (Finset.mem_range.mp hlt') hin hin' k
        (hsize ▸ hk) k' (hsize ▸ hk') haddr
      subst hsame
      have hrest := congrArg BitVec.toNat ((BitVec.add_right_inj _).mp haddr)
      rw [BitVec.toNat_ofNat, BitVec.toNat_ofNat] at hrest
      exact Prod.ext rfl (by dsimp only at hk hk' hrest ⊢; omega)
    rw [Finset.card_image_of_injOn hinj, Finset.card_product, Finset.card_range]
  have hle : written.card ≤ inside.card * 4 := by
    apply Finset.card_image_le.trans
    rw [Finset.card_product, Finset.card_range]
  have hempty : inside = ∅ := by
    have hmono := Finset.card_le_card hsub
    exact Finset.card_eq_zero.mp (by omega)
  intro n hn
  by_contra hin
  have hmem : n ∈ inside :=
    Finset.mem_filter.mpr ⟨Finset.mem_range.mpr hn, by simpa using hin⟩
  rw [hempty] at hmem
  exact absurd hmem (Finset.notMem_empty n)

end

/-- A tile is reduced element by element exactly when the descriptor knows the size of its
elements, no element is on two cache lines, and no two elements overlap. -/
theorem tile_reduction_iff {op : TmaReductionOp} {size : Nat} {signed : Bool}
    {float : FloatReduction} (hvalid : tm.isValid = true)
    (hfits : elementCount tm coords * size < 2 ^ 32) (hnone : tm.swizzle = tmaSwizzleNone)
    (htype : integerType tm.tensorDataType = some (size, signed))
    (hsupported : tmaTensorReductionSupported op tm.tensorDataType = true) :
    ReducesTile float tm coords smem op size signed ↔ WholeElements tm coords size := by
  constructor
  · intro h
    have hnarrow := h.narrow htype hsupported hvalid hfits
    refine ⟨hnarrow, ?_, h.apart htype hsupported⟩
    by_cases hwide : tm.tensorDataType = tmaDtypeS64
    · intro n hn hin
      rw [hnarrow hwide n hn] at hin
      cases hin
    · have hsize := getElementSize_integer htype hwide
      rw [← hsize]
      exact onLines_of_sizes hvalid (tileBytes_lt hfits htype) (h.sizes hsupported)
  · intro h
    exact h.reduces hvalid hfits hnone htype hsupported

/-- A 4 by 5 tensor of some integer type, of which a box takes a corner. -/
def integerMap (dtype : BitVec 32) : TensorMap :=
  { cornerMap with tensorDataType := dtype }

theorem corner_apart : Apart (integerMap tmaDtypeU32) cornerCoords 4 := by
  have hall : ∀ n < 6, ∀ n' < 6, ∀ k < 4, ∀ k' < 4,
      elementAddress (integerMap tmaDtypeU32) cornerCoords 4 n + BitVec.ofNat 64 k =
        elementAddress (integerMap tmaDtypeU32) cornerCoords 4 n' + BitVec.ofNat 64 k' →
      n = n' := by decide +kernel
  intro n hn n' hn' _ _ k hk k' hk'
  exact hall n hn n' hn' k hk k' hk'

theorem corner_reduced : ReducesTile (fun _ _ dst _ _ => dst) (integerMap tmaDtypeU32)
    cornerCoords 0 .add 4 false :=
  (tile_reduction_iff (by decide) (by decide) rfl rfl (by decide)).mpr
    ⟨fun hwide => absurd hwide (by decide), by unfold OnLines; decide +kernel, corner_apart⟩

/-- The elements of a signed 64-bit type are taken to be of 4 bytes. -/
theorem signed_corner_not_reduced : ¬ ReducesTile (fun _ _ dst _ _ => dst)
    (integerMap tmaDtypeS64) cornerCoords 0 .min 8 true := by
  intro h
  have hout := h.narrow rfl (by decide) (by decide) (by decide) rfl 1 (by decide)
  exact absurd hout (by decide)

end FlashGpuSim
