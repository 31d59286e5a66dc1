import FlashGpuSim.Tma.Reduction
import FlashGpuSim.Tma.TileRequests

/-!
The copy of a tile between global and shared memory. Shared memory may hold the tile swizzled:
its 16-byte chunks are permuted by the row of 128 bytes that they are in.
-/

namespace FlashGpuSim

open Lib

@[match_pattern] def tmaSwizzleNone : BitVec 32 := 0
@[match_pattern] def tmaSwizzle32B : BitVec 32 := 1
@[match_pattern] def tmaSwizzle64B : BitVec 32 := 2
@[match_pattern] def tmaSwizzle128B : BitVec 32 := 3

def tmaOobZero : BitVec 32 := 0
def tmaOobNan : BitVec 32 := 1

/-- The row bits that a swizzle mode takes. The other modes end the program. -/
def swizzleMask : BitVec 32 → Option (BitVec 32)
  | tmaSwizzle128B => some 0x7
  | tmaSwizzle64B => some 0x3
  | tmaSwizzle32B => some 0x1
  | _ => none

def swizzleBits (mask : BitVec 32) (linearOffset : BitVec 64) : BitVec 64 :=
  let rowBits := (linearOffset >>> 7).setWidth 32
  linearOffset ^^^ (((rowBits &&& mask).setWidth 64) <<< 4)

def applyTmaSwizzle (linearOffset : BitVec 64) (swizzleMode : BitVec 32) : Option (BitVec 64) :=
  if swizzleMode = tmaSwizzleNone then some linearOffset
  else (swizzleMask swizzleMode).map fun mask => swizzleBits mask linearOffset

/-- The size and the bits of the value that fills in for elements out of the tensor, for the data
types that have one. -/
def nanValue (dtype : BitVec 32) : Option (Nat × Nat) :=
  match dtype with
  | tmaDtypeF32 => some (4, 0x7FFFFFFF)
  | tmaDtypeF64 => some (8, 0x7FFFFFFFFFFFFFFF)
  | tmaDtypeF16 => some (2, 0x7FFF)
  | tmaDtypeBF16 => some (2, 0x7FFF)
  | tmaDtypeU8 => some (1, 0x7F)
  | _ => none

/-- The fill pattern. The table has the two modes only. -/
def getPattern (oobMode dtype : BitVec 32) : Option (Nat → BitVec 8) :=
  let dtype := if dtype ≥ 16 then 0 else dtype
  if oobMode = tmaOobZero then some fun _ => 0
  else if oobMode = tmaOobNan then
    match nanValue dtype with
    | some (size, value) => some fun k => byteOf value (k % size)
    | none => some fun _ => 0
  else none

/-- The chunks of the fill that goes before a load. -/
def prefillLoop (pattern : Nat → BitVec 8) (smemAddr tileSizeBytes : BitVec 32) :
    Nat → BitVec 32 → ByteMemory → ByteMemory
  | 0, _, shared => shared
  | fuel + 1, offset, shared =>
    if offset < tileSizeBytes then
      let chunkSize := least (tileSizeBytes - offset) 128
      prefillLoop pattern smemAddr tileSizeBytes fuel (offset + chunkSize)
        (shared.write (smemAddr + offset).toNat chunkSize.toNat pattern)
    else shared

/-- The offsets of the 16-byte pieces of a request. -/
def subOffsets (reqSize : Nat) : List Nat :=
  (List.range ((reqSize + 15) / 16)).map (· * 16)

/-- The shared address of a tile offset. -/
def smemAt (smemAddr : BitVec 32) (offset : BitVec 64) : Nat :=
  (smemAddr.setWidth 64 + offset).toNat

/-- Put the bytes of a request into shared memory. -/
def loadRequest (tm : TensorMap) (smemAddr : BitVec 32) (global shared : ByteMemory)
    (req : TmaRequest) : Option ByteMemory :=
  let data := global.read req.globalAddr.toNat
  if tm.swizzle ≠ tmaSwizzleNone then
    (subOffsets req.size.toNat).foldlM (fun shared sub => do
      let swizzled ← applyTmaSwizzle (req.tileOffset + BitVec.ofNat 64 sub) tm.swizzle
      pure (shared.write (smemAt smemAddr swizzled) (min 16 (req.size.toNat - sub))
        fun k => data (sub + k))) shared
  else some (shared.write (smemAt smemAddr req.tileOffset) req.size.toNat data)

/-- Take the bytes of a request out of shared memory. -/
def gatherRequest (tm : TensorMap) (smemAddr : BitVec 32) (shared : ByteMemory)
    (req : TmaRequest) : Option (Nat → BitVec 8) :=
  if tm.swizzle ≠ tmaSwizzleNone then
    (subOffsets req.size.toNat).foldlM (fun (data : ByteMemory) sub => do
      let swizzled ← applyTmaSwizzle (req.tileOffset + BitVec.ofNat 64 sub) tm.swizzle
      pure (data.write sub (min 16 (req.size.toNat - sub))
        (shared.read (smemAt smemAddr swizzled)))) (fun _ => 0)
  else some (shared.read (smemAt smemAddr req.tileOffset))

def storeRequest (tm : TensorMap) (smemAddr : BitVec 32) (float : FloatReduction)
    (reductionOp : TmaReductionOp) (shared global : ByteMemory) (req : TmaRequest) :
    Option ByteMemory := do
  let data ← gatherRequest tm smemAddr shared req
  let size := req.size.toNat
  if reductionOp = .none then pure (global.write req.globalAddr.toNat size data)
  else if size % tm.getElementSize.toNat ≠ 0 then failure
  else
    let destination ← applyTmaTensorReduction float reductionOp tm.tensorDataType
      (global.read req.globalAddr.toNat) data size
    pure (global.write req.globalAddr.toNat size destination)

/-- The shared and the global memory after the transfer, or none where the code aborts. -/
def doTmaTransfer (float : FloatReduction) (tm : TensorMap) (coords : Nat → BitVec 32)
    (shared global : ByteMemory) (smemAddr : BitVec 32) (isLoad : Bool)
    (reductionOp : TmaReductionOp) : Option (ByteMemory × ByteMemory) := do
  let requests := generateTmaRequests tm coords
  if isLoad then
    let fillPattern ← getPattern tm.oobFill tm.tensorDataType
    let tileSizeBytes := tm.getTileSizeBytes
    let filled := prefillLoop fillPattern smemAddr tileSizeBytes tileSizeBytes.toNat 0 shared
    let shared ← requests.foldlM (loadRequest tm smemAddr global) filled
    pure (shared, global)
  else
    let global ← requests.foldlM (storeRequest tm smemAddr float reductionOp shared) global
    pure (shared, global)

variable {tm : TensorMap} {coords : Nat → BitVec 32} {smem mask : BitVec 32} {o : Nat}

theorem swizzleMask_le {mode : BitVec 32} (h : swizzleMask mode = some mask) :
    mask.toNat ≤ 7 := by
  unfold swizzleMask at h
  split at h <;> cases h <;> decide

theorem swizzleMask_ne_none {mode : BitVec 32} (h : swizzleMask mode = some mask) :
    mode ≠ tmaSwizzleNone := by
  rintro rfl
  cases h

/-- The chunk bits of a row. -/
def chunkBits (mask : BitVec 32) (x : BitVec 64) : BitVec 64 :=
  ((((x >>> 7).setWidth 32) &&& mask).setWidth 64) <<< 4

theorem chunkBits_toNat (hmask : mask.toNat ≤ 7) (x : BitVec 64) :
    (chunkBits mask x).toNat < 128 ∧ (chunkBits mask x).toNat % 16 = 0 := by
  have hle : ((x >>> 7).setWidth 32 &&& mask).toNat ≤ 7 := by
    rw [BitVec.toNat_and]
    exact Nat.and_le_right.trans hmask
  have hshift : (chunkBits mask x).toNat = ((x >>> 7).setWidth 32 &&& mask).toNat * 16 := by
    unfold chunkBits
    rw [BitVec.toNat_shiftLeft, BitVec.toNat_setWidth, Nat.shiftLeft_eq]
    omega
  omega

theorem swizzleBits_toNat (hmask : mask.toNat ≤ 7) (x : BitVec 64) :
    (swizzleBits mask x).toNat / 128 = x.toNat / 128 ∧
      (swizzleBits mask x).toNat % 16 = x.toNat % 16 := by
  obtain ⟨hlt, hmod⟩ := chunkBits_toNat hmask x
  have hxor : (swizzleBits mask x).toNat = x.toNat ^^^ (chunkBits mask x).toNat :=
    BitVec.toNat_xor x (chunkBits mask x)
  rw [hxor]
  constructor
  · have hpow : 128 = 2 ^ 7 := rfl
    rw [hpow, Nat.xor_div_two_pow, Nat.div_eq_of_lt hlt, Nat.xor_zero]
  · have hpow : 16 = 2 ^ 4 := rfl
    rw [hpow] at hmod ⊢
    rw [Nat.xor_mod_two_pow, hmod, Nat.xor_zero]

/-- The swizzle undoes itself. -/
theorem swizzleBits_swizzleBits (hmask : mask.toNat ≤ 7) (x : BitVec 64) :
    swizzleBits mask (swizzleBits mask x) = x := by
  have hrow : swizzleBits mask x >>> 7 = x >>> 7 := by
    apply BitVec.eq_of_toNat_eq
    rw [BitVec.toNat_ushiftRight, BitVec.toNat_ushiftRight, Nat.shiftRight_eq_div_pow,
      Nat.shiftRight_eq_div_pow]
    exact (swizzleBits_toNat hmask x).1
  have hchunk : chunkBits mask (swizzleBits mask x) = chunkBits mask x := by
    unfold chunkBits
    rw [hrow]
  have hexpand : ∀ y, swizzleBits mask y = y ^^^ chunkBits mask y := fun _ => rfl
  rw [hexpand, hchunk, hexpand, BitVec.xor_assoc, BitVec.xor_self, BitVec.xor_zero]

/-- The place of a tile offset in a swizzled tile. -/
def sharedOffset (mask : BitVec 32) (o : Nat) : Nat := (swizzleBits mask (BitVec.ofNat 64 o)).toNat

theorem sharedOffset_div (hmask : mask.toNat ≤ 7) (ho : o < 2 ^ 64) :
    sharedOffset mask o / 128 = o / 128 ∧ sharedOffset mask o % 16 = o % 16 := by
  have hbits := swizzleBits_toNat hmask (BitVec.ofNat 64 o)
  rw [BitVec.toNat_ofNat, Nat.mod_eq_of_lt ho] at hbits
  exact hbits

theorem sharedOffset_inj (hmask : mask.toNat ≤ 7) {o' : Nat} (ho : o < 2 ^ 64) (ho' : o' < 2 ^ 64)
    (heq : sharedOffset mask o = sharedOffset mask o') : o = o' := by
  have hbits := congrArg (swizzleBits mask) (BitVec.eq_of_toNat_eq heq)
  rw [swizzleBits_swizzleBits hmask, swizzleBits_swizzleBits hmask] at hbits
  have hnat := congrArg BitVec.toNat hbits
  rw [BitVec.toNat_ofNat, BitVec.toNat_ofNat, Nat.mod_eq_of_lt ho, Nat.mod_eq_of_lt ho'] at hnat
  exact hnat

/-- Where the copy has a byte in shared memory: its 16-byte piece, which is counted from the start
of the request, is moved as a whole. -/
def bytePlace (tm : TensorMap) (b : RequestByte) : Nat :=
  match swizzleMask tm.swizzle with
  | some mask => sharedOffset mask (b.head + (b.offset - b.head) / 16 * 16) +
      (b.offset - b.head) % 16
  | none => b.offset

/-- The mode has a swizzle, or it has none at all. -/
def KnownSwizzle (tm : TensorMap) : Prop :=
  tm.swizzle = tmaSwizzleNone ∨ ∃ mask, swizzleMask tm.swizzle = some mask

/-- The tile offsets of a request are 32-bit numbers. -/
def TmaRequest.Small (r : TmaRequest) : Prop := r.tileOffset.toNat + r.size.toNat ≤ 2 ^ 32

variable {r : TmaRequest} {shared global : ByteMemory}

theorem smemAt_toNat {x : BitVec 64} (hx : x.toNat < 2 ^ 33) :
    smemAt smem x = smem.toNat + x.toNat := by
  have hlt := smem.isLt
  unfold smemAt
  rw [BitVec.toNat_add, BitVec.toNat_setWidth]
  omega

/-- The pieces of a request in a mode that swizzles. -/
theorem applyTmaSwizzle_piece (smem : BitVec 32) (hmask : swizzleMask tm.swizzle = some mask) (hsmall : r.Small)
    {sub : Nat} (hsub : sub < r.size.toNat) : ∃ swizzled,
      applyTmaSwizzle (r.tileOffset + BitVec.ofNat 64 sub) tm.swizzle = some swizzled ∧
        smemAt smem swizzled = smem.toNat + sharedOffset mask (r.tileOffset.toNat + sub) := by
  have hoffset : BitVec.ofNat 64 (r.tileOffset.toNat + sub) =
      r.tileOffset + BitVec.ofNat 64 sub := by
    rw [BitVec.ofNat_add, BitVec.ofNat_toNat, BitVec.setWidth_eq]
  unfold TmaRequest.Small at hsmall
  obtain ⟨hdiv, -⟩ := sharedOffset_div (swizzleMask_le hmask)
    (by omega : r.tileOffset.toNat + sub < 2 ^ 64)
  unfold sharedOffset at hdiv ⊢
  rw [hoffset] at hdiv ⊢
  refine ⟨_, ?_, smemAt_toNat (by omega)⟩
  unfold applyTmaSwizzle
  rw [if_neg (swizzleMask_ne_none hmask), hmask]
  rfl

/-- A fold whose steps all succeed. -/
theorem foldlM_some {α ι : Type} {f : α → ι → Option α} {g : α → ι → α} {l : List ι} (a : α)
    (h : ∀ a, ∀ i ∈ l, f a i = some (g a i)) : l.foldlM f a = some (l.foldl g a) := by
  induction l generalizing a with
  | nil => rfl
  | cons i l ih =>
    rw [List.foldlM_cons, h a i List.mem_cons_self]
    exact ih _ fun a j hj => h a j (List.mem_cons_of_mem _ hj)

theorem mem_subOffsets {n sub : Nat} (h : sub ∈ subOffsets n) : sub < n ∧ sub % 16 = 0 := by
  obtain ⟨j, hj, rfl⟩ := List.mem_map.mp h
  have hlt := List.mem_range.mp hj
  omega

/-- A list over the bytes of a request, piece by piece. -/
theorem map_subOffsets {β : Type} (n : Nat) (f : Nat → β) : (List.range n).map f =
    (subOffsets n).flatMap fun sub => (List.range (min 16 (n - sub))).map fun k => f (sub + k) := by
  rw [range_pieces (by decide : 0 < 16) n, List.map_flatMap]
  unfold subOffsets
  rw [List.flatMap_map]
  simp only [List.map_map]
  rfl

/-- The addresses of a request do not wrap. -/
theorem TmaRequest.OnLine.address (hline : r.OnLine) {k : Nat} (hk : k < r.size.toNat) :
    (r.globalAddr + BitVec.ofNat 64 k).toNat = r.globalAddr.toNat + k := by
  obtain ⟨-, hfits⟩ := hline
  have hlt := r.globalAddr.isLt
  rw [BitVec.toNat_add, BitVec.toNat_ofNat]
  omega

theorem bytePlace_none (hnone : tm.swizzle = tmaSwizzleNone) (b : RequestByte) :
    bytePlace tm b = b.offset := by
  unfold bytePlace
  rw [hnone]
  rfl

/-- A byte of the piece at `sub`. -/
theorem bytePlace_piece (hmask : swizzleMask tm.swizzle = some mask) {sub k : Nat}
    (hsub : sub % 16 = 0) (hk : k < 16) (address : BitVec 64) (head : Nat) :
    bytePlace tm ⟨head + (sub + k), address, head⟩ = sharedOffset mask (head + sub) + k := by
  have hdiv : (head + (sub + k) - head) / 16 * 16 = sub := by omega
  have hmod : (head + (sub + k) - head) % 16 = k := by omega
  unfold bytePlace
  rw [hmask]
  dsimp only
  rw [hdiv, hmod]

/-- A request is put at the places of its bytes. -/
theorem loadRequest_eq (smem : BitVec 32) (global shared : ByteMemory) (hmode : KnownSwizzle tm) (hline : r.OnLine) (hsmall : r.Small) :
    loadRequest tm smem global shared r = some (shared.setCells (r.bytes.map fun b =>
      (smem.toNat + bytePlace tm b, global b.address.toNat))) := by
  unfold loadRequest
  dsimp only
  rcases hmode with hnone | ⟨mask, hmask⟩
  · rw [if_neg (not_not.mpr hnone), ByteMemory.write_eq_setCells]
    unfold ByteMemory.writeCells TmaRequest.bytes
    rw [List.map_map]
    congr 2
    apply List.map_congr_left
    intro k hk
    have hk : k < r.size.toNat := List.mem_range.mp hk
    unfold TmaRequest.Small at hsmall
    simp only [Function.comp_apply, bytePlace_none hnone, hline.address hk]
    rw [smemAt_toNat (by omega), Nat.add_assoc]
    rfl
  · rw [if_pos (swizzleMask_ne_none hmask), foldlM_some (g := fun shared sub =>
      shared.setCells ((List.range (min 16 (r.size.toNat - sub))).map fun k =>
        (smem.toNat + sharedOffset mask (r.tileOffset.toNat + sub) + k,
          global (r.globalAddr.toNat + (sub + k)))))]
    · unfold TmaRequest.bytes
      rw [ByteMemory.foldl_setCells, List.map_map, map_subOffsets]
      congr 2
      apply List.flatMap_congr
      intro sub hsub
      obtain ⟨hlt, hmod⟩ := mem_subOffsets hsub
      apply List.map_congr_left
      intro k hk
      have hk := List.mem_range.mp hk
      simp only [Function.comp_apply]
      rw [bytePlace_piece hmask hmod (by omega), hline.address (by omega), Nat.add_assoc]
    · intro shared sub hsub
      obtain ⟨swizzled, happly, hplace⟩ :=
        applyTmaSwizzle_piece smem hmask hsmall (mem_subOffsets hsub).1
      rw [happly]
      change some (shared.write _ _ _) = _
      rw [ByteMemory.write_eq_setCells, hplace]
      rfl

/-- A request takes its bytes from their places. -/
theorem gatherRequest_eq (smem : BitVec 32) (shared : ByteMemory) (hmode : KnownSwizzle tm) (hsmall : r.Small) :
    ∃ data, gatherRequest tm smem shared r = some data ∧ ∀ k < r.size.toNat, data k =
      shared (smem.toNat + bytePlace tm ⟨r.tileOffset.toNat + k,
        r.globalAddr + BitVec.ofNat 64 k, r.tileOffset.toNat⟩) := by
  unfold gatherRequest
  rcases hmode with hnone | ⟨mask, hmask⟩
  · rw [if_neg (not_not.mpr hnone)]
    refine ⟨_, rfl, fun k hk => ?_⟩
    unfold TmaRequest.Small at hsmall
    unfold ByteMemory.read
    rw [bytePlace_none hnone, smemAt_toNat (by omega), Nat.add_assoc]
  · rw [if_pos (swizzleMask_ne_none hmask), foldlM_some (g := fun (data : ByteMemory) sub =>
      data.setCells ((List.range (min 16 (r.size.toNat - sub))).map fun k =>
        (sub + k, shared (smem.toNat + sharedOffset mask (r.tileOffset.toNat + sub) + k))))]
    · refine ⟨_, rfl, fun k hk => ?_⟩
      have hcells : ((subOffsets r.size.toNat).flatMap fun sub =>
          (List.range (min 16 (r.size.toNat - sub))).map fun k =>
            (sub + k, shared (smem.toNat + sharedOffset mask (r.tileOffset.toNat + sub) + k))) =
          (List.range r.size.toNat).map fun k =>
            (k, shared (smem.toNat + bytePlace tm ⟨r.tileOffset.toNat + k,
              r.globalAddr + BitVec.ofNat 64 k, r.tileOffset.toNat⟩)) := by
        rw [map_subOffsets]
        apply List.flatMap_congr
        intro sub hsub
        obtain ⟨hlt, hmod⟩ := mem_subOffsets hsub
        apply List.map_congr_left
        intro k hk
        have hk := List.mem_range.mp hk
        rw [bytePlace_piece hmask hmod (by omega), Nat.add_assoc]
      rw [ByteMemory.foldl_setCells, hcells]
      apply ByteMemory.setCells_of_mem
      · exact List.mem_map.mpr ⟨k, List.mem_range.mpr hk, rfl⟩
      · intro c hc heq
        obtain ⟨j, _, rfl⟩ := List.mem_map.mp hc
        rw [← heq]
    · intro data sub hsub
      obtain ⟨swizzled, happly, hplace⟩ :=
        applyTmaSwizzle_piece smem hmask hsmall (mem_subOffsets hsub).1
      rw [happly]
      change some (data.write _ _ _) = _
      rw [ByteMemory.write_eq_setCells, hplace]
      rfl

/-- A plain store writes the bytes of the request to their addresses. -/
theorem storeRequest_eq (float : FloatReduction) (smem : BitVec 32)
    (shared global : ByteMemory) (hmode : KnownSwizzle tm) (hline : r.OnLine)
    (hsmall : r.Small) : storeRequest tm smem float .none shared global r =
      some (global.setCells (r.bytes.map fun b =>
        (b.address.toNat, shared (smem.toNat + bytePlace tm b)))) := by
  obtain ⟨data, hgather, hdata⟩ := gatherRequest_eq smem shared hmode hsmall
  unfold storeRequest
  rw [hgather]
  change some (global.write _ _ _) = _
  rw [ByteMemory.write_eq_setCells]
  unfold ByteMemory.writeCells TmaRequest.bytes
  rw [List.map_map]
  congr 2
  apply List.map_congr_left
  intro k hk
  have hk := List.mem_range.mp hk
  simp only [Function.comp_apply]
  rw [hline.address hk, hdata k hk]

/-- The byte of the fill for a place of the tile. The sum of the shared address and the start of
the chunk is a 32-bit number. -/
def prefillCell (smem : BitVec 32) (pattern : Nat → BitVec 8) (p : Nat) : Nat × BitVec 8 :=
  ((smem.toNat + (p - p % 128)) % 2 ^ 32 + p % 128, pattern (p % 128))

theorem prefillLoop_eq (smem : BitVec 32) (shared : ByteMemory) {pattern : Nat → BitVec 8} {tile offset : BitVec 32} {fuel : Nat}
    (halign : offset.toNat % 128 = 0 ∨ tile.toNat ≤ offset.toNat)
    (hfuel : tile.toNat - offset.toNat ≤ fuel) :
    prefillLoop pattern smem tile fuel offset shared = shared.setCells
      ((List.range' offset.toNat (tile.toNat - offset.toNat)).map (prefillCell smem pattern)) := by
  induction fuel generalizing offset shared with
  | zero =>
    rw [Nat.le_zero.mp hfuel]
    rfl
  | succ fuel ih =>
    unfold prefillLoop
    split
    · rename_i hlt
      rw [BitVec.lt_def] at hlt
      have halign : offset.toNat % 128 = 0 := halign.resolve_right (Nat.not_le.mpr hlt)
      have hbound := tile.isLt
      dsimp only
      generalize hchunk : least (tile - offset) 128 = chunk
      have hn : chunk.toNat = min (tile.toNat - offset.toNat) 128 := by
        rw [← hchunk, least_toNat, BitVec.toNat_sub_of_le (BitVec.le_def.mpr (Nat.le_of_lt hlt))]
        rfl
      have hnext : (offset + chunk).toNat = offset.toNat + chunk.toNat := by
        rw [BitVec.toNat_add]
        omega
      have hsum : tile.toNat - offset.toNat =
          chunk.toNat + (tile.toNat - (offset.toNat + chunk.toNat)) := by omega
      rw [ih _ (by omega) (by omega), hnext, hsum, ← List.range'_append_1, List.map_append,
        ByteMemory.setCells_append, ByteMemory.write_eq_setCells]
      congr 2
      unfold ByteMemory.writeCells
      rw [List.range'_eq_map_range, List.map_map]
      apply List.map_congr_left
      intro k hk
      have hk := List.mem_range.mp hk
      have hmod : (offset.toNat + k) % 128 = k := by omega
      simp only [Function.comp_apply]
      unfold prefillCell
      rw [hmod, Nat.add_sub_cancel, BitVec.toNat_add]
    · rename_i hge
      rw [BitVec.lt_def] at hge
      rw [Nat.sub_eq_zero_of_le (by omega)]
      rfl

/-- The requests of a tile are small. -/
theorem generateTmaRequests_small (hvalid : tm.isValid = true)
    (hfits : tm.tileBytes coords < 2 ^ 32) :
    ∀ r ∈ generateTmaRequests tm coords, r.Small := by
  intro r hr
  obtain ⟨hbytes, hlines⟩ := generateTmaRequests_spec hvalid hfits
  have hpos := (hlines r hr).1
  have hlast : (⟨r.tileOffset.toNat + (r.size.toNat - 1),
      r.globalAddr + BitVec.ofNat 64 (r.size.toNat - 1), r.tileOffset.toNat⟩ : RequestByte) ∈
        (generateTmaRequests tm coords).flatMap TmaRequest.bytes :=
    List.mem_flatMap.mpr ⟨r, hr, List.mem_map.mpr
      ⟨r.size.toNat - 1, List.mem_range.mpr (by omega), rfl⟩⟩
  rw [hbytes] at hlast
  obtain ⟨o, ho, heq⟩ := List.mem_map.mp hlast
  have hlt := List.mem_range.mp (List.mem_filter.mp ho).1
  have hoffset := congrArg RequestByte.offset heq
  unfold tileByte at hoffset
  dsimp only at hoffset
  unfold TmaRequest.Small
  omega

/-- Where the copy has a tile offset that is in the tensor. -/
def copyOffset (tm : TensorMap) (coords : Nat → BitVec 32) (o : Nat) : Nat :=
  bytePlace tm (tileByte tm coords o)

/-- A load, as the cells that it sets. -/
theorem doTmaTransfer_load (float : FloatReduction) (hvalid : tm.isValid = true)
    (hfits : tm.tileBytes coords < 2 ^ 32) (hmode : KnownSwizzle tm) {pattern : Nat → BitVec 8}
    (hpattern : getPattern tm.oobFill tm.tensorDataType = some pattern) (op : TmaReductionOp) :
    doTmaTransfer float tm coords shared global smem true op =
      some ((shared.setCells ((List.range (tm.tileBytes coords)).map
        (prefillCell smem pattern))).setCells ((validOffsets tm coords).map fun o =>
          (smem.toNat + copyOffset tm coords o, global (tm.byteAddress coords o).toNat)),
        global) := by
  obtain ⟨hbytes, hlines⟩ := generateTmaRequests_spec hvalid hfits
  have hsmall := generateTmaRequests_small hvalid hfits
  have hsize := TensorMap.getTileSizeBytes_eq hvalid hfits
  have hfill : prefillLoop pattern smem tm.getTileSizeBytes tm.getTileSizeBytes.toNat 0 shared =
      shared.setCells ((List.range (tm.tileBytes coords)).map (prefillCell smem pattern)) := by
    have hstart : (0 : BitVec 32).toNat = 0 := rfl
    rw [prefillLoop_eq smem shared (.inl rfl) (Nat.sub_le _ _), hstart, hsize,
      List.range_eq_range', Nat.sub_zero]
  have hcopy : ∀ filled : ByteMemory,
      (generateTmaRequests tm coords).foldlM (loadRequest tm smem global) filled =
        some (filled.setCells ((validOffsets tm coords).map fun o =>
          (smem.toNat + copyOffset tm coords o, global (tm.byteAddress coords o).toNat))) := by
    intro filled
    rw [foldlM_some filled fun shared r hr =>
      loadRequest_eq smem global shared hmode (hlines r hr) (hsmall r hr)]
    rw [ByteMemory.foldl_setCells, ← List.map_flatMap, hbytes, List.map_map]
    rfl
  unfold doTmaTransfer
  simp only [if_true, hpattern, Option.bind_eq_bind, Option.bind_some, hfill, hcopy]
  rfl

/-- A plain store, as the cells that it sets. -/
theorem doTmaTransfer_store (float : FloatReduction) (hvalid : tm.isValid = true)
    (hfits : tm.tileBytes coords < 2 ^ 32) (hmode : KnownSwizzle tm) :
    doTmaTransfer float tm coords shared global smem false .none =
      some (shared, global.setCells ((validOffsets tm coords).map fun o =>
        ((tm.byteAddress coords o).toNat, shared (smem.toNat + copyOffset tm coords o)))) := by
  obtain ⟨hbytes, hlines⟩ := generateTmaRequests_spec hvalid hfits
  have hsmall := generateTmaRequests_small hvalid hfits
  unfold doTmaTransfer
  dsimp only
  rw [if_neg Bool.false_ne_true, foldlM_some global fun global r hr =>
    storeRequest_eq float smem shared global hmode (hlines r hr) (hsmall r hr)]
  rw [ByteMemory.foldl_setCells, ← List.map_flatMap, hbytes, List.map_map]
  rfl

end FlashGpuSim
