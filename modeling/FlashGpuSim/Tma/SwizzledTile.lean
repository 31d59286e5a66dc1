import FlashGpuSim.Tma.TileTransfer

/-!
Swizzled tiles. The copy moves pieces of 16 bytes that begin at the start of a request, and the
swizzle moves chunks of 16 bytes that begin at the start of the tile; a tile arrives where it
should exactly when the two agree on its bytes.
-/

namespace FlashGpuSim

open Lib

variable {tm : TensorMap} {coords : Nat → BitVec 32} {smem mask : BitVec 32} {o : Nat}
  {float : FloatReduction}

/-- The first byte of the piece that a tile offset is moved with. The request begins at the first
byte of the row that is in the tensor, or on a cache line. -/
def pieceStart (tm : TensorMap) (coords : Nat → BitVec 32) (o : Nat) : Nat :=
  o - min (o % tm.rowBytes - tm.leading coords) ((tm.byteAddress coords o).toNat % 128) % 16

theorem copyOffset_eq (hmask : swizzleMask tm.swizzle = some mask) : copyOffset tm coords o =
    sharedOffset mask (pieceStart tm coords o) + (o - pieceStart tm coords o) := by
  have hle := Nat.mod_le o tm.rowBytes
  unfold copyOffset tileByte bytePlace pieceStart
  rw [hmask]
  dsimp only
  congr 1
  · congr 1
    omega
  · omega

/-- What a load and a store of a swizzled tile should do: the tile offset `o` is at the shared
address of its swizzled offset. -/
structure SwizzledTransfersRight (float : FloatReduction) (tm : TensorMap)
    (coords : Nat → BitVec 32) (smem mask : BitVec 32) : Prop where
  load : ∀ shared global : ByteMemory, ∃ shared' pattern,
    getPattern tm.oobFill tm.tensorDataType = some pattern ∧
    doTmaTransfer float tm coords shared global smem true .none = some (shared', global) ∧
    ∀ o < tm.tileBytes coords, shared' (smem.toNat + sharedOffset mask o) =
      if tm.byteInside coords o then global (tm.byteAddress coords o).toNat else pattern (o % 128)
  store : ∀ shared global : ByteMemory, ∃ global',
    doTmaTransfer float tm coords shared global smem false .none = some (shared, global') ∧
    (∀ o < tm.tileBytes coords, tm.byteInside coords o = true →
      global' (tm.byteAddress coords o).toNat = shared (smem.toNat + sharedOffset mask o)) ∧
    ∀ a, (∀ o < tm.tileBytes coords, tm.byteInside coords o = true →
      (tm.byteAddress coords o).toNat ≠ a) → global' a = global a
  restore : ∀ shared global other : ByteMemory, ∃ shared' global',
    doTmaTransfer float tm coords shared global smem true .none = some (shared', global) ∧
    doTmaTransfer float tm coords shared' other smem false .none = some (shared', global') ∧
    ∀ o < tm.tileBytes coords, tm.byteInside coords o = true →
      global' (tm.byteAddress coords o).toNat = global (tm.byteAddress coords o).toNat

/-- The pieces of a tile follow its swizzle. -/
structure PiecesFollowSwizzle (tm : TensorMap) (coords : Nat → BitVec 32) (smem mask : BitVec 32) :
    Prop where
  fillMode : tm.oobFill = tmaOobZero ∨ tm.oobFill = tmaOobNan
  pieces : ∀ o < tm.tileBytes coords, tm.byteInside coords o = true →
    sharedOffset mask (pieceStart tm coords o) + (o - pieceStart tm coords o) =
      sharedOffset mask o
  fills : ∀ o < tm.tileBytes coords, tm.byteInside coords o = false →
    sharedOffset mask o < tm.tileBytes coords ∧
      smem.toNat + (sharedOffset mask o - sharedOffset mask o % 128) < 2 ^ 32
  distinct : ∀ o < tm.tileBytes coords, ∀ o' < tm.tileBytes coords,
    tm.byteInside coords o = true → tm.byteInside coords o' = true →
      tm.byteAddress coords o = tm.byteAddress coords o' → o = o'

/-- The value of the fill repeats within a chunk. -/
theorem getPattern_congr {mode dtype : BitVec 32} {pattern : Nat → BitVec 8}
    (h : getPattern mode dtype = some pattern) {k k' : Nat} (hmod : k % 16 = k' % 16) :
    pattern k = pattern k' := by
  unfold getPattern at h
  dsimp only at h
  split at h
  · cases h
    rfl
  · split at h
    · split at h
      · rename_i size value hvalue
        cases h
        have hsize : size ∣ 16 := by
          unfold nanValue at hvalue
          split at hvalue <;> cases hvalue <;> decide
        dsimp only
        rw [← Nat.mod_mod_of_dvd k hsize, ← Nat.mod_mod_of_dvd k' hsize, hmod]
      · cases h
        rfl
    · cases h

theorem getPattern_isSome {mode : BitVec 32} (dtype : BitVec 32)
    (h : mode = tmaOobZero ∨ mode = tmaOobNan) : ∃ pattern, getPattern mode dtype = some pattern := by
  unfold getPattern
  dsimp only
  rcases h with rfl | rfl
  · exact ⟨_, if_pos rfl⟩
  · rw [if_neg (by decide), if_pos rfl]
    split
    · exact ⟨_, rfl⟩
    · exact ⟨_, rfl⟩

theorem getPattern_mode {mode dtype : BitVec 32} {pattern : Nat → BitVec 8}
    (h : getPattern mode dtype = some pattern) : mode = tmaOobZero ∨ mode = tmaOobNan := by
  unfold getPattern at h
  dsimp only at h
  split at h
  · exact .inl ‹_›
  · split at h
    · exact .inr ‹_›
    · cases h

/-- The fill reaches a place of shared memory through the place's own offset. -/
theorem prefillCell_place {pattern : Nat → BitVec 8} {p q tile : Nat} (hp : p < tile)
    (htile : tile < 2 ^ 32) : (prefillCell smem pattern p).1 = smem.toNat + q ↔
      p = q ∧ smem.toNat + (q - q % 128) < 2 ^ 32 := by
  have hlt := smem.isLt
  unfold prefillCell
  dsimp only
  omega

theorem mem_validOffsets : o ∈ validOffsets tm coords ↔
    o < tm.tileBytes coords ∧ tm.byteInside coords o = true := by
  unfold validOffsets
  rw [List.mem_filter, List.mem_range]

/-- Two bytes with one address cannot both be stored. -/
theorem SwizzledTransfersRight.distinct (h : SwizzledTransfersRight float tm coords smem mask)
    (hfits : tm.tileBytes coords < 2 ^ 32) (hmask : swizzleMask tm.swizzle = some mask) :
    ∀ o < tm.tileBytes coords, ∀ o' < tm.tileBytes coords,
    tm.byteInside coords o = true → tm.byteInside coords o' = true →
      tm.byteAddress coords o = tm.byteAddress coords o' → o = o' := by
  intro o ho o' ho' hin hin' haddr
  obtain ⟨global', -, hbytes, -⟩ := h.store
    (fun a => if a = smem.toNat + sharedOffset mask o then 1 else 0) fun _ => 0
  have hone := hbytes o ho hin
  have hsame := hbytes o' ho' hin'
  rw [if_pos rfl] at hone
  rw [← haddr, hone] at hsame
  by_contra hne
  rw [if_neg] at hsame
  · exact absurd hsame (by decide)
  · intro heq
    exact hne (sharedOffset_inj (swizzleMask_le hmask) (by omega) (by omega)
      (Nat.add_left_cancel heq)).symm

theorem SwizzledTransfersRight.fillMode (h : SwizzledTransfersRight float tm coords smem mask) :
    tm.oobFill = tmaOobZero ∨ tm.oobFill = tmaOobNan := by
  obtain ⟨-, pattern, hpattern, -⟩ := h.load (fun _ => 0) fun _ => 0
  exact getPattern_mode hpattern

section

variable (hvalid : tm.isValid = true) (hfits : tm.tileBytes coords < 2 ^ 32)
  (hmask : swizzleMask tm.swizzle = some mask)

include hvalid hfits hmask

/-- A load of a tile whose pieces follow its swizzle. -/
theorem PiecesFollowSwizzle.load (h : PiecesFollowSwizzle tm coords smem mask)
    (shared global : ByteMemory) : ∃ shared' pattern,
      getPattern tm.oobFill tm.tensorDataType = some pattern ∧
      doTmaTransfer float tm coords shared global smem true .none = some (shared', global) ∧
      ∀ o < tm.tileBytes coords, shared' (smem.toNat + sharedOffset mask o) =
        if tm.byteInside coords o then global (tm.byteAddress coords o).toNat
        else pattern (o % 128) := by
  have hle := swizzleMask_le hmask
  obtain ⟨pattern, hpattern⟩ := getPattern_isSome tm.tensorDataType h.fillMode
  refine ⟨_, pattern, hpattern,
    doTmaTransfer_load float hvalid hfits (.inr ⟨mask, hmask⟩) hpattern .none, ?_⟩
  intro o ho
  have hcopied : ∀ o', o' ∈ validOffsets tm coords →
      smem.toNat + copyOffset tm coords o' = smem.toNat + sharedOffset mask o → o' = o := by
    intro o' ho' heq
    obtain ⟨hlt', hin'⟩ := mem_validOffsets.mp ho'
    rw [copyOffset_eq hmask, h.pieces o' hlt' hin'] at heq
    exact sharedOffset_inj hle (by omega) (by omega) (Nat.add_left_cancel heq)
  cases hin : tm.byteInside coords o with
  | true =>
    rw [if_pos rfl]
    apply ByteMemory.setCells_of_mem
    · refine List.mem_map.mpr ⟨o, mem_validOffsets.mpr ⟨ho, hin⟩, ?_⟩
      rw [copyOffset_eq hmask, h.pieces o ho hin]
    · intro c hc heq
      obtain ⟨o', ho', rfl⟩ := List.mem_map.mp hc
      rw [hcopied o' ho' heq]
  | false =>
    obtain ⟨hplace, hwrap⟩ := h.fills o ho hin
    rw [if_neg Bool.false_ne_true, ByteMemory.setCells_of_notMem]
    · have hbyte : pattern (o % 128) = pattern (sharedOffset mask o % 128) := by
        obtain ⟨-, hmod⟩ := sharedOffset_div hle (by omega : o < 2 ^ 64)
        exact getPattern_congr hpattern (by omega)
      rw [hbyte]
      apply ByteMemory.setCells_of_mem
      · refine List.mem_map.mpr ⟨sharedOffset mask o, List.mem_range.mpr hplace, ?_⟩
        exact Prod.ext ((prefillCell_place hplace hfits).mpr ⟨rfl, hwrap⟩) rfl
      · intro c hc heq
        obtain ⟨p, hp, rfl⟩ := List.mem_map.mp hc
        rw [((prefillCell_place (List.mem_range.mp hp) hfits).mp heq).1]
        rfl
    · intro c hc heq
      obtain ⟨o', ho', rfl⟩ := List.mem_map.mp hc
      have hin' := (mem_validOffsets.mp ho').2
      rw [hcopied o' ho' heq, hin] at hin'
      cases hin'

/-- A store of a tile whose bytes have different addresses. -/
theorem store_cells
    (hdistinct : ∀ o < tm.tileBytes coords, ∀ o' < tm.tileBytes coords,
      tm.byteInside coords o = true → tm.byteInside coords o' = true →
        tm.byteAddress coords o = tm.byteAddress coords o' → o = o')
    (shared global : ByteMemory) : ∃ global',
      doTmaTransfer float tm coords shared global smem false .none = some (shared, global') ∧
      (∀ o < tm.tileBytes coords, tm.byteInside coords o = true →
        global' (tm.byteAddress coords o).toNat =
          shared (smem.toNat + copyOffset tm coords o)) ∧
      ∀ a, (∀ o < tm.tileBytes coords, tm.byteInside coords o = true →
        (tm.byteAddress coords o).toNat ≠ a) → global' a = global a := by
  refine ⟨_, doTmaTransfer_store float hvalid hfits (.inr ⟨mask, hmask⟩), ?_, ?_⟩
  · intro o ho hin
    apply ByteMemory.setCells_of_mem
    · exact List.mem_map.mpr ⟨o, mem_validOffsets.mpr ⟨ho, hin⟩, rfl⟩
    · intro c hc heq
      obtain ⟨o', ho', rfl⟩ := List.mem_map.mp hc
      obtain ⟨hlt', hin'⟩ := mem_validOffsets.mp ho'
      rw [hdistinct o' hlt' o ho hin' hin (BitVec.eq_of_toNat_eq heq)]
  · intro a hother
    apply ByteMemory.setCells_of_notMem
    intro c hc heq
    obtain ⟨o', ho', rfl⟩ := List.mem_map.mp hc
    obtain ⟨hlt', hin'⟩ := mem_validOffsets.mp ho'
    exact hother o' hlt' hin' heq

theorem PiecesFollowSwizzle.right (h : PiecesFollowSwizzle tm coords smem mask) :
    SwizzledTransfersRight float tm coords smem mask := by
  have hstore : ∀ shared global : ByteMemory, ∃ global',
      doTmaTransfer float tm coords shared global smem false .none = some (shared, global') ∧
      (∀ o < tm.tileBytes coords, tm.byteInside coords o = true →
        global' (tm.byteAddress coords o).toNat = shared (smem.toNat + sharedOffset mask o)) ∧
      ∀ a, (∀ o < tm.tileBytes coords, tm.byteInside coords o = true →
        (tm.byteAddress coords o).toNat ≠ a) → global' a = global a := by
    intro shared global
    obtain ⟨global', hrun, hbytes, hother⟩ :=
      store_cells hvalid hfits hmask h.distinct shared global
    refine ⟨global', hrun, fun o ho hin => ?_, hother⟩
    rw [hbytes o ho hin, copyOffset_eq hmask, h.pieces o ho hin]
  refine ⟨h.load hvalid hfits hmask, hstore, fun shared global other => ?_⟩
  obtain ⟨shared', pattern, -, hload, hbytes⟩ := h.load hvalid hfits hmask shared global
  obtain ⟨global', hrun, hback, -⟩ := hstore shared' other
  refine ⟨shared', global', hload, hrun, fun o ho hin => ?_⟩
  rw [hback o ho hin, hbytes o ho, if_pos hin]

namespace SwizzledTransfersRight

variable (h : SwizzledTransfersRight float tm coords smem mask)

include h

/-- A piece that goes astray is seen in a store. -/
theorem pieces : ∀ o < tm.tileBytes coords, tm.byteInside coords o = true →
    sharedOffset mask (pieceStart tm coords o) + (o - pieceStart tm coords o) =
      sharedOffset mask o := by
  intro o ho hin
  obtain ⟨global', hrun, hbytes, -⟩ := h.store
    (fun a => if a = smem.toNat + sharedOffset mask o then 1 else 0) fun _ => 0
  obtain ⟨stored, hrun', hcopied, -⟩ := store_cells hvalid hfits hmask
    (h.distinct hfits hmask)
    (fun a => if a = smem.toNat + sharedOffset mask o then 1 else 0) fun _ => 0
  rw [hrun'] at hrun
  cases hrun
  have hone := hbytes o ho hin
  rw [hcopied o ho hin, if_pos rfl] at hone
  rw [← copyOffset_eq hmask]
  by_contra hne
  rw [if_neg fun heq => hne (Nat.add_left_cancel heq)] at hone
  exact absurd hone (by decide)

/-- A byte out of the tensor that the fill does not reach is seen in a load. -/
theorem fills : ∀ o < tm.tileBytes coords, tm.byteInside coords o = false →
    sharedOffset mask o < tm.tileBytes coords ∧
      smem.toNat + (sharedOffset mask o - sharedOffset mask o % 128) < 2 ^ 32 := by
  intro o ho hout
  obtain ⟨-, pattern, hpattern, -⟩ := h.load (fun _ => 0) fun _ => 0
  obtain ⟨shared', pattern', hpattern', hrun, hbytes⟩ :=
    h.load (fun _ => pattern (o % 128) + 1) fun _ => 0
  rw [hpattern] at hpattern'
  cases hpattern'
  rw [doTmaTransfer_load float hvalid hfits (.inr ⟨mask, hmask⟩) hpattern .none] at hrun
  cases hrun
  have hfill := hbytes o ho
  rw [hout, if_neg Bool.false_ne_true, ByteMemory.setCells_of_notMem] at hfill
  · by_contra hnot
    rw [ByteMemory.setCells_of_notMem] at hfill
    · have hne : ∀ x : BitVec 8, x + 1 ≠ x := by decide
      exact hne _ hfill
    · intro c hc heq
      obtain ⟨p, hp, rfl⟩ := List.mem_map.mp hc
      have hp := List.mem_range.mp hp
      obtain ⟨rfl, hwrap⟩ := (prefillCell_place hp hfits).mp heq
      exact hnot ⟨hp, hwrap⟩
  · intro c hc heq
    obtain ⟨o', ho', rfl⟩ := List.mem_map.mp hc
    obtain ⟨hlt', hin'⟩ := mem_validOffsets.mp ho'
    rw [copyOffset_eq hmask, h.pieces hvalid hfits hmask o' hlt' hin'] at heq
    have hsame := sharedOffset_inj (swizzleMask_le hmask) (by omega) (by omega)
      (Nat.add_left_cancel heq)
    rw [hsame, hout] at hin'
    cases hin'

end SwizzledTransfersRight

/-- Loads and stores of a swizzled tile are right exactly when its pieces follow the swizzle. -/
theorem swizzled_transfers_iff : SwizzledTransfersRight float tm coords smem mask ↔
    PiecesFollowSwizzle tm coords smem mask := by
  constructor
  · intro h
    exact ⟨h.fillMode, h.pieces hvalid hfits hmask, h.fills hvalid hfits hmask,
      h.distinct hfits hmask⟩
  · intro h
    exact h.right hvalid hfits hmask

end

/-- Two rows of 128 bytes in the widest swizzle. -/
def rowsMap (width : BitVec 32) : TensorMap where
  globalAddress := 0x1000
  tensorRank := 1
  boxDim d := if d = 0 then width else 2
  globalDim d := if d = 0 then 256 else 2
  globalStrides _ := 256
  tensorDataType := tmaDtypeU8
  swizzle := tmaSwizzle128B
  oobFill := tmaOobZero

theorem swizzled_transfers_rows : SwizzledTransfersRight (fun _ _ dst _ _ => dst) (rowsMap 16)
    (fun _ => 0) 0 7 :=
  (swizzled_transfers_iff (by decide) (by decide) rfl).mpr
    ⟨.inl rfl, by decide +kernel, by decide +kernel, by decide +kernel⟩

/-- The box begins one column before the tensor, so the pieces of its second row are one byte
after the chunks. -/
theorem shifted_rows_misplaced : ¬ SwizzledTransfersRight (fun _ _ dst _ _ => dst) (rowsMap 128)
    (fun d => if d = 0 then -1 else 0) 0 7 := by
  intro h
  have hpiece := h.pieces (by decide) (by decide) rfl 144 (by decide) (by decide +kernel)
  exact absurd hpiece (by decide +kernel)

end FlashGpuSim
