import FlashGpuSim.Tma.SwizzledTile

/-!
Loads of swizzled tiles alone. A byte is where the swizzle has it exactly when the last byte that
the copy puts there comes from the same global address.
-/

namespace FlashGpuSim

open Lib

variable {tm : TensorMap} {coords : Nat → BitVec 32} {smem mask : BitVec 32} {o : Nat}
  {float : FloatReduction}

/-- A load puts every byte of the tile at its swizzled offset. -/
def SwizzledLoadRight (float : FloatReduction) (tm : TensorMap) (coords : Nat → BitVec 32)
    (smem mask : BitVec 32) : Prop :=
  ∀ shared global : ByteMemory, ∃ shared' pattern,
    getPattern tm.oobFill tm.tensorDataType = some pattern ∧
    doTmaTransfer float tm coords shared global smem true .none = some (shared', global) ∧
    ∀ o < tm.tileBytes coords, shared' (smem.toNat + sharedOffset mask o) =
      if tm.byteInside coords o then global (tm.byteAddress coords o).toNat else pattern (o % 128)

/-- The last of the bytes that the copy puts to an offset of shared memory. -/
structure LastCopied (tm : TensorMap) (coords : Nat → BitVec 32) (offset o : Nat) : Prop where
  lt : o < tm.tileBytes coords
  inside : tm.byteInside coords o = true
  place : copyOffset tm coords o = offset
  last : ∀ o' < tm.tileBytes coords, o < o' → tm.byteInside coords o' = true →
    copyOffset tm coords o' ≠ offset

/-- No byte is put to an offset of shared memory. -/
def NotCopied (tm : TensorMap) (coords : Nat → BitVec 32) (offset : Nat) : Prop :=
  ∀ o < tm.tileBytes coords, tm.byteInside coords o = true → copyOffset tm coords o ≠ offset

/-- The copies of a load follow the swizzle. -/
structure CopiesFollowSwizzle (tm : TensorMap) (coords : Nat → BitVec 32) (smem mask : BitVec 32) :
    Prop where
  fillMode : tm.oobFill = tmaOobZero ∨ tm.oobFill = tmaOobNan
  copied : ∀ o < tm.tileBytes coords, tm.byteInside coords o = true →
    ∃ o', LastCopied tm coords (sharedOffset mask o) o' ∧
      tm.byteAddress coords o' = tm.byteAddress coords o
  fills : ∀ o < tm.tileBytes coords, tm.byteInside coords o = false →
    NotCopied tm coords (sharedOffset mask o) ∧ sharedOffset mask o < tm.tileBytes coords ∧
      smem.toNat + (sharedOffset mask o - sharedOffset mask o % 128) < 2 ^ 32

theorem notCopied_or_last (tm : TensorMap) (coords : Nat → BitVec 32) (offset : Nat) :
    NotCopied tm coords offset ∨ ∃ o, LastCopied tm coords offset o := by
  rcases Classical.em (NotCopied tm coords offset) with hnone | hsome
  · exact .inl hnone
  · unfold NotCopied at hsome
    push Not at hsome
    obtain ⟨o, ho, hin, hplace⟩ := hsome
    let P := fun o => o < tm.tileBytes coords ∧ tm.byteInside coords o = true ∧
      copyOffset tm coords o = offset
    have hbound : ∀ o, P o → o ≤ tm.tileBytes coords := fun o h => h.1.le
    classical
    have hspec := Nat.findGreatest_spec (P := P) (hbound o ⟨ho, hin, hplace⟩) ⟨ho, hin, hplace⟩
    refine .inr ⟨_, hspec.1, hspec.2.1, hspec.2.2, fun o' ho' hlt hin' hplace' => ?_⟩
    have hle := Nat.le_findGreatest (P := P) (hbound o' ⟨ho', hin', hplace'⟩) ⟨ho', hin', hplace'⟩
    omega

/-- The bytes of the tile that are in the tensor, with those after `o` apart. -/
theorem validOffsets_split (ho : o < tm.tileBytes coords) (hin : tm.byteInside coords o = true) :
    ∃ before after, validOffsets tm coords = before ++ o :: after ∧
      ∀ o' ∈ after, o < o' ∧ o' < tm.tileBytes coords ∧ tm.byteInside coords o' = true := by
  have hrange : List.range (tm.tileBytes coords) = List.range o ++ o ::
      (List.range (tm.tileBytes coords - (o + 1))).map (o + 1 + ·) := by
    rw [show tm.tileBytes coords = o + 1 + (tm.tileBytes coords - (o + 1)) by omega,
      List.range_add, List.range_succ, List.append_assoc, List.singleton_append,
      Nat.add_sub_cancel_left]
  unfold validOffsets
  rw [hrange, List.filter_append, List.filter_cons_of_pos hin]
  refine ⟨_, _, rfl, fun o' ho' => ?_⟩
  obtain ⟨hmem, hin'⟩ := List.mem_filter.mp ho'
  obtain ⟨k, hk, rfl⟩ := List.mem_map.mp hmem
  have hk := List.mem_range.mp hk
  exact ⟨by omega, by omega, hin'⟩

section

variable {filled global : ByteMemory} {offset : Nat}

/-- The cells of the copy. -/
def copyCells (tm : TensorMap) (coords : Nat → BitVec 32) (smem : BitVec 32) (global : ByteMemory) :
    List (Nat × BitVec 8) :=
  (validOffsets tm coords).map fun o =>
    (smem.toNat + copyOffset tm coords o, global (tm.byteAddress coords o).toNat)

theorem LastCopied.value (h : LastCopied tm coords offset o) :
    filled.setCells (copyCells tm coords smem global) (smem.toNat + offset) =
      global (tm.byteAddress coords o).toNat := by
  obtain ⟨before, after, hsplit, hafter⟩ := validOffsets_split h.lt h.inside
  unfold copyCells
  rw [hsplit, List.map_append, List.map_cons, h.place]
  apply ByteMemory.setCells_last
  intro c hc heq
  obtain ⟨o', ho', rfl⟩ := List.mem_map.mp hc
  obtain ⟨hlt, hlt', hin'⟩ := hafter o' ho'
  exact h.last o' hlt' hlt hin' (Nat.add_left_cancel heq)

theorem NotCopied.value (h : NotCopied tm coords offset) :
    filled.setCells (copyCells tm coords smem global) (smem.toNat + offset) =
      filled (smem.toNat + offset) := by
  apply ByteMemory.setCells_of_notMem
  intro c hc heq
  obtain ⟨o', ho', rfl⟩ := List.mem_map.mp hc
  obtain ⟨hlt, hin⟩ := mem_validOffsets.mp ho'
  exact h o' hlt hin (Nat.add_left_cancel heq)

end

/-- A swizzled load is right exactly when its copies follow the swizzle. -/
theorem swizzledLoad_iff (hvalid : tm.isValid = true) (hfits : tm.tileBytes coords < 2 ^ 32)
    (hmask : swizzleMask tm.swizzle = some mask) :
    SwizzledLoadRight float tm coords smem mask ↔ CopiesFollowSwizzle tm coords smem mask := by
  have hle := swizzleMask_le hmask
  constructor
  · intro h
    obtain ⟨-, pattern, hpattern, -⟩ := h (fun _ => 0) fun _ => 0
    have hvalue : ∀ shared global : ByteMemory, ∀ o < tm.tileBytes coords,
        (shared.setCells ((List.range (tm.tileBytes coords)).map
          (prefillCell smem pattern))).setCells (copyCells tm coords smem global)
            (smem.toNat + sharedOffset mask o) =
        if tm.byteInside coords o then global (tm.byteAddress coords o).toNat
        else pattern (o % 128) := by
      intro shared global o ho
      obtain ⟨shared', pattern', hpattern', hrun, hbytes⟩ := h shared global
      rw [hpattern] at hpattern'
      cases hpattern'
      rw [doTmaTransfer_load float hvalid hfits (.inr ⟨mask, hmask⟩) hpattern .none] at hrun
      cases hrun
      exact hbytes o ho
    have hnext : ∀ x : BitVec 8, x + 1 ≠ x := by decide
    refine ⟨getPattern_mode hpattern, fun o ho hin => ?_, fun o ho hout => ?_⟩
    · rcases notCopied_or_last tm coords (sharedOffset mask o) with hnone | ⟨o', hlast⟩
      · -- the place keeps what the fill left there, whatever the global memory has
        have hsame := hvalue (fun _ => 0) (fun _ => (ByteMemory.setCells (fun _ => 0)
          ((List.range (tm.tileBytes coords)).map (prefillCell smem pattern)))
            (smem.toNat + sharedOffset mask o) + 1) o ho
        rw [hnone.value, if_pos hin] at hsame
        exact absurd hsame.symm (hnext _)
      · refine ⟨o', hlast, ?_⟩
        have hone := hvalue (fun _ => 0)
          (fun a => if a = (tm.byteAddress coords o').toNat then 1 else 0) o ho
        rw [hlast.value, if_pos hin, if_pos rfl] at hone
        by_contra hne
        rw [if_neg fun heq => hne (BitVec.eq_of_toNat_eq heq).symm] at hone
        exact absurd hone (by decide)
    · have hfill := hvalue (fun _ => pattern (o % 128) + 1)
      have hnone : NotCopied tm coords (sharedOffset mask o) := by
        rcases notCopied_or_last tm coords (sharedOffset mask o) with hnone | ⟨o', hlast⟩
        · exact hnone
        · have hbyte := hfill (fun _ => pattern (o % 128) + 1) o ho
          rw [hlast.value, hout, if_neg Bool.false_ne_true] at hbyte
          exact absurd hbyte (hnext _)
      refine ⟨hnone, ?_⟩
      have hbyte := hfill (fun _ => 0) o ho
      rw [hnone.value, hout, if_neg Bool.false_ne_true] at hbyte
      by_contra hnot
      rw [ByteMemory.setCells_of_notMem] at hbyte
      · exact hnext _ hbyte
      · intro c hc heq
        obtain ⟨p, hp, rfl⟩ := List.mem_map.mp hc
        have hp := List.mem_range.mp hp
        obtain ⟨rfl, hwrap⟩ := (prefillCell_place hp hfits).mp heq
        exact hnot ⟨hp, hwrap⟩
  · intro h shared global
    obtain ⟨pattern, hpattern⟩ := getPattern_isSome tm.tensorDataType h.fillMode
    refine ⟨_, pattern, hpattern,
      doTmaTransfer_load float hvalid hfits (.inr ⟨mask, hmask⟩) hpattern .none, fun o ho => ?_⟩
    show ByteMemory.setCells _ (copyCells tm coords smem global) _ = _
    cases hin : tm.byteInside coords o with
    | true =>
      obtain ⟨o', hlast, haddr⟩ := h.copied o ho hin
      rw [hlast.value, haddr, if_pos rfl]
    | false =>
      obtain ⟨hnone, hplace, hwrap⟩ := h.fills o ho hin
      obtain ⟨-, hmod⟩ := sharedOffset_div hle (by omega : o < 2 ^ 64)
      have hbyte : pattern (o % 128) = pattern (sharedOffset mask o % 128) :=
        getPattern_congr hpattern (by omega)
      rw [hnone.value, if_neg Bool.false_ne_true, hbyte]
      apply ByteMemory.setCells_of_mem
      · refine List.mem_map.mpr ⟨sharedOffset mask o, List.mem_range.mpr hplace, ?_⟩
        exact Prod.ext ((prefillCell_place hplace hfits).mpr ⟨rfl, hwrap⟩) rfl
      · intro c hc heq
        obtain ⟨p, hp, rfl⟩ := List.mem_map.mp hc
        rw [((prefillCell_place (List.mem_range.mp hp) hfits).mp heq).1]
        rfl

/-- Copies that go where the swizzle has their bytes follow it. -/
theorem copiesFollowSwizzle_of_places (hfits : tm.tileBytes coords < 2 ^ 32)
    (hmask : mask.toNat ≤ 7) (hmode : tm.oobFill = tmaOobZero ∨ tm.oobFill = tmaOobNan)
    (hplaces : ∀ o < tm.tileBytes coords, tm.byteInside coords o = true →
      copyOffset tm coords o = sharedOffset mask o)
    (hfills : ∀ o < tm.tileBytes coords, tm.byteInside coords o = false →
      sharedOffset mask o < tm.tileBytes coords ∧
        smem.toNat + (sharedOffset mask o - sharedOffset mask o % 128) < 2 ^ 32) :
    CopiesFollowSwizzle tm coords smem mask := by
  have hsame : ∀ o < tm.tileBytes coords, ∀ o' < tm.tileBytes coords,
      tm.byteInside coords o' = true → copyOffset tm coords o' = sharedOffset mask o → o' = o := by
    intro o ho o' ho' hin' heq
    rw [hplaces o' ho' hin'] at heq
    exact sharedOffset_inj hmask (by omega) (by omega) heq
  refine ⟨hmode, fun o ho hin => ?_, fun o ho hout => ⟨fun o' ho' hin' heq => ?_, hfills o ho hout⟩⟩
  · refine ⟨o, ⟨ho, hin, hplaces o ho hin, fun o' ho' hlt hin' heq => ?_⟩, rfl⟩
    have := hsame o ho o' ho' hin' heq
    omega
  · rw [hsame o ho o' ho' hin' heq, hout] at hin'
    cases hin'

end FlashGpuSim
