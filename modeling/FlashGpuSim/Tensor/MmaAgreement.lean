import FlashGpuSim.Tensor.MmaFragments

/-!
`wgmma` multiplies the matrices that its registers and its descriptor describe, and an exact `mma`
agrees with it on a block of 16 rows.
-/

namespace FlashGpuSim

open Lib

variable {ops : MmaOperands} {wops : WgmmaOperands} {regs wregs : LaneRegs} {smem : ByteMemory}
  {lane r row col k q : Nat}

/-! ### `wgmma` -/

/-- A of a warp group, 16 rows for each warp. -/
def wgmmaByte (vector : Nat → Nat → RegBytes) (row k : Nat) : BitVec 8 :=
  aByte (fun lane => vector (32 * (row / 16) + lane)) (row % 16) k

theorem wgmmaCollect (aIsSigned : Bool) (vector : Nat → Nat → RegBytes) (hrow : row < 64)
    (hk : k < 32) :
    assign (fun _ => 0) ((List.range 128).flatMap fun lane =>
      wgmmaPlaceA aIsSigned (vector lane) lane) (row * 32 + k) =
        int8Value (wgmmaByte vector row k) aIsSigned := by
  have hvalue : ∀ lane reg byte, lane < 128 → reg < 4 → byte < 4 →
      (lane / 4 % 8 + 16 * (lane / 32) + 8 * (reg % 2)) * 32 +
        (4 * (lane % 4) + 16 * (reg / 2 % 2)) + byte = row * 32 + k →
      lane = 32 * (row / 16) + (4 * (row % 16 % 8) + k % 16 / 4) ∧
        reg = row % 16 / 8 + 2 * (k / 16) ∧ byte = k % 4 := by
    intro lane reg byte hlane hreg hbyte hcell
    have hlow : 4 * (lane % 4) + 16 * (reg / 2 % 2) + byte < 32 := by omega
    generalize hhigh : lane / 4 % 8 + 16 * (lane / 32) + 8 * (reg % 2) = row' at hcell
    obtain ⟨rfl, hcol⟩ : row' = row ∧ 4 * (lane % 4) + 16 * (reg / 2 % 2) + byte = k := by omega
    subst hcol
    have hblock : row' / 16 = lane / 32 := by omega
    have hreg' : row' % 16 / 8 = reg % 2 := by omega
    have hgroup : row' % 16 % 8 = lane / 4 % 8 := by omega
    rw [hblock, hreg', hgroup]
    omega
  apply assign_of_mem
  · refine List.mem_flatMap.mpr ⟨32 * (row / 16) + (4 * (row % 16 % 8) + k % 16 / 4),
      List.mem_range.mpr (by omega), List.mem_flatMap.mpr ⟨row % 16 / 8 + 2 * (k / 16),
        List.mem_range.mpr (by omega), List.mem_map.mpr ⟨k % 4, List.mem_range.mpr (by omega), ?_⟩⟩⟩
    refine Prod.ext ?_ rfl
    have hblock : (32 * (row / 16) + (4 * (row % 16 % 8) + k % 16 / 4)) / 32 = row / 16 := by omega
    have hgroup : (32 * (row / 16) + (4 * (row % 16 % 8) + k % 16 / 4)) / 4 % 8 = row % 16 % 8 := by
      omega
    have hlane : (32 * (row / 16) + (4 * (row % 16 % 8) + k % 16 / 4)) % 4 = k % 16 / 4 := by omega
    have hreg : (row % 16 / 8 + 2 * (k / 16)) % 2 = row % 16 / 8 := by omega
    have hreg' : (row % 16 / 8 + 2 * (k / 16)) / 2 % 2 = k / 16 := by omega
    dsimp only
    rw [hblock, hgroup, hlane, hreg, hreg']
    omega
  · intro c hc hcell
    obtain ⟨lane, hlane, hc⟩ := List.mem_flatMap.mp hc
    obtain ⟨reg, hreg, hc⟩ := List.mem_flatMap.mp hc
    obtain ⟨byte, hbyte, rfl⟩ := List.mem_map.mp hc
    obtain ⟨rfl, rfl, rfl⟩ := hvalue lane reg byte (List.mem_range.mp hlane)
      (List.mem_range.mp hreg) (List.mem_range.mp hbyte) hcell
    rfl

/-- What `wgmma_m64n8k32_int8_impl` leaves in the destination. -/
theorem wgmma_spec (aIsSigned bIsSigned : Bool) (wops : WgmmaOperands) (smem : ByteMemory)
    (wregs : LaneRegs) (hq : q < 4) (hlane : lane < 32) {reg : MatrixReg}
    (hr : wops.dst[r]? = some reg) :
    (wgmmaM64n8k32Int8Impl aIsSigned bIsSigned wops smem wregs (32 * q + lane) reg).b32 =
      reduceS32 true (productEntry 32
        (fun k => int8Value (aByte (fun lane => laneVector wregs wops.srcA (32 * q + lane))
          (accumulatorRow lane r) k) aIsSigned)
        (fun k => wgmmaB wops.bDesc bIsSigned smem (accumulatorCol lane r) k)
        (if wops.includeC (32 * q + lane) then (laneVector wregs wops.dst (32 * q + lane) r).s32
          else 0)) := by
  have hlt : r < 4 := by
    rw [← wops.dst_length]
    exact (List.getElem?_eq_some_iff.mp hr).1
  have hcoord : wgmmaAccumulatorCoord (32 * q + lane) r =
      (16 * q + accumulatorRow lane r, accumulatorCol lane r) := by
    unfold wgmmaAccumulatorCoord accumulatorRow accumulatorCol
    refine Prod.ext ?_ ?_
    · dsimp only
      omega
    · dsimp only
      omega
  have hrow : accumulatorRow lane r < 16 := by
    unfold accumulatorRow
    omega
  have hsum : ((List.range 32).map fun k =>
      assign (fun _ => 0) ((List.range 128).flatMap fun lane =>
        wgmmaPlaceA aIsSigned (laneVector wregs wops.srcA lane) lane)
          ((16 * q + accumulatorRow lane r) * 32 + k) *
        wgmmaB wops.bDesc bIsSigned smem (accumulatorCol lane r) k).sum =
      ((List.range 32).map fun k =>
        int8Value (aByte (fun lane => laneVector wregs wops.srcA (32 * q + lane))
          (accumulatorRow lane r) k) aIsSigned *
        wgmmaB wops.bDesc bIsSigned smem (accumulatorCol lane r) k).sum := by
    refine congrArg List.sum (List.map_congr_left fun k hk => ?_)
    rw [wgmmaCollect aIsSigned _ (by omega) (List.mem_range.mp hk)]
    unfold wgmmaByte
    rw [show (16 * q + accumulatorRow lane r) / 16 = q by omega,
      show (16 * q + accumulatorRow lane r) % 16 = accumulatorRow lane r by omega]
  unfold wgmmaM64n8k32Int8Impl
  rw [distribute_apply _ _ _ (by omega : 32 * q + lane < 128), setVector_b32 wops.nodup hr,
    b32_ofS32, hcoord]
  dsimp only
  rw [hsum]
  unfold reduceS32 productEntry laneVector
  rw [if_pos rfl]

namespace MmaVariant

/-- A `wgmma` with the matrices of an `mma` in the block of 16 rows of warp `q`. -/
structure SameMatrices (ops : MmaOperands) (regs : LaneRegs) (wops : WgmmaOperands)
    (smem : ByteMemory) (wregs : LaneRegs) (q : Nat) : Prop where
  block : q < 4
  a : ∀ lane < 32, ∀ reg < 4, ∀ byte < 4,
    laneVector wregs wops.srcA (32 * q + lane) reg byte = laneVector regs ops.srcA lane reg byte
  b : ∀ col < 8, ∀ k < 32, smem (wgmmaGmmaKMajorSmemAddr wops.bDesc col k 1 32).toNat =
    bByte (laneVector regs ops.srcB) col k
  c : ∀ lane < 32, ∀ r < 4,
    (laneVector wregs wops.dst (32 * q + lane) r).s32 = (laneVector regs ops.srcC lane r).s32
  includeC : ∀ lane < 32, wops.includeC (32 * q + lane) = true

/-- The accumulators of the `mma` and of the `wgmma` are the same. -/
def Agrees (v : MmaVariant) (ops : MmaOperands) (regs : LaneRegs) : Prop :=
  ∀ (wops : WgmmaOperands) (smem : ByteMemory) (wregs : LaneRegs) (q : Nat),
    SameMatrices ops regs wops smem wregs q →
    ∃ regs', tensorMmaImpl v.inst ops regs = some regs' ∧
      ∀ lane < 32, ∀ (r : Nat) (reg reg' : MatrixReg),
        ops.dst[r]? = some reg → wops.dst[r]? = some reg' →
        (wgmmaM64n8k32Int8Impl v.aIsSigned v.bIsSigned wops smem wregs (32 * q + lane) reg').b32 =
          (regs' lane reg).b32

/-- An exact product agrees with `wgmma`. -/
theorem Exact.agrees {v : MmaVariant} (hshape : v.shape = .m16n8k32) (hsaturate : v.saturate = true)
    (h : v.Exact ops regs) : v.Agrees ops regs := by
  intro wops smem wregs q hsame
  refine ⟨_, v.inst_impl ops regs, fun lane hlane r reg reg' hr hr' => ?_⟩
  have hlt : r < 4 := by
    rw [← ops.dst_length]
    exact (List.getElem?_eq_some_iff.mp hr).1
  have hrow : accumulatorRow lane r < 16 := by
    unfold accumulatorRow
    omega
  have hcol : accumulatorCol lane r < 8 := by
    unfold accumulatorCol
    omega
  have hc : cValue (laneVector regs ops.srcC) (accumulatorRow lane r) (accumulatorCol lane r) =
      (laneVector regs ops.srcC lane r).s32 := by
    unfold cValue accumulatorRow accumulatorCol
    rw [show 4 * ((lane / 4 + 8 * (r / 2)) % 8) + (2 * (lane % 4) + r % 2) / 2 = lane by omega,
      show 2 * ((lane / 4 + 8 * (r / 2)) / 8) + (2 * (lane % 4) + r % 2) % 2 = r by omega]
  rw [exact_iff.mp h lane hlane r reg hr, hsaturate,
    wgmma_spec _ _ wops smem wregs hsame.block hlane hr', if_pos (hsame.includeC lane hlane),
    hsame.c lane hlane r hlt]
  unfold exactEntry
  rw [hc, hshape]
  congr 1
  apply productEntry_congr
  · intro k hk
    unfold aByte
    dsimp only
    rw [hsame.a _ (by omega) _ (by omega) _ (by omega)]
  · intro k hk
    unfold wgmmaB
    rw [hsame.b _ hcol k hk]

/-! ### Which variants are exact -/

/-- Registers in which B is made of ones and A of zeros, but for the first byte of one register of
the first lane each. -/
def oneByteRegs (a b : MatrixReg) (x y : BitVec 8) : LaneRegs := fun lane reg byte =>
  if reg = a then if lane = 0 ∧ byte = 0 then x else 0
  else if reg.uid < 8 then 0
  else if reg = b then if lane = 0 ∧ byte = 0 then y else 1
  else if reg.uid < 10 then 1
  else 0

/-- Operands in different registers. -/
def plainOperands (shape : MmaShape) : MmaOperands where
  dst := [⟨0, false⟩, ⟨1, false⟩, ⟨2, false⟩, ⟨3, false⟩]
  srcA := [⟨4, false⟩, ⟨5, false⟩, ⟨6, false⟩, ⟨7, false⟩].take (shape.k / 8)
  srcB := [⟨8, false⟩, ⟨9, false⟩].take (shape.k / 16)
  srcC := [⟨10, false⟩, ⟨11, false⟩, ⟨12, false⟩, ⟨13, false⟩]
  nodup := by decide
  dst_length := rfl

/-- The first accumulator, as it is and as it should be. -/
theorem Exact.first {v : MmaVariant} (h : v.Exact (plainOperands v.shape) regs) :
    reduceS32 v.saturate (productEntry v.shape.k
      (fun k => (placedByte v.shape (laneVector regs (plainOperands v.shape).srcA) 0 k).toInt)
      (fun k => (bByte (laneVector regs (plainOperands v.shape).srcB) 0 k).toInt)
      (cValue (laneVector regs (plainOperands v.shape).srcC) 0 0)) =
    reduceS32 v.saturate (v.exactEntry (plainOperands v.shape) regs 0 0) := by
  have hfirst := exact_iff.mp h 0 (by decide) 0 ⟨0, false⟩ rfl
  rw [tensorMmaS8Impl_spec _ _ (by decide) (rfl : (plainOperands v.shape).dst[0]? = _)] at hfirst
  exact hfirst

/-- The second register of A goes to the first row. -/
theorem not_exact_k32 (aIsSigned bIsSigned saturate : Bool) :
    ¬ Exact ⟨.m16n8k32, aIsSigned, bIsSigned, saturate⟩ (plainOperands .m16n8k32)
      (oneByteRegs ⟨5, false⟩ ⟨8, false⟩ 1 1) := by
  intro h
  have hfirst := h.first
  clear h
  revert hfirst
  revert aIsSigned bIsSigned saturate
  decide +kernel

/-- An unsigned byte of A or of B is taken as signed. -/
theorem not_exact_unsigned (bIsSigned saturate : Bool) :
    ¬ Exact ⟨.m16n8k16, false, bIsSigned, saturate⟩ (plainOperands .m16n8k16)
      (oneByteRegs ⟨4, false⟩ ⟨8, false⟩ 255 1) := by
  intro h
  have hfirst := h.first
  clear h
  revert hfirst
  revert bIsSigned saturate
  decide +kernel

theorem not_exact_unsigned_b (aIsSigned saturate : Bool) :
    ¬ Exact ⟨.m16n8k16, aIsSigned, false, saturate⟩ (plainOperands .m16n8k16)
      (oneByteRegs ⟨4, false⟩ ⟨8, false⟩ 1 255) := by
  intro h
  have hfirst := h.first
  clear h
  revert hfirst
  revert aIsSigned saturate
  decide +kernel

/-- An integer `mma` is exact for all register contents, and then agrees with `wgmma`, exactly for
K = 16 and two signed inputs; and any variant is exact where it misreads no byte. -/
theorem exact_all_iff (v : MmaVariant) :
    (((∀ ops regs, v.Exact ops regs) ∧
      (v.shape = .m16n8k32 → v.saturate = true → ∀ ops regs, v.Agrees ops regs)) ↔
      v.shape = .m16n8k16 ∧ v.aIsSigned = true ∧ v.bIsSigned = true) ∧
    ∀ ops regs, v.Unmisread ops regs → v.Exact ops regs := by
  refine ⟨⟨?_, ?_⟩, fun ops regs h => h.exact⟩
  · rintro ⟨hexact, -⟩
    obtain ⟨shape, aIsSigned, bIsSigned, saturate⟩ := v
    cases shape with
    | m16n8k32 => exact absurd (hexact _ _) (not_exact_k32 aIsSigned bIsSigned saturate)
    | m16n8k16 =>
      refine ⟨rfl, ?_, ?_⟩
      · cases aIsSigned with
        | true => rfl
        | false => exact absurd (hexact _ _) (not_exact_unsigned bIsSigned saturate)
      · cases bIsSigned with
        | true => rfl
        | false => exact absurd (hexact _ _) (not_exact_unsigned_b aIsSigned saturate)
  · rintro ⟨hshape, ha, hb⟩
    have hexact : ∀ ops regs, v.Exact ops regs := by
      intro ops regs
      apply Unmisread.exact
      refine ⟨fun hu => ?_, fun hu => ?_, fun hwide => ?_⟩
      · rw [ha] at hu
        cases hu
      · rw [hb] at hu
        cases hu
      · rw [hshape] at hwide
        cases hwide
    exact ⟨hexact, fun hwide hsaturate ops regs => (hexact ops regs).agrees hwide hsaturate⟩

/-- Signed inputs with K = 32. -/
theorem not_exact_all : ¬ ∀ (v : MmaVariant) (ops : MmaOperands) (regs : LaneRegs),
    v.Exact ops regs :=
  fun h => not_exact_k32 true true true (h _ _ _)

end MmaVariant

end FlashGpuSim
