import FlashGpuSim.Coalesce.Coverage

/-!
What the coalescing promises, and that it does what it promises when each active lane that asks
for bytes is in a warp part, asks at another address than 0, and for bytes of one chunk of 32.
-/

namespace FlashGpuSim

open Lib

namespace CoalesceInst

variable {cfg : CoalesceConfig} {inst : CoalesceInst}

/-- A load or a store: the bytes of each lane. -/
def requests (inst : CoalesceInst) (t : Nat) : LaneBytes :=
  ⟨(inst.lanes t).memreqaddr.getD 0 0, inst.dataSizeCoales t⟩

/-- An atomic operation: the bytes of each lane. -/
def atomicRequests (inst : CoalesceInst) (t : Nat) : LaneBytes :=
  ⟨(inst.lanes t).memreqaddr.getD 0 0, inst.dataSize⟩

/-- An instruction of the global space, where `set_addr` gives each lane one address. -/
structure GlobalSpace (inst : CoalesceInst) : Prop where
  space : inst.localSpace = false
  dataSize : inst.dataSize = 1 ∨ inst.dataSize = 2 ∨ inst.dataSize = 4 ∨ inst.dataSize = 8 ∨
    inst.dataSize = 16
  oneAddress : ∀ t, (inst.lanes t).memreqaddr = [(inst.requests t).addr]

theorem isSegment_segmentSize (h : inst.GlobalSpace) (cfg : CoalesceConfig) :
    IsSegment (inst.segmentSize cfg) := by
  unfold segmentSize IsSegment
  rcases h.dataSize with h | h | h | h | h <;> rw [h]
  · exact .inl rfl
  all_goals
    cases inst.sectorSegmentSize cfg <;> simp

theorem dataSize_pos (h : inst.GlobalSpace) : 0 < inst.dataSize := by
  rcases h.dataSize with h | h | h | h | h <;> omega

/-! ### What the accesses of a warp part are -/

/-- The active lanes of a warp part. -/
def PartLanes (cfg : CoalesceConfig) (inst : CoalesceInst) (part t : Nat) : Prop :=
  t ∈ subwarp cfg part ∧ inst.activeMask.getLsbD t = true

/-- Aligned accesses that mask exactly the bytes of some lanes, within their range and their
sectors. -/
structure Covers (requests : Nat → LaneBytes) (lanes : Nat → Prop) (accesses : List MemAccess) :
    Prop where
  shaped : ∀ a ∈ accesses, a.Shaped
  bytes : ∀ x, (∃ a ∈ accesses, a.Masks x) ↔ ∃ t, lanes t ∧ (requests t).Touches x
  inside : ∀ a ∈ accesses, ∀ x, a.Masks x → a.Contains x ∧ a.InSectors x

/-- A lane is in the accesses that contain a byte of its own, and no byte is in two accesses. -/
structure CoversOnce (requests : Nat → LaneBytes) (lanes : Nat → Prop)
    (accesses : List MemAccess) : Prop extends Covers requests lanes accesses where
  warpMask : ∀ a ∈ accesses, ∀ t, a.warpMask.getLsbD t = true ↔
    lanes t ∧ ∃ x, (requests t).Touches x ∧ a.Contains x
  apart : accesses.Pairwise fun a b => ∀ x, ¬ (a.Contains x ∧ b.Contains x)

/-- Each lane is in one access, which masks its bytes, and no two lanes of an access have a
common byte. -/
structure CoversAtomic (requests : Nat → LaneBytes) (lanes : Nat → Prop)
    (accesses : List MemAccess) : Prop extends Covers requests lanes accesses where
  warpMask : ∀ a ∈ accesses, ∀ t, a.warpMask.getLsbD t = true → lanes t
  placed : ∀ t, lanes t → ∃ a ∈ accesses, a.warpMask.getLsbD t = true ∧
    ∀ x, (requests t).Touches x → a.Masks x
  once : accesses.Pairwise fun a b =>
    ∀ t, ¬ (a.warpMask.getLsbD t = true ∧ b.warpMask.getLsbD t = true)
  free : ∀ a ∈ accesses, ∀ t t', a.warpMask.getLsbD t = true → a.warpMask.getLsbD t' = true →
    t ≠ t' → ∀ x, ¬ ((requests t).Touches x ∧ (requests t').Touches x)

/-- The accesses of the parts together mask the bytes of the active lanes. -/
def MasksAll (cfg : CoalesceConfig) (inst : CoalesceInst) (requests : Nat → LaneBytes)
    (accesses : List MemAccess) : Prop :=
  ∀ x, (∃ a ∈ accesses, a.Masks x) ↔
    ∃ t < cfg.warpSize, inst.activeMask.getLsbD t = true ∧ (requests t).Touches x

/-- What `memory_coalescing_arch` promises. -/
def Coalesced (cfg : CoalesceConfig) (inst : CoalesceInst) : Prop :=
  ∀ isWrite accessType, ∃ accesses : Nat → List MemAccess,
    inst.memoryCoalescingArch cfg isWrite accessType =
      .ok ((List.range cfg.memWarpParts).flatMap accesses) ∧
    MasksAll cfg inst inst.requests ((List.range cfg.memWarpParts).flatMap accesses) ∧
    ∀ part < cfg.memWarpParts,
      inst.coalescePart cfg isWrite accessType part = .ok (accesses part) ∧
        CoversOnce inst.requests (PartLanes cfg inst part) (accesses part)

/-- What `memory_coalescing_arch_atomic` promises. -/
def CoalescedAtomic (cfg : CoalesceConfig) (inst : CoalesceInst) : Prop :=
  ∀ isWrite accessType, ∃ accesses : Nat → List MemAccess,
    inst.memoryCoalescingArchAtomic cfg isWrite accessType =
      .ok ((List.range cfg.memWarpParts).flatMap accesses) ∧
    MasksAll cfg inst inst.atomicRequests ((List.range cfg.memWarpParts).flatMap accesses) ∧
    ∀ part < cfg.memWarpParts,
      inst.coalesceAtomicPart cfg isWrite accessType part = .ok (accesses part) ∧
        CoversAtomic inst.atomicRequests (PartLanes cfg inst part) (accesses part)

/-! ### The lanes of the parts -/

theorem subwarp_lt {part t : Nat} (hpart : part < cfg.memWarpParts) (ht : t ∈ subwarp cfg part) :
    t < cfg.warpSize := by
  obtain ⟨-, hlt⟩ := List.mem_range'_1.mp ht
  have hle := Nat.mul_le_mul_right (cfg.warpSize / cfg.memWarpParts) (Nat.succ_le_of_lt hpart)
  have hall := Nat.mul_div_le cfg.warpSize cfg.memWarpParts
  rw [Nat.succ_mul] at hle
  omega

theorem subwarp_nodup (cfg : CoalesceConfig) (part : Nat) : (subwarp cfg part).Nodup :=
  List.nodup_range'

/-- The lanes that the parts reach. -/
theorem exists_subwarp {t : Nat} :
    (∃ part < cfg.memWarpParts, t ∈ subwarp cfg part) ↔
      t < cfg.memWarpParts * (cfg.warpSize / cfg.memWarpParts) := by
  constructor
  · rintro ⟨part, hpart, ht⟩
    obtain ⟨-, hlt⟩ := List.mem_range'_1.mp ht
    have hle := Nat.mul_le_mul_right (cfg.warpSize / cfg.memWarpParts) (Nat.succ_le_of_lt hpart)
    rw [Nat.succ_mul] at hle
    omega
  · intro hlt
    have hpos : 0 < cfg.warpSize / cfg.memWarpParts := by
      by_contra hzero
      rw [Nat.eq_zero_of_not_pos hzero] at hlt
      omega
    refine ⟨t / (cfg.warpSize / cfg.memWarpParts), (Nat.div_lt_iff_lt_mul hpos).mpr hlt, ?_⟩
    apply List.mem_range'_1.mpr
    have hdiv := Nat.div_add_mod' t (cfg.warpSize / cfg.memWarpParts)
    have hmod := Nat.mod_lt t hpos
    omega

/-- The bytes of the parts are those of the warp when each lane with bytes is in a part. -/
theorem masksAll_of_parts {requests : Nat → LaneBytes} {accesses : Nat → List MemAccess}
    (hparts : ∀ part < cfg.memWarpParts,
      Covers requests (PartLanes cfg inst part) (accesses part))
    (hreach : ∀ t < cfg.warpSize, (requests t).size ≠ 0 →
      t < cfg.memWarpParts * (cfg.warpSize / cfg.memWarpParts)) :
    MasksAll cfg inst requests ((List.range cfg.memWarpParts).flatMap accesses) := by
  intro x
  constructor
  · rintro ⟨a, ha, hx⟩
    obtain ⟨part, hpart, ha⟩ := List.mem_flatMap.mp ha
    have hpart := List.mem_range.mp hpart
    obtain ⟨t, ⟨ht, hactive⟩, htouch⟩ := ((hparts part hpart).bytes x).mp ⟨a, ha, hx⟩
    exact ⟨t, subwarp_lt hpart ht, hactive, htouch⟩
  · rintro ⟨t, ht, hactive, htouch⟩
    have hsize : (requests t).size ≠ 0 := by
      intro hzero
      unfold LaneBytes.Touches at htouch
      omega
    obtain ⟨part, hpart, hmem⟩ := exists_subwarp.mpr (hreach t ht hsize)
    obtain ⟨a, ha, hx⟩ := ((hparts part hpart).bytes x).mpr ⟨t, ⟨hmem, hactive⟩, htouch⟩
    exact ⟨a, List.mem_flatMap.mpr ⟨part, List.mem_range.mpr hpart, ha⟩, hx⟩

theorem eq_map_of_forall₂ {f : Nat → List MemAccess} {l : List Nat} {ys : List (List MemAccess)}
    (h : List.Forall₂ (fun part y => f part = y) l ys) : ys = l.map f := by
  induction h with
  | nil => rfl
  | cons hy _ ih => rw [List.map_cons, hy, ← ih]

/-! ### Loads and stores -/

/-- An active lane that asks for bytes. -/
def Live (inst : CoalesceInst) (t : Nat) : Prop :=
  inst.activeMask.getLsbD t = true ∧ (inst.requests t).size ≠ 0

theorem noteLane_skip (m : Transactions TransactionInfo) {t : Nat} (h : ¬ inst.Live t) :
    inst.noteLane cfg m t = .ok m := by
  unfold noteLane
  cases hactive : inst.activeMask.getLsbD t with
  | false => rfl
  | true =>
    have hzero : inst.dataSizeCoales t = 0 := by
      by_contra hne
      exact h ⟨hactive, hne⟩
    rw [if_neg (by simp), if_pos hzero]

theorem noteLane_live (hg : inst.GlobalSpace) (m : Transactions TransactionInfo) {t : Nat}
    (h : inst.Live t) : inst.noteLane cfg m t =
      .ok (if (inst.requests t).addr = 0 then m
        else noteAccess (inst.segmentSize cfg) t (inst.requests t).size m
          (inst.requests t).addr) := by
  have hsize : inst.accessSize t = (inst.requests t).size := by
    unfold accessSize
    rw [hg.space, if_neg (by simp)]
    rfl
  have hzero : inst.dataSizeCoales t ≠ 0 := h.2
  have htake : ([(inst.requests t).addr].take maxAccessesPerInsnPerThread).takeWhile (· ≠ 0) =
      if (inst.requests t).addr = 0 then [] else [(inst.requests t).addr] := by
    split
    · rename_i haddr
      simp [haddr]
    · rename_i haddr
      exact List.takeWhile_cons_of_pos (decide_eq_true haddr)
  unfold noteLane
  rw [h.1, if_neg (by simp), if_neg hzero, hg.space, require_pass (by simp), hg.oneAddress, hsize,
    htake]
  split <;> rfl

/-- Every lane that asks for bytes asks for some in one chunk, and not at address 0. -/
def Fits (inst : CoalesceInst) (t : Nat) : Prop :=
  (inst.requests t).size ≠ 0 → (inst.requests t).addr ≠ 0 ∧ (inst.requests t).OneChunk

theorem noteLanes_ok (hg : inst.GlobalSpace) {m : Transactions TransactionInfo}
    {held : Nat → Prop} {lanes : List Nat}
    (h : Holding inst.requests (inst.segmentSize cfg) m held)
    (hlanes : ∀ t ∈ lanes, t < maxWarpSize ∧ (inst.Live t → inst.Fits t)) :
    ∃ m', lanes.foldlM (inst.noteLane cfg) m = .ok m' ∧
      Holding inst.requests (inst.segmentSize cfg) m'
        fun t => held t ∨ t ∈ lanes ∧ inst.Live t := by
  induction lanes generalizing m held with
  | nil => exact ⟨m, rfl, by simpa using h⟩
  | cons thread rest ih =>
    obtain ⟨⟨hthread, hfits⟩, hrest⟩ := List.forall_mem_cons.mp hlanes
    rw [List.foldlM_cons]
    by_cases hlive : inst.Live thread
    · obtain ⟨haddr, hone⟩ := hfits hlive hlive.2
      rw [noteLane_live hg m hlive, if_neg haddr]
      obtain ⟨m', hok, hm'⟩ := ih (h.noteAccess (isSegment_segmentSize hg cfg) hthread hone
        (Nat.pos_of_ne_zero hlive.2)) hrest
      refine ⟨m', hok, hm'.congr fun t => ?_⟩
      rw [List.mem_cons]
      constructor
      · rintro ((rfl | ht) | ⟨ht, hl⟩)
        · exact .inr ⟨.inl rfl, hlive⟩
        · exact .inl ht
        · exact .inr ⟨.inr ht, hl⟩
      · rintro (ht | ⟨rfl | ht, hl⟩)
        · exact .inl (.inr ht)
        · exact .inl (.inl rfl)
        · exact .inr ⟨ht, hl⟩
    · rw [noteLane_skip m hlive]
      obtain ⟨m', hok, hm'⟩ := ih h hrest
      refine ⟨m', hok, hm'.congr fun t => ?_⟩
      rw [List.mem_cons]
      refine or_congr_right ⟨fun ht => ⟨.inr ht.1, ht.2⟩, ?_⟩
      rintro ⟨rfl | ht, hl⟩
      · exact absurd hl hlive
      · exact ⟨ht, hl⟩

theorem coalescePart_ok (hg : inst.GlobalSpace) (isWrite : Bool) (accessType : MemAccessType)
    {part : Nat} (hpart : part < cfg.memWarpParts)
    (hfits : ∀ t ∈ subwarp cfg part, inst.activeMask.getLsbD t = true → inst.Fits t) :
    ∃ accesses, inst.coalescePart cfg isWrite accessType part = .ok accesses ∧
      CoversOnce inst.requests (PartLanes cfg inst part) accesses := by
  have hseg := isSegment_segmentSize hg cfg
  obtain ⟨m, hm, hold⟩ := noteLanes_ok hg
    (holding_empty inst.requests (inst.segmentSize cfg)) fun t ht =>
      ⟨(subwarp_lt hpart ht).trans_le cfg.warpSize_le, fun hl => hfits t ht hl.1⟩
  have hold := hold.congr fun t => iff_of_eq (false_or (t ∈ subwarp cfg part ∧ inst.Live t))
  have hlt : ∀ b info, m.lookup b = some info → b < 2 ^ 64 ∧ b % inst.segmentSize cfg = 0 := by
    intro b info hlookup
    obtain ⟨-, t, -, rfl⟩ := hold.held b info hlookup
    exact ⟨LaneBytes.block_lt _ _, LaneBytes.block_mod _ _⟩
  obtain ⟨accesses, hok, hsent⟩ : ∃ accesses,
      m.blocks.mapM (fun entry =>
        reduceAndSend isWrite accessType entry.2 entry.1 (inst.segmentSize cfg)) = .ok accesses ∧
      List.Forall₂ (fun entry a => SentFor inst.requests (inst.segmentSize cfg)
        (fun t => (t ∈ subwarp cfg part ∧ inst.Live t) ∧
          (inst.requests t).block (inst.segmentSize cfg) = entry.1.toNat) entry.1 a)
        m.blocks accesses := by
    apply mapM_ok
    rintro ⟨block, info⟩ hentry
    obtain ⟨b, hlookup, rfl⟩ := Transactions.mem_blocks.mp hentry
    obtain ⟨hb, hmod⟩ := hlt b info hlookup
    have htoNat : (BitVec.ofNat 64 b).toNat = b := by
      rw [BitVec.toNat_ofNat, Nat.mod_eq_of_lt hb]
    obtain ⟨hcollects, t, ht, htb⟩ := hold.held b info hlookup
    dsimp only
    rw [htoNat]
    refine sentFor_of_collects isWrite accessType hseg hcollects (by rw [htoNat]; exact hmod)
      (fun t ht => ?_) ⟨t, ht, htb⟩
    rw [htoNat]
    exact ⟨((hfits t ht.1.1 ht.1.2.1) ht.1.2.2).2, ht.2⟩
  refine ⟨accesses, ?_, ?_⟩
  · unfold coalescePart
    rw [hm]
    exact hok
  have hfrom : ∀ a ∈ accesses, ∃ entry ∈ m.blocks, SentFor inst.requests (inst.segmentSize cfg)
      (fun t => (t ∈ subwarp cfg part ∧ inst.Live t) ∧
        (inst.requests t).block (inst.segmentSize cfg) = entry.1.toNat) entry.1 a :=
    fun a ha => exists_partner hsent.flip ha
  have hpos : ∀ {t x}, (inst.requests t).Touches x → (inst.requests t).size ≠ 0 := by
    intro t x htouch hzero
    unfold LaneBytes.Touches at htouch
    omega
  -- the access of a lane that asks for bytes
  have hto : ∀ t, t ∈ subwarp cfg part → inst.Live t → ∃ a ∈ accesses,
      ∀ x, (inst.requests t).Touches x → a.Masks x := by
    intro t ht hl
    obtain ⟨info, hlookup⟩ : ∃ info,
        m.lookup ((inst.requests t).block (inst.segmentSize cfg)) = some info := by
      cases hlookup : m.lookup ((inst.requests t).block (inst.segmentSize cfg)) with
      | none => exact absurd rfl (hold.absent _ hlookup t ⟨ht, hl⟩)
      | some info => exact ⟨info, rfl⟩
    obtain ⟨a, ha, hsent⟩ := exists_partner hsent
      (Transactions.mem_blocks.mpr ⟨_, hlookup, rfl⟩)
    refine ⟨a, ha, fun x hx => (hsent.touches t ⟨⟨ht, hl⟩, ?_⟩ x hx).2.2⟩
    rw [BitVec.toNat_ofNat, Nat.mod_eq_of_lt (LaneBytes.block_lt _ _)]
  refine ⟨⟨?_, ?_, ?_⟩, ?_, ?_⟩
  · intro a ha
    obtain ⟨entry, -, hsent⟩ := hfrom a ha
    exact hsent.shaped
  · intro x
    constructor
    · rintro ⟨a, ha, hx⟩
      obtain ⟨entry, -, hsent⟩ := hfrom a ha
      obtain ⟨t, ⟨⟨ht, hl⟩, -⟩, htouch⟩ := hsent.masks x hx
      exact ⟨t, ⟨ht, hl.1⟩, htouch⟩
    · rintro ⟨t, ⟨ht, hactive⟩, htouch⟩
      obtain ⟨a, ha, hmasks⟩ := hto t ht ⟨hactive, hpos htouch⟩
      exact ⟨a, ha, hmasks x htouch⟩
  · intro a ha x hx
    obtain ⟨entry, -, hsent⟩ := hfrom a ha
    exact hsent.inside hx
  · intro a ha t
    obtain ⟨entry, -, hsent⟩ := hfrom a ha
    rw [hsent.warpMask]
    constructor
    · rintro ⟨⟨ht, hl⟩, hb⟩
      have htouch : (inst.requests t).Touches (inst.requests t).addr := by
        unfold LaneBytes.Touches
        rw [BitVec.sub_self]
        exact Nat.pos_of_ne_zero hl.2
      exact ⟨⟨ht, hl.1⟩, _, htouch, (hsent.touches t ⟨⟨ht, hl⟩, hb⟩ _ htouch).1⟩
    · rintro ⟨⟨ht, hactive⟩, x, htouch, hcontains⟩
      have hone := (hfits t ht hactive (hpos htouch)).2
      refine ⟨⟨ht, hactive, hpos htouch⟩, ?_⟩
      obtain ⟨hge, hlt⟩ := hone.touches_iff.mp htouch
      obtain ⟨hfrom, hupto⟩ := hcontains
      have haligned := hsent.aligned
      have hlower := hsent.lower
      have hupper := hsent.upper
      unfold LaneBytes.OneChunk at hone
      unfold LaneBytes.block
      rcases hseg with h | h | h <;> rw [h] at haligned hupper ⊢ <;> omega
  · refine pairwise_of_forall₂ hsent
      (Transactions.blocks_pairwise fun b info hlookup => (hlt b info hlookup).1) ?_
    intro e e' a a' hne hsent hsent' x hx
    apply hne
    apply BitVec.eq_of_toNat_eq
    obtain ⟨⟨hfrom, hupto⟩, hfrom', hupto'⟩ := hx
    have haligned := hsent.aligned
    have hlower := hsent.lower
    have hupper := hsent.upper
    have haligned' := hsent'.aligned
    have hlower' := hsent'.lower
    have hupper' := hsent'.upper
    rcases hseg with h | h | h <;> rw [h] at haligned haligned' hupper hupper' <;> omega

/-! ### Atomic operations -/

theorem noteAtomic_skip (m : Transactions (List TransactionInfo)) {t : Nat}
    (h : inst.activeMask.getLsbD t = false) : inst.noteAtomic cfg m t = .ok m := by
  unfold noteAtomic
  rw [h, if_pos (by simp)]

theorem noteAtomic_ok (hg : inst.GlobalSpace) {m : Transactions (List TransactionInfo)} {t : Nat}
    (hactive : inst.activeMask.getLsbD t = true) (hone : (inst.atomicRequests t).OneChunk)
    {infos : List TransactionInfo}
    (hplace : placeAtomic t (inst.atomicRequests t).addr (inst.atomicRequests t).size
      ((m.lookup ((inst.atomicRequests t).block (inst.segmentSize cfg))).getD []) = .ok infos) :
    inst.noteAtomic cfg m t =
      .ok (m.insert ((inst.atomicRequests t).block (inst.segmentSize cfg)) infos) := by
  have hseg := isSegment_segmentSize hg cfg
  have hblock : (lineSizeBasedTagFunc (inst.atomicRequests t).addr
      (inst.segmentSize cfg)).toNat = (inst.atomicRequests t).block (inst.segmentSize cfg) :=
    lineSizeBasedTagFunc_toNat hseg _
  have hsame := hone.last_segment (dataSize_pos hg) hseg
  unfold noteAtomic
  rw [hactive, if_neg (by simp)]
  show (require (decide (lineSizeBasedTagFunc (inst.atomicRequests t).addr (inst.segmentSize cfg) =
    lineSizeBasedTagFunc ((inst.atomicRequests t).addr +
      BitVec.ofNat 64 (inst.atomicRequests t).size - 1) (inst.segmentSize cfg))) _ >>= fun _ =>
    placeAtomic t (inst.atomicRequests t).addr (inst.atomicRequests t).size
      ((m.lookup (lineSizeBasedTagFunc (inst.atomicRequests t).addr
        (inst.segmentSize cfg)).toNat).getD []) >>= fun infos =>
    .ok (m.insert (lineSizeBasedTagFunc (inst.atomicRequests t).addr
      (inst.segmentSize cfg)).toNat infos)) = _
  rw [require_pass (decide_eq_true hsame), hblock]
  show (placeAtomic _ _ _ _ >>= _) = _
  rw [hplace]
  rfl

/-- The loop over lanes that are different from each other and from those before. -/
theorem noteAtomics_ok (hg : inst.GlobalSpace) {m : Transactions (List TransactionInfo)}
    {held : Nat → Prop} {place : Nat → Nat} {lanes : List Nat}
    (h : HoldingAtomic inst.atomicRequests (inst.segmentSize cfg) m held place)
    (hnodup : lanes.Nodup) (hnew : ∀ t ∈ lanes, ¬ held t)
    (hheld : ∀ t, held t → (inst.atomicRequests t).OneChunk)
    (hlanes : ∀ t ∈ lanes, t < maxWarpSize ∧
      (inst.activeMask.getLsbD t = true → (inst.atomicRequests t).OneChunk)) :
    ∃ m' place', lanes.foldlM (inst.noteAtomic cfg) m = .ok m' ∧
      HoldingAtomic inst.atomicRequests (inst.segmentSize cfg) m'
        (fun t => held t ∨ t ∈ lanes ∧ inst.activeMask.getLsbD t = true) place' := by
  induction lanes generalizing m held place with
  | nil => exact ⟨m, place, rfl, by simpa using h⟩
  | cons thread rest ih =>
    obtain ⟨⟨hthread, hone⟩, hrest⟩ := List.forall_mem_cons.mp hlanes
    obtain ⟨hthreadNew, hrestNew⟩ := List.forall_mem_cons.mp hnew
    obtain ⟨hout, hnodup⟩ := List.nodup_cons.mp hnodup
    rw [List.foldlM_cons]
    cases hactive : inst.activeMask.getLsbD thread with
    | true =>
      have hone := hone hactive
      obtain ⟨infos, place', hplace, hm⟩ :=
        h.place hthreadNew hthread hone hheld (dataSize_pos hg)
      rw [noteAtomic_ok hg hactive hone hplace]
      obtain ⟨m', place'', hok, hm'⟩ := ih hm hnodup
        (fun t ht => by
          rintro (rfl | hl)
          · exact hout ht
          · exact hrestNew t ht hl)
        (fun t ht => by
          rcases ht with rfl | ht
          · exact hone
          · exact hheld t ht) hrest
      refine ⟨m', place'', hok, hm'.congr fun t => ?_⟩
      rw [List.mem_cons]
      constructor
      · rintro ((rfl | ht) | ⟨ht, hl⟩)
        · exact .inr ⟨.inl rfl, hactive⟩
        · exact .inl ht
        · exact .inr ⟨.inr ht, hl⟩
      · rintro (ht | ⟨rfl | ht, hl⟩)
        · exact .inl (.inr ht)
        · exact .inl (.inl rfl)
        · exact .inr ⟨ht, hl⟩
    | false =>
      rw [noteAtomic_skip m hactive]
      obtain ⟨m', place', hok, hm'⟩ := ih h hnodup hrestNew hheld hrest
      refine ⟨m', place', hok, hm'.congr fun t => ?_⟩
      rw [List.mem_cons]
      refine or_congr_right ⟨fun ht => ⟨.inr ht.1, ht.2⟩, ?_⟩
      rintro ⟨rfl | ht, hl⟩
      · rw [hactive] at hl
        cases hl
      · exact ⟨ht, hl⟩

theorem coalesceAtomicPart_ok (hg : inst.GlobalSpace) (isWrite : Bool)
    (accessType : MemAccessType) {part : Nat} (hpart : part < cfg.memWarpParts)
    (hone : ∀ t, PartLanes cfg inst part t → (inst.atomicRequests t).OneChunk) :
    ∃ accesses, inst.coalesceAtomicPart cfg isWrite accessType part = .ok accesses ∧
      CoversAtomic inst.atomicRequests (PartLanes cfg inst part) accesses := by
  have hseg := isSegment_segmentSize hg cfg
  obtain ⟨m, place, hm, hold⟩ := noteAtomics_ok hg
    (holdingAtomic_empty inst.atomicRequests (inst.segmentSize cfg) fun _ => 0)
    (subwarp_nodup cfg part) (fun _ _ => id) (fun _ => False.elim)
    fun t ht => ⟨(subwarp_lt hpart ht).trans_le cfg.warpSize_le, fun hl => hone t ⟨ht, hl⟩⟩
  have hold : HoldingAtomic inst.atomicRequests (inst.segmentSize cfg) m
      (PartLanes cfg inst part) place :=
    hold.congr fun t => iff_of_eq (false_or (PartLanes cfg inst part t))
  obtain ⟨accesses, hok, hsent⟩ : ∃ accesses,
      m.blocks.mapM (fun entry => entry.2.mapM fun info =>
        reduceAndSend isWrite accessType info entry.1 (inst.segmentSize cfg)) = .ok accesses ∧
      List.Forall₂ (fun entry sent => SendsBlock inst.atomicRequests (inst.segmentSize cfg)
        (PartLanes cfg inst part) place entry.1 sent) m.blocks accesses := by
    apply mapM_ok
    rintro ⟨block, infos⟩ hentry
    obtain ⟨b, hlookup, rfl⟩ := Transactions.mem_blocks.mp hentry
    exact hold.send isWrite accessType hseg hone hlookup
  have hfrom : ∀ a ∈ accesses.flatten, ∃ (block : NewAddrType) (j : Nat),
      SentFor inst.atomicRequests (inst.segmentSize cfg)
        (fun t => (PartLanes cfg inst part t ∧
          (inst.atomicRequests t).block (inst.segmentSize cfg) = block.toNat) ∧ place t = j)
        block a := by
    intro a ha
    obtain ⟨sent, hmem, ha⟩ := List.mem_flatten.mp ha
    obtain ⟨entry, -, hblock⟩ := exists_partner hsent.flip hmem
    obtain ⟨j, hsent⟩ := hblock.sent a ha
    exact ⟨entry.1, j, hsent⟩
  have hto : ∀ t, PartLanes cfg inst part t → ∃ a ∈ accesses.flatten,
      a.warpMask.getLsbD t = true ∧ ∀ x, (inst.atomicRequests t).Touches x → a.Masks x := by
    intro t ht
    obtain ⟨infos, hlookup⟩ : ∃ infos,
        m.lookup ((inst.atomicRequests t).block (inst.segmentSize cfg)) = some infos := by
      cases hlookup : m.lookup ((inst.atomicRequests t).block (inst.segmentSize cfg)) with
      | none => exact absurd rfl (hold.absent _ hlookup t ht)
      | some infos => exact ⟨infos, rfl⟩
    obtain ⟨sent, hmem, hblock⟩ := exists_partner hsent
      (Transactions.mem_blocks.mpr ⟨_, hlookup, rfl⟩)
    have hb : (inst.atomicRequests t).block (inst.segmentSize cfg) =
        (BitVec.ofNat 64 ((inst.atomicRequests t).block (inst.segmentSize cfg))).toNat := by
      rw [BitVec.toNat_ofNat, Nat.mod_eq_of_lt (LaneBytes.block_lt _ _)]
    obtain ⟨a, ha, hsent⟩ := hblock.placed t ht hb
    refine ⟨a, List.mem_flatten.mpr ⟨sent, hmem, ha⟩, (hsent.warpMask t).mpr ⟨⟨ht, hb⟩, rfl⟩,
      fun x hx => (hsent.touches t ⟨⟨ht, hb⟩, rfl⟩ x hx).2.2⟩
  refine ⟨accesses.flatten, ?_, ⟨?_, ?_, ?_⟩, ?_, hto, ?_, ?_⟩
  · unfold coalesceAtomicPart
    rw [hm]
    exact congrArg (fun r : Except CoalesceFault (List (List MemAccess)) =>
      r >>= fun accesses => .ok accesses.flatten) hok
  · intro a ha
    obtain ⟨block, j, hsent⟩ := hfrom a ha
    exact hsent.shaped
  · intro x
    constructor
    · rintro ⟨a, ha, hx⟩
      obtain ⟨block, j, hsent⟩ := hfrom a ha
      obtain ⟨t, ⟨⟨ht, -⟩, -⟩, htouch⟩ := hsent.masks x hx
      exact ⟨t, ht, htouch⟩
    · rintro ⟨t, ht, htouch⟩
      obtain ⟨a, ha, -, hmasks⟩ := hto t ht
      exact ⟨a, ha, hmasks x htouch⟩
  · intro a ha x hx
    obtain ⟨block, j, hsent⟩ := hfrom a ha
    exact hsent.inside hx
  · intro a ha t ht
    obtain ⟨block, j, hsent⟩ := hfrom a ha
    exact ((hsent.warpMask t).mp ht).1.1
  · apply List.pairwise_flatten.mpr
    refine ⟨fun sent hmem => ?_, ?_⟩
    · obtain ⟨entry, -, hblock⟩ := exists_partner hsent.flip hmem
      exact hblock.once
    · refine pairwise_of_forall₂ hsent (Transactions.blocks_pairwise fun b infos hlookup => ?_) ?_
      · exact hold.lookup_lt hlookup
      intro e e' sent sent' hne hblock hblock' a ha a' ha' t ht
      obtain ⟨j, hsent⟩ := hblock.sent a ha
      obtain ⟨j', hsent'⟩ := hblock'.sent a' ha'
      obtain ⟨⟨-, hb⟩, -⟩ := (hsent.warpMask t).mp ht.1
      obtain ⟨⟨-, hb'⟩, -⟩ := (hsent'.warpMask t).mp ht.2
      exact hne (BitVec.eq_of_toNat_eq (hb.symm.trans hb'))
  · intro a ha t t' ht ht' hne
    obtain ⟨block, j, hsent⟩ := hfrom a ha
    obtain ⟨⟨hl, hb⟩, hj⟩ := (hsent.warpMask t).mp ht
    obtain ⟨⟨hl', hb'⟩, hj'⟩ := (hsent.warpMask t').mp ht'
    exact hold.free t t' hl hl' hne (hj.trans hj'.symm) (hb.trans hb'.symm)

/-! ### The whole calls -/

theorem coalesced_of_fits (hg : inst.GlobalSpace) (hparts : cfg.memWarpParts ≠ 0)
    (hfits : ∀ t < cfg.warpSize, inst.activeMask.getLsbD t = true → inst.Fits t)
    (hreach : ∀ t < cfg.warpSize, (inst.requests t).size ≠ 0 →
      t < cfg.memWarpParts * (cfg.warpSize / cfg.memWarpParts)) : Coalesced cfg inst := by
  intro isWrite accessType
  have hpart : ∀ part, ∃ accesses, part < cfg.memWarpParts →
      inst.coalescePart cfg isWrite accessType part = .ok accesses ∧
        CoversOnce inst.requests (PartLanes cfg inst part) accesses := by
    intro part
    rcases Nat.lt_or_ge part cfg.memWarpParts with hlt | hge
    · obtain ⟨accesses, h⟩ := coalescePart_ok hg isWrite accessType hlt
        fun t ht hactive => hfits t (subwarp_lt hlt ht) hactive
      exact ⟨accesses, fun _ => h⟩
    · exact ⟨[], fun hlt => absurd hlt (Nat.not_lt.mpr hge)⟩
  choose accesses haccesses using hpart
  refine ⟨accesses, ?_, masksAll_of_parts (fun part hlt => (haccesses part hlt).2.toCovers) hreach,
    haccesses⟩
  obtain ⟨ys, hok, hys⟩ := mapM_ok fun part hmem =>
    ⟨_, (haccesses part (List.mem_range.mp hmem)).1, rfl⟩
  unfold memoryCoalescingArch
  rw [require_pass (decide_eq_true hparts)]
  show ((List.range cfg.memWarpParts).mapM (inst.coalescePart cfg isWrite accessType) >>= _) = _
  rw [hok, eq_map_of_forall₂ hys]
  rfl

theorem coalescedAtomic_of_oneChunk (hg : inst.GlobalSpace) (hparts : cfg.memWarpParts ≠ 0)
    (hone : ∀ t < cfg.warpSize, inst.activeMask.getLsbD t = true →
      (inst.atomicRequests t).OneChunk)
    (hreach : ∀ t < cfg.warpSize, t < cfg.memWarpParts * (cfg.warpSize / cfg.memWarpParts)) :
    CoalescedAtomic cfg inst := by
  intro isWrite accessType
  have hpart : ∀ part, ∃ accesses, part < cfg.memWarpParts →
      inst.coalesceAtomicPart cfg isWrite accessType part = .ok accesses ∧
        CoversAtomic inst.atomicRequests (PartLanes cfg inst part) accesses := by
    intro part
    rcases Nat.lt_or_ge part cfg.memWarpParts with hlt | hge
    · obtain ⟨accesses, h⟩ := coalesceAtomicPart_ok hg isWrite accessType hlt
        fun t ht => hone t (subwarp_lt hlt ht.1) ht.2
      exact ⟨accesses, fun _ => h⟩
    · exact ⟨[], fun hlt => absurd hlt (Nat.not_lt.mpr hge)⟩
  choose accesses haccesses using hpart
  refine ⟨accesses, ?_, masksAll_of_parts (fun part hlt => (haccesses part hlt).2.toCovers)
    fun t ht _ => hreach t ht, haccesses⟩
  obtain ⟨ys, hok, hys⟩ := mapM_ok fun part hmem =>
    ⟨_, (haccesses part (List.mem_range.mp hmem)).1, rfl⟩
  unfold memoryCoalescingArchAtomic
  rw [hg.space, require_pass (by rfl), require_pass (decide_eq_true hparts)]
  show ((List.range cfg.memWarpParts).mapM
    (inst.coalesceAtomicPart cfg isWrite accessType) >>= _) = _
  rw [hok, eq_map_of_forall₂ hys]
  rfl

end CoalesceInst

end FlashGpuSim
