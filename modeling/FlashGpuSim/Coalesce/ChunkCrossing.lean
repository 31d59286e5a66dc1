import FlashGpuSim.Coalesce.CoalescedBytes

/-!
When the coalescing keeps its promise under every active mask: exactly when each lane that asks
for bytes is in a warp part, asks at another address than 0, and for bytes of one chunk of 32. A
lane that is active alone shows it. Its bytes behind a boundary are masked with only the chunk of
the first one set, and in the segment of the last byte the mask starts at that byte.
-/

namespace FlashGpuSim

open Lib

/-! ### The masks of what is sent -/

/-- The access has the masks of the transaction and is in its line. -/
structure SentOf (info : TransactionInfo) (block : NewAddrType) (a : MemAccess) : Prop where
  byteMask : a.byteMask = info.bytes
  sectorMask : a.sectorMask = info.chunks
  line : a.addr.toNat / 128 = block.toNat / 128

theorem aligned_of_and_lowMask {segmentSize : Nat} (hseg : IsSegment segmentSize)
    {addr : NewAddrType} (h : addr &&& (BitVec.ofNat 64 segmentSize - 1) = 0) :
    addr.toNat % segmentSize = 0 := by
  have hpow : ∀ {k}, k < 64 → segmentSize = 2 ^ k → addr.toNat % segmentSize = 0 := by
    rintro k hk rfl
    have h := congrArg BitVec.toNat h
    rw [BitVec.toNat_and, toNat_lowMask hk, Nat.and_two_pow_sub_one_eq_mod] at h
    exact h
  rcases hseg with h | h | h
  · exact hpow (k := 5) (by decide) h
  · exact hpow (k := 6) (by decide) h
  · exact hpow (k := 7) (by decide) h

open CoalesceInst (reduceSegment reduceHalf reduceAndSend)

theorem reduceHalf_line {addr A : NewAddrType} {size S : Nat} {h0 h1 : Bool}
    (h : reduceHalf addr size h0 h1 = .ok (A, S)) (haligned : size = 64 → addr.toNat % 64 = 0) :
    A.toNat / 128 = addr.toNat / 128 := by
  unfold reduceHalf at h
  split at h
  · rename_i hsize
    have haligned := haligned hsize
    have hadd : (addr + 32).toNat = addr.toNat + 32 := toNat_add_of_aligned haligned (by decide)
    split at h
    · cases h
      rfl
    · split at h
      · cases h
        omega
      · obtain ⟨-, -, h⟩ := bind_eq_ok h
        cases h
        rfl
  · cases h
    rfl

theorem reduceSegment_line {q : Nat → Bool} {addr A : NewAddrType} {segmentSize S : Nat}
    {h0 h1 : Bool} (h : reduceSegment q addr segmentSize = .ok (A, S, h0, h1))
    (haligned : addr.toNat % segmentSize = 0) :
    A.toNat / 128 = addr.toNat / 128 ∧ (S = 64 → A.toNat % 64 = 0) := by
  unfold reduceSegment at h
  split at h
  · rename_i hsize
    subst hsize
    have hadd : (addr + 64).toNat = addr.toNat + 64 := by
      have hlt := addr.isLt
      have h64 : (64 : BitVec 64).toNat = 64 := rfl
      rw [BitVec.toNat_add, h64]
      omega
    dsimp only at h
    split at h
    · cases h
      exact ⟨rfl, fun _ => by omega⟩
    · split at h
      · cases h
        exact ⟨by omega, fun _ => by omega⟩
      · obtain ⟨-, -, h⟩ := bind_eq_ok h
        cases h
        exact ⟨rfl, fun hS => absurd hS (by decide)⟩
  · split at h
    · rename_i hsize
      subst hsize
      split at h
      · cases h
        exact ⟨rfl, fun _ => haligned⟩
      · obtain ⟨-, -, h⟩ := bind_eq_ok h
        cases h
        exact ⟨rfl, fun _ => haligned⟩
    · rename_i hne
      cases h
      exact ⟨rfl, fun hS => absurd hS hne⟩

theorem sentOf_of_reduceAndSend {isWrite : Bool} {accessType : MemAccessType}
    {info : TransactionInfo} {block : NewAddrType} {segmentSize : Nat} {a : MemAccess}
    (hseg : IsSegment segmentSize)
    (h : reduceAndSend isWrite accessType info block segmentSize = .ok a) :
    SentOf info block a := by
  unfold reduceAndSend at h
  obtain ⟨_, hzero, h⟩ := bind_eq_ok h
  obtain ⟨-, -, h⟩ := bind_eq_ok h
  obtain ⟨⟨A, S, h0, h1⟩, hsegment, h⟩ := bind_eq_ok h
  obtain ⟨⟨B, T⟩, hhalf, h⟩ := bind_eq_ok h
  cases h
  obtain ⟨hline, haligned⟩ :=
    reduceSegment_line hsegment (aligned_of_and_lowMask hseg (require_ok hzero))
  exact ⟨rfl, rfl, (reduceHalf_line hhalf haligned).trans hline⟩

/-! ### A lane alone -/

namespace TransactionInfo

variable {thread : Nat} {addr : NewAddrType} {size : Nat}

theorem chunks_note_empty {c : Nat}
    (h : (({} : TransactionInfo).note thread addr size).chunks.getLsbD c = true) :
    c = addr.toNat % 128 / 32 := by
  have h : ((0 : MemAccessSectorMask) ||| BitVec.twoPow sectorChunckSize
      (addr.toNat % 128 / 32)).getLsbD c = true := h
  rw [BitVec.getLsbD_or, BitVec.getLsbD_twoPow] at h
  simp only [BitVec.ofNat_eq_ofNat, BitVec.getLsbD_zero, Bool.false_or, Bool.and_eq_true,
    decide_eq_true_eq] at h
  exact h.2.symm

theorem bytes_note_empty {i : Nat} (hi : i < 128) :
    (({} : TransactionInfo).note thread addr size).bytes.getLsbD i = true ↔
      ∃ k < size, (addr.toNat % 128 + k) % 2 ^ 32 = i := by
  exact (getLsbD_setBytes 0 (addr.toNat % 128) size i hi).trans (or_iff_right (by simp))

end TransactionInfo

theorem exists_addr {n : Nat} (h : n < 2 ^ 64) : ∃ x : NewAddrType, x.toNat = n :=
  ⟨BitVec.ofNat 64 n, by rw [BitVec.toNat_ofNat, Nat.mod_eq_of_lt h]⟩

section alone

variable {requests : Nat → LaneBytes} {thread : Nat} {accesses : List MemAccess}
  {block : NewAddrType} {a : MemAccess}

/-- The bytes behind a boundary in the line would be masked without their chunk. -/
theorem oneChunk_of_covers_within
    (h : CoalesceInst.Covers requests (· = thread) accesses) (ha : a ∈ accesses)
    (hsent : SentOf (({} : TransactionInfo).note thread (requests thread).addr
      (requests thread).size) block a)
    (hblock : block.toNat / 128 = (requests thread).addr.toNat / 128)
    (hidx : (requests thread).addr.toNat % 128 < 96) : (requests thread).OneChunk := by
  generalize requests thread = r at *
  by_contra hcross
  unfold LaneBytes.OneChunk at hcross
  have haddr := r.addr.isLt
  -- the first byte of the next chunk
  obtain ⟨x, hx⟩ := exists_addr
    (show r.addr.toNat / 128 * 128 + (r.addr.toNat % 128 / 32 + 1) * 32 < 2 ^ 64 by omega)
  have hmasks : a.Masks x := by
    refine ⟨by rw [hsent.line]; omega, ?_⟩
    rw [hsent.byteMask, TransactionInfo.bytes_note_empty (Nat.mod_lt _ (by decide))]
    refine ⟨32 - r.addr.toNat % 32, by omega, ?_⟩
    rw [Nat.mod_eq_of_lt (by omega)]
    omega
  have hsector := (h.inside a ha x hmasks).2
  unfold MemAccess.InSectors at hsector
  rw [hsent.sectorMask] at hsector
  have hchunk := TransactionInfo.chunks_note_empty hsector
  omega

/-- The last byte of a request. -/
def LaneBytes.last (r : LaneBytes) : NewAddrType := r.addr + BitVec.ofNat 64 r.size - 1

theorem LaneBytes.last_toNat (r : LaneBytes) (hpos : 0 < r.size) (hsize : r.size < 2 ^ 32) :
    r.last.toNat = (r.addr.toNat + (r.size - 1)) % 2 ^ 64 := by
  have hone : (1 : BitVec 64).toNat = 1 := rfl
  unfold last
  rw [BitVec.toNat_sub, BitVec.toNat_add, BitVec.toNat_ofNat, hone]
  omega

/-- Bytes that cross a boundary of the line end in another line. -/
theorem LaneBytes.last_line (r : LaneBytes) (hsize : r.size < 2 ^ 32)
    (hcross : ¬ r.OneChunk) (hidx : 96 ≤ r.addr.toNat % 128) :
    r.last.toNat / 128 ≠ r.addr.toNat / 128 := by
  unfold OneChunk at hcross
  rw [last_toNat r (by omega) hsize]
  have haddr := r.addr.isLt
  omega

/-- The accesses of a lane whose bytes are in two lines mask another byte next to the last one,
or not the byte before it. -/
theorem not_covers_across
    (h : CoalesceInst.Covers requests (· = thread) accesses)
    (hsize : (requests thread).size < 2 ^ 32) (hcross : ¬ (requests thread).OneChunk)
    (hidx : 96 ≤ (requests thread).addr.toNat % 128) {lastBlock : NewAddrType}
    (hblock : block.toNat / 128 = (requests thread).addr.toNat / 128)
    (hlastBlock : lastBlock.toNat / 128 = (requests thread).last.toNat / 128)
    (hlast : ∃ a ∈ accesses, SentOf (({} : TransactionInfo).note thread (requests thread).last
      (requests thread).size) lastBlock a)
    (hfrom : ∀ a ∈ accesses,
      SentOf (({} : TransactionInfo).note thread (requests thread).addr
        (requests thread).size) block a ∨
      SentOf (({} : TransactionInfo).note thread (requests thread).last
        (requests thread).size) lastBlock a) : False := by
  have hbytes : ∀ x, (∃ a ∈ accesses, a.Masks x) ↔ (requests thread).Touches x := by
    intro x
    rw [h.bytes]
    exact ⟨fun ⟨t, ht, hx⟩ => ht ▸ hx, fun hx => ⟨thread, rfl, hx⟩⟩
  clear h
  generalize requests thread = r at *
  have hlines := r.last_line hsize hcross hidx
  unfold LaneBytes.OneChunk at hcross
  have hlt := r.last_toNat (by omega) hsize
  have haddr := r.addr.isLt
  rcases Nat.lt_or_ge (r.last.toNat % 128) 127 with hin | hend
  · -- the byte behind the last one
    obtain ⟨x, hx⟩ := exists_addr (show r.last.toNat + 1 < 2 ^ 64 by omega)
    obtain ⟨a, ha, hsent⟩ := hlast
    have htouch := (hbytes x).mp ⟨a, ha, by rw [hsent.line]; omega, by
      rw [hsent.byteMask, TransactionInfo.bytes_note_empty (Nat.mod_lt _ (by decide))]
      refine ⟨1, by omega, ?_⟩
      rw [Nat.mod_eq_of_lt (by omega)]
      omega⟩
    unfold LaneBytes.Touches at htouch
    rw [BitVec.toNat_sub] at htouch
    omega
  · -- the byte before the last one
    obtain ⟨x, hx⟩ := exists_addr (show r.last.toNat - 1 < 2 ^ 64 by omega)
    have htouch : r.Touches x := by
      unfold LaneBytes.Touches
      rw [BitVec.toNat_sub]
      omega
    obtain ⟨a, ha, hline, hbit⟩ := (hbytes x).mpr htouch
    rcases hfrom a ha with hsent | hsent
    · rw [hsent.line] at hline
      omega
    · rw [hsent.byteMask, TransactionInfo.bytes_note_empty (Nat.mod_lt _ (by decide))] at hbit
      obtain ⟨k, hk, hmod⟩ := hbit
      omega

end alone

namespace CoalesceInst

variable {cfg : CoalesceConfig} {inst : CoalesceInst} {t : Nat}

/-- The instruction under another active mask. -/
def withMask (inst : CoalesceInst) (mask : ActiveMask) : CoalesceInst :=
  { inst with activeMask := mask }

/-- The instruction of one lane. -/
def alone (inst : CoalesceInst) (t : Nat) : CoalesceInst :=
  inst.withMask (BitVec.twoPow maxWarpSize t)

theorem GlobalSpace.withMask (hg : inst.GlobalSpace) (mask : ActiveMask) :
    (inst.withMask mask).GlobalSpace := ⟨hg.space, hg.dataSize, hg.oneAddress⟩

theorem alone_active (ht : t < cfg.warpSize) {t' : Nat} :
    (inst.alone t).activeMask.getLsbD t' = true ↔ t' = t := by
  have hlt := ht.trans_le cfg.warpSize_le
  show (BitVec.twoPow maxWarpSize t).getLsbD t' = true ↔ _
  rw [BitVec.getLsbD_twoPow, Bool.and_eq_true, decide_eq_true_eq, decide_eq_true_eq]
  exact ⟨fun h => h.2.symm, fun h => ⟨hlt, h.symm⟩⟩

theorem requests_size_lt (hg : inst.GlobalSpace) (t : Nat) : (inst.requests t).size < 2 ^ 32 := by
  show inst.dataSizeCoales t < 2 ^ 32
  unfold dataSizeCoales
  cases (inst.lanes t).memoryAccessSize with
  | some size => exact size.isLt
  | none =>
    show inst.dataSize < 2 ^ 32
    rcases hg.dataSize with h | h | h | h | h <;> rw [h] <;> decide

/-- A lane that is active alone has its bytes masked in a part of its own. -/
theorem MasksAll.exists_part {requests : Nat → LaneBytes} {accesses : Nat → List MemAccess}
    (h : MasksAll cfg (inst.alone t) requests ((List.range cfg.memWarpParts).flatMap accesses))
    (hparts : ∀ part < cfg.memWarpParts,
      Covers requests (PartLanes cfg (inst.alone t) part) (accesses part))
    (ht : t < cfg.warpSize) (hsize : (requests t).size ≠ 0) :
    ∃ part < cfg.memWarpParts, t ∈ subwarp cfg part ∧
      Covers requests (· = t) (accesses part) := by
  have htouch : (requests t).Touches (requests t).addr := by
    unfold LaneBytes.Touches
    rw [BitVec.sub_self]
    exact Nat.pos_of_ne_zero hsize
  obtain ⟨a, ha, hx⟩ := (h _).mpr ⟨t, ht, (alone_active ht).mpr rfl, htouch⟩
  obtain ⟨part, hpart, ha⟩ := List.mem_flatMap.mp ha
  have hpart := List.mem_range.mp hpart
  have hcovers := hparts part hpart
  obtain ⟨t', ⟨hmem, hactive⟩, -⟩ := (hcovers.bytes _).mp ⟨a, ha, hx⟩
  obtain rfl := (alone_active ht).mp hactive
  have hlanes : PartLanes cfg (inst.alone t') part = (· = t') := by
    funext t
    exact propext ⟨fun hl => (alone_active ht).mp hl.2, fun heq => by rw [heq]; exact ⟨hmem, hactive⟩⟩
  exact ⟨part, hpart, hmem, hlanes ▸ hcovers⟩

/-! ### Loads and stores -/

/-- The transactions of one lane. -/
theorem noteAccess_alone (segmentSize : Nat) (r : LaneBytes) {m : Transactions TransactionInfo}
    (hm : noteAccess segmentSize t r.size ∅ r.addr = m) :
    m.lookup (lineSizeBasedTagFunc r.addr segmentSize).toNat =
        some (({} : TransactionInfo).note t r.addr r.size) ∧
      (lineSizeBasedTagFunc r.addr segmentSize ≠ lineSizeBasedTagFunc r.last segmentSize →
        m.lookup (lineSizeBasedTagFunc r.last segmentSize).toNat =
          some (({} : TransactionInfo).note t r.last r.size)) ∧
      ∀ b info, m.lookup b = some info →
        b = (lineSizeBasedTagFunc r.addr segmentSize).toNat ∧
            info = ({} : TransactionInfo).note t r.addr r.size ∨
          b = (lineSizeBasedTagFunc r.last segmentSize).toNat ∧
            info = ({} : TransactionInfo).note t r.last r.size := by
  unfold noteAccess at hm
  dsimp only at hm
  rw [show r.addr + BitVec.ofNat 64 r.size - 1 = r.last from rfl] at hm
  generalize lineSizeBasedTagFunc r.addr segmentSize = block at *
  generalize lineSizeBasedTagFunc r.last segmentSize = lastBlock at *
  rw [Table.lookup_empty, Option.getD_none] at hm
  split at hm
  · rename_i hne
    have hneNat : lastBlock.toNat ≠ block.toNat := fun h => hne (BitVec.eq_of_toNat_eq h).symm
    rw [Table.lookup_insert, if_neg hneNat, Table.lookup_empty, Option.getD_none] at hm
    subst hm
    refine ⟨?_, fun _ => ?_, fun b info h => ?_⟩
    · rw [Table.lookup_insert, if_neg (Ne.symm hneNat), Table.lookup_insert, if_pos rfl]
    · rw [Table.lookup_insert, if_pos rfl]
    · rw [Table.lookup_insert, Table.lookup_insert] at h
      split at h
      · rename_i hb
        exact .inr ⟨hb, (Option.some.inj h).symm⟩
      · split at h
        · rename_i hb
          exact .inl ⟨hb, (Option.some.inj h).symm⟩
        · cases h
  · rename_i hne
    subst hm
    refine ⟨by rw [Table.lookup_insert, if_pos rfl], fun h => absurd h hne, fun b info h => ?_⟩
    rw [Table.lookup_insert] at h
    split at h
    · rename_i hb
      exact .inl ⟨hb, (Option.some.inj h).symm⟩
    · cases h

/-- Each transaction is sent as an access, and nothing else is. -/
theorem sentOf_of_mapM {isWrite : Bool} {accessType : MemAccessType} {segmentSize : Nat}
    (hseg : IsSegment segmentSize) {m : Transactions TransactionInfo} {accesses : List MemAccess}
    (h : m.blocks.mapM (fun (block, info) =>
      reduceAndSend isWrite accessType info block segmentSize) = .ok accesses) :
    (∀ b info, m.lookup b = some info → ∃ a ∈ accesses, SentOf info (BitVec.ofNat 64 b) a) ∧
      ∀ a ∈ accesses, ∃ b info, m.lookup b = some info ∧ SentOf info (BitVec.ofNat 64 b) a := by
  have hsent := forall₂_of_mapM h
  constructor
  · intro b info hlookup
    obtain ⟨a, ha, hok⟩ := exists_partner hsent (Transactions.mem_blocks.mpr ⟨b, hlookup, rfl⟩)
    exact ⟨a, ha, sentOf_of_reduceAndSend hseg hok⟩
  · intro a ha
    obtain ⟨⟨block, info⟩, hmem, hok⟩ := exists_partner hsent.flip ha
    obtain ⟨b, hlookup, rfl⟩ := Transactions.mem_blocks.mp hmem
    exact ⟨b, info, hlookup, sentOf_of_reduceAndSend hseg hok⟩

/-- The segment of an address is in its line. -/
theorem block_line {segmentSize : Nat} (hseg : IsSegment segmentSize) (addr : NewAddrType) :
    (BitVec.ofNat 64 (lineSizeBasedTagFunc addr segmentSize).toNat).toNat / 128 =
      addr.toNat / 128 := by
  rw [BitVec.ofNat_toNat, BitVec.setWidth_eq, lineSizeBasedTagFunc_toNat hseg]
  rcases hseg with rfl | rfl | rfl <;> omega

/-- What the coalescing of a lane alone shows of it. -/
theorem fits_of_alone (hg : inst.GlobalSpace) (h : Coalesced cfg (inst.alone t))
    (ht : t < cfg.warpSize) (hsize : (inst.requests t).size ≠ 0) :
    t < cfg.memWarpParts * (cfg.warpSize / cfg.memWarpParts) ∧ (inst.requests t).addr ≠ 0 ∧
      (inst.requests t).OneChunk := by
  have hseg := isSegment_segmentSize hg cfg
  obtain ⟨accesses, -, hmasks, hparts⟩ := h false .globalAccR
  obtain ⟨part, hpart, hmem, hcovers⟩ :=
    hmasks.exists_part (fun part hlt => (hparts part hlt).2.toCovers) ht hsize
  obtain ⟨m, hm, hok⟩ := bind_eq_ok (hparts part hpart).1
  have hlive : (inst.alone t).Live t := ⟨(alone_active ht).mpr rfl, hsize⟩
  have hg' : (inst.alone t).GlobalSpace := hg.withMask _
  rw [foldlM_only (subwarp_nodup cfg part) hmem (fun m t' _ hne =>
      noteLane_skip m fun hlive => hne ((alone_active ht).mp hlive.1)),
    noteLane_live hg' ∅ hlive] at hm
  have hm := Except.ok.inj hm
  obtain ⟨hto, hfrom⟩ := sentOf_of_mapM (m := m) hseg hok
  refine ⟨exists_subwarp.mp ⟨part, hpart, hmem⟩, ?_⟩
  split at hm
  · subst hm
    -- nothing is sent
    have htouch : (inst.requests t).Touches (inst.requests t).addr := by
      unfold LaneBytes.Touches
      rw [BitVec.sub_self]
      exact Nat.pos_of_ne_zero hsize
    obtain ⟨a, ha, -⟩ := (hcovers.bytes _).mpr ⟨t, rfl, htouch⟩
    obtain ⟨b, info, hlookup, -⟩ := hfrom a ha
    exact absurd ((Table.lookup_empty b).symm.trans hlookup) nofun
  · rename_i haddr
    refine ⟨haddr, ?_⟩
    obtain ⟨hfirst, hlast, honly⟩ := noteAccess_alone _ (inst.requests t) hm
    obtain ⟨a, ha, hsent⟩ := hto _ _ hfirst
    rcases Nat.lt_or_ge ((inst.requests t).addr.toNat % 128) 96 with hidx | hidx
    · exact oneChunk_of_covers_within hcovers ha hsent (block_line hseg _) hidx
    · by_contra hcross
      have hlines := (inst.requests t).last_line (requests_size_lt hg t) hcross hidx
      have hne : lineSizeBasedTagFunc (inst.requests t).addr (inst.segmentSize cfg) ≠
          lineSizeBasedTagFunc (inst.requests t).last (inst.segmentSize cfg) := by
        intro heq
        have hline := block_line hseg (inst.requests t).addr
        rw [heq, block_line hseg] at hline
        exact hlines hline
      refine not_covers_across hcovers (requests_size_lt hg t) hcross hidx (block_line hseg _)
        (block_line hseg _) (hto _ _ (hlast hne)) fun a ha => ?_
      obtain ⟨b, info, hlookup, hsent⟩ := hfrom a ha
      rcases honly b info hlookup with ⟨rfl, rfl⟩ | ⟨rfl, rfl⟩
      · exact .inl hsent
      · exact .inr hsent

/-! ### Atomic operations -/

/-- The transactions of one lane. -/
theorem noteAtomic_alone (hactive : inst.activeMask.getLsbD t = true)
    {m : Transactions (List TransactionInfo)} (h : inst.noteAtomic cfg ∅ t = .ok m) :
    lineSizeBasedTagFunc (inst.atomicRequests t).addr (inst.segmentSize cfg) =
        lineSizeBasedTagFunc (inst.atomicRequests t).last (inst.segmentSize cfg) ∧
      m = (∅ : Transactions (List TransactionInfo)).insert
        (lineSizeBasedTagFunc (inst.atomicRequests t).addr (inst.segmentSize cfg)).toNat
        [({} : TransactionInfo).note t (inst.atomicRequests t).addr
          (inst.atomicRequests t).size] := by
  unfold noteAtomic at h
  rw [hactive, if_neg (by simp)] at h
  obtain ⟨_, hsame, h⟩ := bind_eq_ok h
  obtain ⟨infos, hplace, h⟩ := bind_eq_ok h
  cases hplace
  cases h
  exact ⟨require_ok hsame, rfl⟩

/-- What the coalescing of an atomic lane alone shows of it. -/
theorem oneChunk_of_alone (hg : inst.GlobalSpace) (h : CoalescedAtomic cfg (inst.alone t))
    (ht : t < cfg.warpSize) : t < cfg.memWarpParts * (cfg.warpSize / cfg.memWarpParts) ∧
      (inst.atomicRequests t).OneChunk := by
  have hseg := isSegment_segmentSize hg cfg
  have hactive : (inst.alone t).activeMask.getLsbD t = true := (alone_active ht).mpr rfl
  obtain ⟨accesses, -, hmasks, hparts⟩ := h false .globalAccR
  obtain ⟨part, hpart, hmem, hcovers⟩ := hmasks.exists_part
    (fun part hlt => (hparts part hlt).2.toCovers) ht (dataSize_pos hg).ne'
  refine ⟨exists_subwarp.mp ⟨part, hpart, hmem⟩, ?_⟩
  obtain ⟨m, hm, hok⟩ := bind_eq_ok (hparts part hpart).1
  obtain ⟨sent, hsent, hflatten⟩ := bind_eq_ok hok
  rw [foldlM_only (subwarp_nodup cfg part) hmem fun m t' _ hne =>
    noteAtomic_skip m (Bool.eq_false_iff.mpr fun hl => hne ((alone_active ht).mp hl))] at hm
  obtain ⟨hsame, rfl⟩ := noteAtomic_alone hactive hm
  rcases Nat.lt_or_ge ((inst.atomicRequests t).addr.toNat % 128) 96 with hidx | hidx
  · obtain ⟨accs, haccs, hinfos⟩ := exists_partner (forall₂_of_mapM hsent)
      (Transactions.mem_blocks.mpr ⟨_, (Table.lookup_insert _ _ _ _).trans (if_pos rfl), rfl⟩)
    obtain ⟨a, ha, hinfo⟩ := exists_partner (forall₂_of_mapM hinfos) List.mem_cons_self
    have hmem : a ∈ accesses part := by
      rw [← Except.ok.inj hflatten]
      exact List.mem_flatten.mpr ⟨accs, haccs, ha⟩
    exact oneChunk_of_covers_within hcovers hmem (sentOf_of_reduceAndSend hseg hinfo)
      (block_line hseg _) hidx
  · by_contra hcross
    have hsize : (inst.atomicRequests t).size < 2 ^ 32 := by
      show inst.dataSize < 2 ^ 32
      rcases hg.dataSize with h | h | h | h | h <;> rw [h] <;> decide
    have hsame : lineSizeBasedTagFunc (inst.atomicRequests t).addr (inst.segmentSize cfg) =
        lineSizeBasedTagFunc (inst.atomicRequests t).last (inst.segmentSize cfg) := hsame
    have hline := block_line hseg (inst.atomicRequests t).addr
    rw [hsame, block_line hseg] at hline
    exact (inst.atomicRequests t).last_line hsize hcross hidx hline

/-! ### Every active mask -/

/-- A word for each lane of a warp in one part, from an address on. -/
def words (addr : NewAddrType) : CoalesceInst where
  dataSize := 4
  localSpace := false
  cacheGlobal := false
  activeMask := 0
  lanes t := ⟨[addr + BitVec.ofNat 64 (4 * t)], none⟩

def sectorConfig : CoalesceConfig := ⟨32, 1, 70, false, by decide⟩

theorem words_globalSpace (addr : NewAddrType) : (words addr).GlobalSpace :=
  ⟨rfl, .inr (.inr (.inl rfl)), fun _ => rfl⟩

end CoalesceInst

end FlashGpuSim
