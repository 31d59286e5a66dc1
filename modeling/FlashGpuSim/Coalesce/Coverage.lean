import FlashGpuSim.Coalesce.Transactions
import FlashGpuSim.Lib.History

/-!
The accesses of a warp part cover its lanes' bytes when no lane's bytes leave a chunk of 32. The
transactions of a part belong to different segments, and each holds the lanes of its segment.
-/

namespace FlashGpuSim

open Lib

open CoalesceInst (reduceAndSend noteAccess placeAtomic)

/-! ### One transaction -/

/-- The first byte of the segment of a lane's bytes. -/
def LaneBytes.block (r : LaneBytes) (segmentSize : Nat) : Nat :=
  r.addr.toNat / segmentSize * segmentSize

theorem LaneBytes.block_lt (r : LaneBytes) (segmentSize : Nat) : r.block segmentSize < 2 ^ 64 :=
  (Nat.div_mul_le_self _ _).trans_lt r.addr.isLt

theorem LaneBytes.block_mod (r : LaneBytes) (segmentSize : Nat) :
    r.block segmentSize % segmentSize = 0 := Nat.mul_mod_left _ _

/-- The access that is sent for the lanes of a transaction. -/
structure SentFor (requests : Nat → LaneBytes) (segmentSize : Nat) (lanes : Nat → Prop)
    (block : NewAddrType) (a : MemAccess) : Prop where
  shaped : a.Shaped
  aligned : block.toNat % segmentSize = 0
  lower : block.toNat ≤ a.addr.toNat
  upper : a.addr.toNat + a.size ≤ block.toNat + segmentSize
  warpMask : ∀ t, a.warpMask.getLsbD t = true ↔ lanes t
  touches : ∀ t, lanes t → ∀ x, (requests t).Touches x → a.Contains x ∧ a.InSectors x ∧ a.Masks x
  masks : ∀ x, a.Masks x → ∃ t, lanes t ∧ (requests t).Touches x

variable {requests : Nat → LaneBytes} {segmentSize : Nat} {lanes : Nat → Prop}
  {block : NewAddrType} {a : MemAccess}

theorem SentFor.inside (h : SentFor requests segmentSize lanes block a) {x : NewAddrType}
    (hx : a.Masks x) : a.Contains x ∧ a.InSectors x := by
  obtain ⟨t, ht, htouch⟩ := h.masks x hx
  obtain ⟨hcontains, hsector, -⟩ := h.touches t ht x htouch
  exact ⟨hcontains, hsector⟩

/-- Each lane of the access is in its segment. -/
theorem sentFor_of_collects (isWrite : Bool) (accessType : MemAccessType) {info : TransactionInfo}
    (hseg : IsSegment segmentSize) (h : info.Collects requests lanes)
    (haligned : block.toNat % segmentSize = 0)
    (hlanes : ∀ t, lanes t →
      (requests t).OneChunk ∧ (requests t).block segmentSize = block.toNat)
    (hsome : ∃ t, lanes t) :
    ∃ a, reduceAndSend isWrite accessType info block segmentSize = .ok a ∧
      SentFor requests segmentSize lanes block a := by
  have hplace : ∀ t, lanes t → block.toNat / 128 = (requests t).addr.toNat / 128 ∧
      block.toNat % 128 ≤ 32 * ((requests t).addr.toNat % 128 / 32) ∧
      32 * ((requests t).addr.toNat % 128 / 32) + 32 ≤ block.toNat % 128 + segmentSize := by
    intro t ht
    have hblock := (hlanes t ht).2
    unfold LaneBytes.block at hblock
    rcases hseg with rfl | rfl | rfl <;> omega
  have hspans : SpansChunks info.chunks.getLsbD (block.toNat / 128) block segmentSize := by
    refine ⟨hseg, haligned, rfl, fun c hc => ?_⟩
    obtain ⟨t, ht, rfl⟩ := (h.chunks c).mp hc
    exact (hplace t ht).2
  have hchunk : ∃ c, info.chunks.getLsbD c = true :=
    hsome.imp' (fun t => (requests t).addr.toNat % 128 / 32) fun t ht =>
      (h.chunks _).mpr ⟨t, ht, rfl⟩
  obtain ⟨a, hok, hsends⟩ := reduceAndSend_ok isWrite accessType hspans hchunk
  have hline := hsends.spans.line_eq
  refine ⟨a, hok, ⟨hsends.spans.segment, hsends.spans.aligned⟩, haligned, hsends.lower,
    hsends.upper, fun t => ?_, fun t ht x hx => ?_, fun x hx => ?_⟩
  · rw [hsends.warpMask]
    exact h.active t
  · obtain ⟨hone, -⟩ := hlanes t ht
    obtain ⟨hge, hlt⟩ := hone.touches_iff.mp hx
    obtain ⟨hblock, -⟩ := hplace t ht
    have hset := (h.chunks _).mpr ⟨t, ht, rfl⟩
    obtain ⟨hfrom, hto⟩ := hsends.spans.chunk _ hset
    unfold LaneBytes.OneChunk at hone
    have hxline : x.toNat / 128 = (requests t).addr.toNat / 128 := by omega
    have hxchunk : x.toNat % 128 / 32 = (requests t).addr.toNat % 128 / 32 := by omega
    refine ⟨⟨by omega, by omega⟩, ?_, by omega, ?_⟩
    · unfold MemAccess.InSectors
      rw [hsends.sectorMask, hxchunk]
      exact hset
    · rw [hsends.byteMask]
      exact (h.bytes _).mpr ⟨t, ht, by omega, by omega⟩
  · obtain ⟨hxline, hbit⟩ := hx
    rw [hsends.byteMask] at hbit
    obtain ⟨t, ht, hge, hlt⟩ := (h.bytes _).mp hbit
    obtain ⟨hone, -⟩ := hlanes t ht
    obtain ⟨hblock, -⟩ := hplace t ht
    exact ⟨t, ht, hone.touches_iff.mpr ⟨by omega, by omega⟩⟩

/-! ### The transactions of a part -/

namespace Transactions

variable {β : Type} {m : Transactions β}

theorem mem_blocks {info : β} : (block, info) ∈ m.blocks ↔
    ∃ b, m.lookup b = some info ∧ block = BitVec.ofNat 64 b := by
  unfold blocks
  rw [List.mem_filterMap]
  constructor
  · rintro ⟨b, -, hb⟩
    obtain ⟨info', hlookup, heq⟩ := Option.map_eq_some_iff.mp hb
    cases heq
    exact ⟨b, hlookup, rfl⟩
  · rintro ⟨b, hlookup, rfl⟩
    refine ⟨b, ?_, by rw [hlookup]; rfl⟩
    rw [(List.perm_insertionSort _ _).mem_iff]
    exact AList.mem_keys.mp (AList.lookup_isSome.mp (by rw [hlookup]; rfl))

/-- No block has two entries. -/
theorem blocks_pairwise (hlt : ∀ b info, m.lookup b = some info → b < 2 ^ 64) :
    m.blocks.Pairwise fun x y => x.1 ≠ y.1 := by
  unfold blocks
  refine List.Pairwise.filterMap _ ?_ ((List.perm_insertionSort _ _).nodup_iff.mpr
    (AList.keys_nodup m))
  intro b b' hne x hx y hy heq
  obtain ⟨info, hlookup, rfl⟩ := Option.map_eq_some_iff.mp hx
  obtain ⟨info', hlookup', rfl⟩ := Option.map_eq_some_iff.mp hy
  have hb := hlt b info hlookup
  have hb' := hlt b' info' hlookup'
  have heq := congrArg BitVec.toNat heq
  rw [BitVec.toNat_ofNat, BitVec.toNat_ofNat, Nat.mod_eq_of_lt hb, Nat.mod_eq_of_lt hb'] at heq
  exact hne heq

end Transactions

/-- The transactions hold the lanes of their blocks. -/
structure Holding (requests : Nat → LaneBytes) (segmentSize : Nat)
    (m : Transactions TransactionInfo) (lanes : Nat → Prop) : Prop where
  held : ∀ b info, m.lookup b = some info →
    info.Collects requests (fun t => lanes t ∧ (requests t).block segmentSize = b) ∧
      ∃ t, lanes t ∧ (requests t).block segmentSize = b
  absent : ∀ b, m.lookup b = none → ∀ t, lanes t → (requests t).block segmentSize ≠ b

theorem Holding.congr {m : Transactions TransactionInfo} (h : Holding requests segmentSize m lanes)
    {lanes' : Nat → Prop} (hiff : ∀ t, lanes t ↔ lanes' t) :
    Holding requests segmentSize m lanes' := by
  have heq : lanes = lanes' := funext fun t => propext (hiff t)
  exact heq ▸ h

theorem holding_empty (requests : Nat → LaneBytes) (segmentSize : Nat) :
    Holding requests segmentSize ∅ fun _ => False where
  held b _ h := nomatch (Table.lookup_empty b).symm.trans h
  absent _ _ _ ht := ht.elim

/-- The last byte of a chunk's bytes is in the same segment as the first. -/
theorem LaneBytes.OneChunk.last_segment {r : LaneBytes} (h : r.OneChunk) (hpos : 0 < r.size)
    (hseg : IsSegment segmentSize) : lineSizeBasedTagFunc r.addr segmentSize =
      lineSizeBasedTagFunc (r.addr + BitVec.ofNat 64 r.size - 1) segmentSize := by
  have hlast : (r.addr + BitVec.ofNat 64 r.size - 1).toNat = r.addr.toNat + (r.size - 1) := by
    have hlt := r.addr.isLt
    have hone : (1 : BitVec 64).toNat = 1 := rfl
    unfold OneChunk at h
    rw [BitVec.toNat_sub, BitVec.toNat_add, BitVec.toNat_ofNat, hone]
    omega
  apply BitVec.eq_of_toNat_eq
  rw [lineSizeBasedTagFunc_toNat hseg, lineSizeBasedTagFunc_toNat hseg, hlast]
  unfold OneChunk at h
  rcases hseg with rfl | rfl | rfl <;> omega

/-- The lanes of a block when one more lane has come. -/
theorem and_block_iff (thread b : Nat) (t : Nat) :
    ((t = thread ∨ lanes t) ∧ (requests t).block segmentSize = b) ↔
      (t = thread ∧ (requests thread).block segmentSize = b) ∨
        (lanes t ∧ (requests t).block segmentSize = b) := by
  constructor
  · rintro ⟨rfl | ht, hb⟩
    · exact .inl ⟨rfl, hb⟩
    · exact .inr ⟨ht, hb⟩
  · rintro (⟨rfl, hb⟩ | ⟨ht, hb⟩)
    · exact ⟨.inl rfl, hb⟩
    · exact ⟨.inr ht, hb⟩

theorem Holding.noteAccess {m : Transactions TransactionInfo}
    (h : Holding requests segmentSize m lanes) (hseg : IsSegment segmentSize) {thread : Nat}
    (hthread : thread < maxWarpSize) (hone : (requests thread).OneChunk)
    (hpos : 0 < (requests thread).size) :
    Holding requests segmentSize
      (noteAccess segmentSize thread (requests thread).size m (requests thread).addr)
      fun t => t = thread ∨ lanes t := by
  have hblock : (lineSizeBasedTagFunc (requests thread).addr segmentSize).toNat =
      (requests thread).block segmentSize := lineSizeBasedTagFunc_toNat hseg _
  have hnote : CoalesceInst.noteAccess segmentSize thread (requests thread).size m
      (requests thread).addr = m.insert ((requests thread).block segmentSize)
        (((m.lookup ((requests thread).block segmentSize)).getD {}).note thread
          (requests thread).addr (requests thread).size) := by
    unfold CoalesceInst.noteAccess
    rw [if_neg (not_not.mpr (hone.last_segment hpos hseg)), hblock]
  have hcollects : ((m.lookup ((requests thread).block segmentSize)).getD {}).Collects requests
      fun t => lanes t ∧ (requests t).block segmentSize = (requests thread).block segmentSize := by
    cases hlookup : m.lookup ((requests thread).block segmentSize) with
    | none =>
      refine TransactionInfo.collects_empty.congr fun t => iff_of_false id fun ht => ?_
      exact h.absent _ hlookup t ht.1 ht.2
    | some info => exact (h.held _ info hlookup).1
  rw [hnote]
  constructor
  · intro b info hlookup
    rw [Table.lookup_insert] at hlookup
    split at hlookup
    · rename_i hb
      cases hlookup
      refine ⟨(hcollects.note hthread hone).congr fun t => ?_, thread, .inl rfl, hb.symm⟩
      rw [and_block_iff, hb]
      exact or_congr_left (and_iff_left rfl).symm
    · rename_i hb
      obtain ⟨hold, t, ht, htb⟩ := h.held b info hlookup
      refine ⟨hold.congr fun t => ?_, t, .inr ht, htb⟩
      rw [and_block_iff]
      exact (or_iff_right fun ht => hb ht.2.symm).symm
  · intro b hlookup t ht htb
    rw [Table.lookup_insert] at hlookup
    split at hlookup
    · cases hlookup
    · rename_i hb
      rcases ht with rfl | ht
      · exact hb htb.symm
      · exact h.absent b hlookup t ht htb

/-! ### Atomic lanes -/

/-- An atomic lane is noted in one transaction, a new one or one that has none of its bytes. -/
theorem placeAtomic_ok (thread : Nat) {r : LaneBytes} (hpos : 0 < r.size)
    (infos : List TransactionInfo) :
    ∃ infos' j, placeAtomic thread r.addr r.size infos = .ok infos' ∧ j ≤ infos.length ∧
      infos'.length = max infos.length (j + 1) ∧ (∀ i ≠ j, infos'[i]? = infos[i]?) ∧
      infos'[j]? = some (((infos[j]?).getD {}).note thread r.addr r.size) ∧
      ∀ i, r.addr.toNat % 128 ≤ i → i < r.addr.toNat % 128 + r.size →
        ((infos[j]?).getD {}).bytes.getLsbD i = false := by
  induction infos with
  | nil =>
    refine ⟨_, 0, rfl, le_rfl, rfl, fun i hi => ?_, rfl, fun i _ _ => by simp⟩
    obtain ⟨n, rfl⟩ := Nat.exists_eq_succ_of_ne_zero hi
    rfl
  | cons info rest ih =>
    unfold CoalesceInst.placeAtomic
    dsimp only
    cases htest : info.testBytes (r.addr.toNat % 128) (r.addr.toNat % 128 + r.size - 1) with
    | false =>
      have hfree : ∀ i, r.addr.toNat % 128 ≤ i → i < r.addr.toNat % 128 + r.size →
          info.bytes.getLsbD i = false := by
        intro i hge hlt
        unfold TransactionInfo.testBytes at htest
        rw [List.any_eq_false] at htest
        have hi := htest i (List.mem_range'_1.mpr (by omega))
        simpa using hi
      have hall : ((List.range r.size).all fun i =>
          !info.bytes.getLsbD (r.addr.toNat % 128 + i)) = true := by
        rw [List.all_eq_true]
        intro i hi
        rw [hfree _ (by omega) (by have := List.mem_range.mp hi; omega)]
        rfl
      rw [Bool.not_false, if_pos rfl, require_pass hall]
      refine ⟨_, 0, rfl, Nat.zero_le _, by simp, fun i hi => ?_, rfl, hfree⟩
      obtain ⟨n, rfl⟩ := Nat.exists_eq_succ_of_ne_zero hi
      rfl
    | true =>
      obtain ⟨infos', j, hok, hle, hlen, hother, hj, hfree⟩ := ih
      rw [Bool.not_true, if_neg Bool.false_ne_true, hok]
      refine ⟨info :: infos', j + 1, rfl, Nat.succ_le_succ hle, ?_, fun i hi => ?_, hj, hfree⟩
      · rw [List.length_cons, List.length_cons, hlen]
        omega
      · cases i with
        | zero => rfl
        | succ i => exact hother i fun heq => hi (congrArg Nat.succ heq)

/-- The transactions of each block hold its lanes, each in the transaction that `place` says, and
no two lanes of a transaction have a common byte. -/
structure HoldingAtomic (requests : Nat → LaneBytes) (segmentSize : Nat)
    (m : Transactions (List TransactionInfo)) (lanes : Nat → Prop) (place : Nat → Nat) : Prop where
  held : ∀ b infos, m.lookup b = some infos →
    (∀ j info, infos[j]? = some info →
      info.Collects requests
          (fun t => (lanes t ∧ (requests t).block segmentSize = b) ∧ place t = j) ∧
        ∃ t, (lanes t ∧ (requests t).block segmentSize = b) ∧ place t = j) ∧
      ∀ t, lanes t → (requests t).block segmentSize = b → place t < infos.length
  some_lane : ∀ b infos, m.lookup b = some infos →
    ∃ t, lanes t ∧ (requests t).block segmentSize = b
  absent : ∀ b, m.lookup b = none → ∀ t, lanes t → (requests t).block segmentSize ≠ b
  free : ∀ t t', lanes t → lanes t' → t ≠ t' → place t = place t' →
    (requests t).block segmentSize = (requests t').block segmentSize →
      ∀ x, ¬ ((requests t).Touches x ∧ (requests t').Touches x)

theorem HoldingAtomic.congr {m : Transactions (List TransactionInfo)} {place : Nat → Nat}
    (h : HoldingAtomic requests segmentSize m lanes place) {lanes' : Nat → Prop}
    (hiff : ∀ t, lanes t ↔ lanes' t) : HoldingAtomic requests segmentSize m lanes' place := by
  have heq : lanes = lanes' := funext fun t => propext (hiff t)
  exact heq ▸ h

theorem holdingAtomic_empty (requests : Nat → LaneBytes) (segmentSize : Nat) (place : Nat → Nat) :
    HoldingAtomic requests segmentSize ∅ (fun _ => False) place where
  held b _ h := nomatch (Table.lookup_empty b).symm.trans h
  some_lane b _ h := nomatch (Table.lookup_empty b).symm.trans h
  absent _ _ _ ht := ht.elim
  free _ _ ht := ht.elim

/-- The transactions of a block with one more lane. -/
theorem HoldingAtomic.place {m : Transactions (List TransactionInfo)} {place : Nat → Nat}
    (h : HoldingAtomic requests segmentSize m lanes place) {thread : Nat}
    (hnew : ¬ lanes thread) (hthread : thread < maxWarpSize)
    (hone : (requests thread).OneChunk) (hlanes : ∀ t, lanes t → (requests t).OneChunk)
    (hpos : 0 < (requests thread).size) :
    ∃ infos' place', placeAtomic thread (requests thread).addr (requests thread).size
        ((m.lookup ((requests thread).block segmentSize)).getD []) = .ok infos' ∧
      HoldingAtomic requests segmentSize
        (m.insert ((requests thread).block segmentSize) infos')
        (fun t => t = thread ∨ lanes t) place' := by
  generalize hb : (requests thread).block segmentSize = b
  obtain ⟨infos, hinfos⟩ : ∃ infos, (m.lookup b).getD [] = infos := ⟨_, rfl⟩
  have hheld : (∀ j info, infos[j]? = some info → info.Collects requests
      (fun t => (lanes t ∧ (requests t).block segmentSize = b) ∧ place t = j) ∧
        ∃ t, (lanes t ∧ (requests t).block segmentSize = b) ∧ place t = j) ∧
      ∀ t, lanes t → (requests t).block segmentSize = b → place t < infos.length := by
    cases hlookup : m.lookup b with
    | none =>
      rw [hlookup] at hinfos
      subst hinfos
      exact ⟨fun j info hj => (nomatch hj), fun t ht htb => absurd htb (h.absent b hlookup t ht)⟩
    | some infos₀ =>
      rw [hlookup] at hinfos
      subst hinfos
      exact h.held b infos₀ hlookup
  obtain ⟨hcollect, hbound⟩ := hheld
  obtain ⟨infos', j, hok, hle, hlen, hother, hj, hfree⟩ := placeAtomic_ok thread hpos infos
  have hold : ((infos[j]?).getD {}).Collects requests
      fun t => (lanes t ∧ (requests t).block segmentSize = b) ∧ place t = j := by
    cases hget : infos[j]? with
    | none =>
      have hge := List.getElem?_eq_none_iff.mp hget
      refine TransactionInfo.collects_empty.congr fun t => iff_of_false id ?_
      rintro ⟨⟨ht, htb⟩, htj⟩
      have hlt := hbound t ht htb
      omega
    | some info => exact (hcollect j info hget).1
  have hplace : ∀ t, lanes t → Function.update place thread j t = place t := by
    intro t ht
    refine Function.update_of_ne ?_ _ _
    rintro rfl
    exact hnew ht
  refine ⟨infos', Function.update place thread j, by rw [hinfos]; exact hok, ?_, ?_, ?_, ?_⟩
  · intro b' infos₁ hlookup
    rw [Table.lookup_insert] at hlookup
    split at hlookup
    · rename_i hbb
      cases hlookup
      subst hbb
      refine ⟨fun i info hi => ?_, fun t ht htb => ?_⟩
      · rcases eq_or_ne i j with rfl | hne
        · rw [hj] at hi
          cases hi
          refine ⟨(hold.note hthread hone).congr fun t => ?_, thread, ⟨.inl rfl, hb⟩,
            Function.update_self ..⟩
          rw [and_block_iff]
          constructor
          · rintro (rfl | ⟨⟨ht, htb⟩, htj⟩)
            · exact ⟨.inl ⟨rfl, hb⟩, Function.update_self ..⟩
            · exact ⟨.inr ⟨ht, htb⟩, (hplace t ht).trans htj⟩
          · rintro ⟨⟨rfl, -⟩ | ⟨ht, htb⟩, htj⟩
            · exact .inl rfl
            · exact .inr ⟨⟨ht, htb⟩, (hplace t ht).symm.trans htj⟩
        · rw [hother i hne] at hi
          obtain ⟨hinfo, t, ⟨ht, htb⟩, hti⟩ := hcollect i info hi
          refine ⟨hinfo.congr fun t => ?_, t, ⟨.inr ht, htb⟩, (hplace t ht).trans hti⟩
          rw [and_block_iff]
          constructor
          · rintro ⟨⟨ht, htb⟩, hti⟩
            exact ⟨.inr ⟨ht, htb⟩, (hplace t ht).trans hti⟩
          · rintro ⟨⟨rfl, -⟩ | ⟨ht, htb⟩, hti⟩
            · rw [Function.update_self] at hti
              exact absurd hti.symm hne
            · exact ⟨⟨ht, htb⟩, (hplace t ht).symm.trans hti⟩
      · rw [hlen]
        rcases ht with rfl | ht
        · rw [Function.update_self]
          omega
        · rw [hplace t ht]
          have hlt := hbound t ht htb
          omega
    · rename_i hbb
      obtain ⟨hall, hlt⟩ := h.held b' infos₁ hlookup
      have hthread : (requests thread).block segmentSize ≠ b' := fun heq => hbb (heq.symm.trans hb)
      refine ⟨fun i info hi => ?_, fun t ht htb => ?_⟩
      · obtain ⟨hinfo, t, ⟨ht, htb⟩, hti⟩ := hall i info hi
        refine ⟨hinfo.congr fun t => ?_, t, ⟨.inr ht, htb⟩, (hplace t ht).trans hti⟩
        rw [and_block_iff]
        constructor
        · rintro ⟨⟨ht, htb⟩, hti⟩
          exact ⟨.inr ⟨ht, htb⟩, (hplace t ht).trans hti⟩
        · rintro ⟨⟨rfl, htb⟩ | ⟨ht, htb⟩, hti⟩
          · exact absurd htb hthread
          · exact ⟨⟨ht, htb⟩, (hplace t ht).symm.trans hti⟩
      · rcases ht with rfl | ht
        · exact absurd htb hthread
        · rw [hplace t ht]
          exact hlt t ht htb
  · intro b' infos₁ hlookup
    rw [Table.lookup_insert] at hlookup
    split at hlookup
    · rename_i hbb
      exact ⟨thread, .inl rfl, hb.trans hbb.symm⟩
    · obtain ⟨t, ht, htb⟩ := h.some_lane b' infos₁ hlookup
      exact ⟨t, .inr ht, htb⟩
  · intro b' hlookup t ht htb
    rw [Table.lookup_insert] at hlookup
    split at hlookup
    · cases hlookup
    · rename_i hbb
      rcases ht with rfl | ht
      · exact hbb (htb.symm.trans hb)
      · exact h.absent b' hlookup t ht htb
  · -- the bytes of the transaction are those of its lanes, and the new lane has none of them
    have hclear : ∀ t, lanes t → place t = j → (requests t).block segmentSize = b →
        ∀ x, (requests thread).Touches x → ¬ (requests t).Touches x := by
      intro t ht htj htb x hx hx'
      have hbytes := (hold.bytes (x.toNat % 128)).mpr
      have hone' := hlanes t ht
      have hx := hone.touches_iff.mp hx
      have hx' := hone'.touches_iff.mp hx'
      unfold LaneBytes.OneChunk at hone hone'
      have hclear := hfree (x.toNat % 128) (by omega) (by omega)
      rw [hbytes ⟨t, ⟨⟨ht, htb⟩, htj⟩, by omega, by omega⟩] at hclear
      cases hclear
    intro t t' ht ht' hne hplaces hblocks x hx
    rcases ht with rfl | ht
    · rcases ht' with rfl | ht'
      · exact hne rfl
      · rw [Function.update_self, hplace t' ht'] at hplaces
        exact hclear t' ht' hplaces.symm (hblocks.symm.trans hb) x hx.1 hx.2
    · rcases ht' with rfl | ht'
      · rw [Function.update_self, hplace t ht] at hplaces
        exact hclear t ht hplaces (hblocks.trans hb) x hx.2 hx.1
      · rw [hplace t ht, hplace t' ht'] at hplaces
        exact h.free t t' ht ht' hne hplaces hblocks x hx

/-! ### What is sent of atomic transactions -/

/-- The accesses that are sent for the lanes of a block. -/
structure SendsBlock (requests : Nat → LaneBytes) (segmentSize : Nat) (lanes : Nat → Prop)
    (place : Nat → Nat) (block : NewAddrType) (accesses : List MemAccess) : Prop where
  sent : ∀ a ∈ accesses, ∃ j, SentFor requests segmentSize
    (fun t => (lanes t ∧ (requests t).block segmentSize = block.toNat) ∧ place t = j) block a
  placed : ∀ t, lanes t → (requests t).block segmentSize = block.toNat → ∃ a ∈ accesses,
    SentFor requests segmentSize (fun t' =>
      (lanes t' ∧ (requests t').block segmentSize = block.toNat) ∧ place t' = place t) block a
  once : accesses.Pairwise fun a a' =>
    ∀ t, ¬ (a.warpMask.getLsbD t = true ∧ a'.warpMask.getLsbD t = true)

/-- What entries that are apart are sent as is apart. -/
theorem pairwise_of_forall₂ {α β : Type} {rel : α → β → Prop} {r : α → α → Prop}
    {r' : β → β → Prop} {l : List α} {l' : List β} (h : List.Forall₂ rel l l')
    (hpairwise : l.Pairwise r) (himp : ∀ x y a b, r x y → rel x a → rel y b → r' a b) :
    l'.Pairwise r' := by
  induction h with
  | nil => exact .nil
  | @cons x a l l' hxa hrest ih =>
    obtain ⟨hx, hpairwise⟩ := List.pairwise_cons.mp hpairwise
    refine List.pairwise_cons.mpr ⟨fun b hb => ?_, ih hpairwise⟩
    obtain ⟨y, hy, hyb⟩ := exists_partner hrest.flip hb
    exact himp x y a b (hx y hy) hxa hyb

namespace HoldingAtomic

variable {m : Transactions (List TransactionInfo)} {place : Nat → Nat} {b : Nat}
  {infos : List TransactionInfo}

theorem lookup_lt (h : HoldingAtomic requests segmentSize m lanes place)
    (hlookup : m.lookup b = some infos) : b < 2 ^ 64 := by
  obtain ⟨t, -, rfl⟩ := h.some_lane b infos hlookup
  exact LaneBytes.block_lt _ _

/-- No lane is in two transactions of a block. -/
theorem active_pairwise (h : HoldingAtomic requests segmentSize m lanes place)
    (hlookup : m.lookup b = some infos) : infos.Pairwise fun info info' =>
      ∀ t, ¬ (info.active.getLsbD t = true ∧ info'.active.getLsbD t = true) := by
  apply List.pairwise_iff_getElem.mpr
  intro i j hi hj hlt t ht
  obtain ⟨hinfo, -⟩ := (h.held b _ hlookup).1 i _ (List.getElem?_eq_getElem hi)
  obtain ⟨hinfo', -⟩ := (h.held b _ hlookup).1 j _ (List.getElem?_eq_getElem hj)
  obtain ⟨-, hti⟩ := (hinfo.active t).mp ht.1
  obtain ⟨-, htj⟩ := (hinfo'.active t).mp ht.2
  omega

theorem send (h : HoldingAtomic requests segmentSize m lanes place) (isWrite : Bool)
    (accessType : MemAccessType) (hseg : IsSegment segmentSize)
    (hone : ∀ t, lanes t → (requests t).OneChunk) (hlookup : m.lookup b = some infos) :
    ∃ accesses, infos.mapM (fun info => reduceAndSend isWrite accessType info (BitVec.ofNat 64 b)
        segmentSize) = .ok accesses ∧
      SendsBlock requests segmentSize lanes place (BitVec.ofNat 64 b) accesses := by
  obtain ⟨t₀, -, ht₀⟩ := h.some_lane b infos hlookup
  have htoNat : (BitVec.ofNat 64 b).toNat = b := by
    rw [BitVec.toNat_ofNat, Nat.mod_eq_of_lt (h.lookup_lt hlookup)]
  obtain ⟨hcollect, hbound⟩ := h.held b infos hlookup
  obtain ⟨accesses, hok, hsent⟩ : ∃ accesses,
      infos.mapM (fun info => reduceAndSend isWrite accessType info (BitVec.ofNat 64 b)
        segmentSize) = .ok accesses ∧
      List.Forall₂ (fun info a => ∃ j, infos[j]? = some info ∧ SentFor requests segmentSize
        (fun t => (lanes t ∧ (requests t).block segmentSize = b) ∧ place t = j)
        (BitVec.ofNat 64 b) a) infos accesses := by
    apply mapM_ok
    intro info hinfo
    obtain ⟨j, hj⟩ := List.mem_iff_getElem?.mp hinfo
    obtain ⟨hcollects, hsome⟩ := hcollect j info hj
    obtain ⟨a, hok, hsent⟩ := sentFor_of_collects isWrite accessType hseg hcollects
      (by rw [htoNat, ← ht₀]; exact LaneBytes.block_mod _ _)
      (fun t ht => ⟨hone t ht.1.1, by rw [htoNat]; exact ht.1.2⟩) hsome
    exact ⟨a, hok, j, hj, hsent⟩
  refine ⟨accesses, hok, fun a ha => ?_, fun t ht hb => ?_, ?_⟩
  · obtain ⟨info, -, j, -, hsent⟩ := exists_partner hsent.flip ha
    rw [htoNat]
    exact ⟨j, hsent⟩
  · rw [htoNat] at hb ⊢
    have hlt := hbound t ht hb
    obtain ⟨a, ha, j, hj, hsent⟩ := exists_partner hsent (List.getElem_mem hlt)
    -- the transaction holds the lane, so its place is where it is found
    have hactive := ((hcollect _ _ (List.getElem?_eq_getElem hlt)).1.active t).mpr
      ⟨⟨ht, hb⟩, rfl⟩
    obtain ⟨-, rfl⟩ := ((hcollect j _ hj).1.active t).mp hactive
    exact ⟨a, ha, hsent⟩
  · refine pairwise_of_forall₂ hsent (h.active_pairwise hlookup) ?_
    intro info info' a a' hapart hsent hsent' t ht
    obtain ⟨j, hj, hsent⟩ := hsent
    obtain ⟨j', hj', hsent'⟩ := hsent'
    exact hapart t ⟨((hcollect j _ hj).1.active t).mpr ((hsent.warpMask t).mp ht.1),
      ((hcollect j' _ hj').1.active t).mpr ((hsent'.warpMask t).mp ht.2)⟩

end HoldingAtomic

end FlashGpuSim
