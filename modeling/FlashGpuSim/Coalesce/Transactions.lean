import FlashGpuSim.Coalesce.Coalescer

/-!
What a transaction collects and what is sent of it. As long as no lane's bytes leave a chunk of
32 bytes, the access that is sent holds the chunks of all its lanes and masks their bytes.
-/

namespace FlashGpuSim

open Lib

/-! ### Masks and segments -/

/-- The sizes of a segment. -/
def IsSegment (segmentSize : Nat) : Prop :=
  segmentSize = 32 ∨ segmentSize = 64 ∨ segmentSize = 128

theorem toNat_lowMask {k : Nat} (hk : k < 64) :
    (BitVec.ofNat 64 (2 ^ k) - 1).toNat = 2 ^ k - 1 := by
  have hpow : 2 ^ k < 2 ^ 64 := Nat.pow_lt_pow_right (by decide) hk
  have hpos := Nat.two_pow_pos k
  have hof : (BitVec.ofNat 64 (2 ^ k)).toNat = 2 ^ k := by
    rw [BitVec.toNat_ofNat, Nat.mod_eq_of_lt hpow]
  have hone : (1 : BitVec 64).toNat = 1 := rfl
  rw [BitVec.toNat_sub_of_le, hof, hone]
  rw [BitVec.le_def, hof, hone]
  exact hpos

theorem toNat_clear_low (x : NewAddrType) {k : Nat} (hk : k < 64) :
    (x &&& ~~~(BitVec.ofNat 64 (2 ^ k) - 1)).toNat = x.toNat / 2 ^ k * 2 ^ k := by
  have hpow : 2 ^ k < 2 ^ 64 := Nat.pow_lt_pow_right (by decide) hk
  have hpos := Nat.two_pow_pos k
  apply Nat.eq_of_testBit_eq
  intro i
  rw [BitVec.toNat_and, BitVec.toNat_not, toNat_lowMask hk, Nat.testBit_and,
    Nat.testBit_mul_two_pow, Nat.testBit_div_two_pow,
    show 2 ^ 64 - 1 - (2 ^ k - 1) = 2 ^ 64 - (2 ^ k - 1 + 1) by omega,
    Nat.testBit_two_pow_sub_succ (by omega), Nat.testBit_two_pow_sub_one]
  rcases Nat.lt_or_ge i k with hlt | hge
  · simp [hlt, Nat.not_le.mpr hlt]
  · rw [Nat.sub_add_cancel hge]
    rcases Nat.lt_or_ge i 64 with hi | hi
    · simp [hi, hge, Nat.not_lt.mpr hge]
    · have hx : x.toNat.testBit i = false :=
        Nat.testBit_lt_two_pow (x.isLt.trans_le (Nat.pow_le_pow_right (by decide) hi))
      simp [hx]

theorem lineSizeBasedTagFunc_toNat {segmentSize : Nat} (hseg : IsSegment segmentSize)
    (addr : NewAddrType) :
    (lineSizeBasedTagFunc addr segmentSize).toNat = addr.toNat / segmentSize * segmentSize := by
  rcases hseg with rfl | rfl | rfl
  · exact toNat_clear_low addr (k := 5) (by decide)
  · exact toNat_clear_low addr (k := 6) (by decide)
  · exact toNat_clear_low addr (k := 7) (by decide)

theorem and_lowMask_eq_zero {segmentSize : Nat} (hseg : IsSegment segmentSize)
    {addr : NewAddrType} (haligned : addr.toNat % segmentSize = 0) :
    addr &&& (BitVec.ofNat 64 segmentSize - 1) = 0 := by
  have hpow : ∀ {k}, k < 64 → segmentSize = 2 ^ k →
      addr &&& (BitVec.ofNat 64 segmentSize - 1) = 0 := by
    rintro k hk rfl
    apply BitVec.eq_of_toNat_eq
    rw [BitVec.toNat_and, toNat_lowMask hk, Nat.and_two_pow_sub_one_eq_mod]
    exact haligned
  rcases hseg with h | h | h
  · exact hpow (k := 5) (by decide) h
  · exact hpow (k := 6) (by decide) h
  · exact hpow (k := 7) (by decide) h

namespace TransactionInfo

theorem getLsbD_setBytes (bytes : MemAccessByteMask) (idx size i : Nat) (hi : i < 128) :
    (setBytes bytes idx size).getLsbD i = true ↔
      bytes.getLsbD i = true ∨ ∃ k < size, (idx + k) % 2 ^ 32 = i := by
  unfold setBytes
  induction size with
  | zero => simp
  | succ n ih =>
    rw [List.range_succ, List.foldl_append, List.foldl_cons, List.foldl_nil]
    have hsucc : (∃ k < n + 1, (idx + k) % 2 ^ 32 = i) ↔
        (∃ k < n, (idx + k) % 2 ^ 32 = i) ∨ (idx + n) % 2 ^ 32 = i := by
      constructor
      · rintro ⟨k, hk, heq⟩
        rcases Nat.lt_succ_iff_lt_or_eq.mp hk with hk | rfl
        · exact .inl ⟨k, hk, heq⟩
        · exact .inr heq
      · rintro (⟨k, hk, heq⟩ | heq)
        · exact ⟨k, Nat.lt_succ_of_lt hk, heq⟩
        · exact ⟨n, Nat.lt_succ_self n, heq⟩
    rw [hsucc, ← or_assoc, ← ih]
    split
    · rename_i hlt
      rw [BitVec.getLsbD_or, BitVec.getLsbD_twoPow, Bool.or_eq_true, Bool.and_eq_true,
        decide_eq_true_eq, decide_eq_true_eq]
      exact or_congr_right (and_iff_right hlt)
    · rename_i hge
      refine (or_iff_left fun heq => hge ?_).symm
      rw [heq]
      exact hi

/-- Bytes that end in the line are set from `idx` on. -/
theorem getLsbD_setBytes_of_le (bytes : MemAccessByteMask) {idx size : Nat}
    (hend : idx + size ≤ 128) (i : Nat) : (setBytes bytes idx size).getLsbD i = true ↔
      bytes.getLsbD i = true ∨ idx ≤ i ∧ i < idx + size := by
  rcases Nat.lt_or_ge i 128 with hi | hi
  · rw [getLsbD_setBytes bytes idx size i hi]
    refine or_congr_right ⟨?_, fun h => ⟨i - idx, by omega, ?_⟩⟩
    · rintro ⟨k, hk, rfl⟩
      rw [Nat.mod_eq_of_lt (by omega)]
      omega
    · rw [show idx + (i - idx) = i by omega]
      exact Nat.mod_eq_of_lt (by omega)
  · rw [BitVec.getLsbD_of_ge _ _ hi, BitVec.getLsbD_of_ge _ _ hi]
    simp only [Bool.false_eq_true, false_or, false_iff]
    omega

end TransactionInfo

/-! ### The requests of the lanes -/

/-- A lane's access: its first byte, and the number of its bytes. -/
structure LaneBytes where
  addr : NewAddrType
  size : Nat

namespace LaneBytes

/-- The lane accesses the byte; addresses wrap. -/
def Touches (r : LaneBytes) (x : NewAddrType) : Prop := (x - r.addr).toNat < r.size

/-- The bytes are in one chunk of 32. -/
def OneChunk (r : LaneBytes) : Prop := r.addr.toNat % 32 + r.size ≤ 32

variable {r : LaneBytes} {x : NewAddrType}

theorem OneChunk.touches_iff (h : r.OneChunk) :
    r.Touches x ↔ r.addr.toNat ≤ x.toNat ∧ x.toNat < r.addr.toNat + r.size := by
  unfold Touches OneChunk at *
  rw [BitVec.toNat_sub]
  have hx := x.isLt
  have hr := r.addr.isLt
  constructor <;> intro hlt <;> omega

end LaneBytes

namespace MemAccess

/-- The byte is in the range of the access. -/
def Contains (a : MemAccess) (x : NewAddrType) : Prop :=
  a.addr.toNat ≤ x.toNat ∧ x.toNat < a.addr.toNat + a.size

/-- The byte is in the byte mask, which is relative to the line of 128 bytes. -/
def Masks (a : MemAccess) (x : NewAddrType) : Prop :=
  x.toNat / 128 = a.addr.toNat / 128 ∧ a.byteMask.getLsbD (x.toNat % 128) = true

/-- The byte is in the sector mask. -/
def InSectors (a : MemAccess) (x : NewAddrType) : Prop :=
  a.sectorMask.getLsbD (x.toNat % 128 / 32) = true

/-- A size of 32, 64 or 128 bytes, and an address aligned to it. -/
def Shaped (a : MemAccess) : Prop := IsSegment a.size ∧ a.addr.toNat % a.size = 0

end MemAccess

/-! ### What a transaction collects -/

namespace TransactionInfo

/-- The transaction is what some lanes noted. -/
structure Collects (requests : Nat → LaneBytes) (info : TransactionInfo) (lanes : Nat → Prop) :
    Prop where
  chunks : ∀ c, info.chunks.getLsbD c = true ↔
    ∃ t, lanes t ∧ (requests t).addr.toNat % 128 / 32 = c
  active : ∀ t, info.active.getLsbD t = true ↔ lanes t
  bytes : ∀ i, info.bytes.getLsbD i = true ↔ ∃ t, lanes t ∧
    (requests t).addr.toNat % 128 ≤ i ∧ i < (requests t).addr.toNat % 128 + (requests t).size

variable {requests : Nat → LaneBytes} {info : TransactionInfo} {lanes : Nat → Prop}

theorem collects_empty : Collects requests {} fun _ => False where
  chunks c := by simp
  active t := by simp
  bytes i := by simp

theorem Collects.congr (h : info.Collects requests lanes) {lanes' : Nat → Prop}
    (hiff : ∀ t, lanes t ↔ lanes' t) : info.Collects requests lanes' := by
  have heq : lanes = lanes' := funext fun t => propext (hiff t)
  exact heq ▸ h

theorem Collects.note (h : info.Collects requests lanes) {thread : Nat}
    (hthread : thread < maxWarpSize) (hchunk : (requests thread).OneChunk) :
    (info.note thread (requests thread).addr (requests thread).size).Collects requests
      fun t => t = thread ∨ lanes t := by
  have hend : (requests thread).addr.toNat % 128 + (requests thread).size ≤ 128 := by
    unfold LaneBytes.OneChunk at hchunk
    omega
  have hex : ∀ p : Nat → Prop, (∃ t, (t = thread ∨ lanes t) ∧ p t) ↔
      (∃ t, lanes t ∧ p t) ∨ p thread := by
    intro p
    constructor
    · rintro ⟨t, rfl | ht, hp⟩
      · exact .inr hp
      · exact .inl ⟨t, ht, hp⟩
    · rintro (⟨t, ht, hp⟩ | hp)
      · exact ⟨t, .inr ht, hp⟩
      · exact ⟨thread, .inl rfl, hp⟩
  refine ⟨fun c => ?_, fun t => ?_, fun i => ?_⟩
  · have hc : (requests thread).addr.toNat % 128 / 32 < sectorChunckSize := by
      show _ < 4
      omega
    rw [hex, ← h.chunks]
    show (info.chunks ||| BitVec.twoPow _ _).getLsbD c = true ↔ _
    rw [BitVec.getLsbD_or, BitVec.getLsbD_twoPow, Bool.or_eq_true, Bool.and_eq_true,
      decide_eq_true_eq, decide_eq_true_eq]
    refine or_congr_right ⟨fun heq => heq.2, fun heq => ⟨heq ▸ hc, heq⟩⟩
  · show (info.active ||| BitVec.twoPow _ _).getLsbD t = true ↔ _
    rw [BitVec.getLsbD_or, BitVec.getLsbD_twoPow, Bool.or_eq_true, Bool.and_eq_true,
      decide_eq_true_eq, decide_eq_true_eq, h.active, or_comm]
    refine or_congr_left ⟨fun heq => heq.2.symm, fun heq => ⟨heq ▸ hthread, heq.symm⟩⟩
  · rw [hex, ← h.bytes]
    exact getLsbD_setBytes_of_le _ hend i

end TransactionInfo

/-! ### What is sent of a transaction -/

open CoalesceInst (reduceSegment reduceHalf reduceAndSend)

theorem chunks_lt {chunks : MemAccessSectorMask} {c : Nat} (h : chunks.getLsbD c = true) :
    c = 0 ∨ c = 1 ∨ c = 2 ∨ c = 3 := by
  have hlt : c < 4 := BitVec.lt_of_getLsbD h
  omega

theorem toNat_add_of_aligned {addr : NewAddrType} (haligned : addr.toNat % 64 = 0) {k : Nat}
    (hk : k < 64) : (addr + BitVec.ofNat 64 k).toNat = addr.toNat + k := by
  have hlt := addr.isLt
  rw [BitVec.toNat_add, BitVec.toNat_ofNat]
  omega

/-- `size` bytes from `addr` on, aligned to their size, that hold all chunks of a line that are
set. -/
structure SpansChunks (q : Nat → Bool) (line : Nat) (addr : NewAddrType) (size : Nat) : Prop where
  segment : IsSegment size
  aligned : addr.toNat % size = 0
  line_eq : addr.toNat / 128 = line
  chunk : ∀ c, q c = true →
    addr.toNat % 128 ≤ 32 * c ∧ 32 * c + 32 ≤ addr.toNat % 128 + size

theorem reduceHalf_ok {q : Nat → Bool} {line size : Nat} {addr : NewAddrType} {h0 h1 : Bool}
    (h : SpansChunks q line addr size) (hsome : ∃ c, q c = true)
    (hhalves : size = 64 → h0 = q (addr.toNat % 128 / 32) ∧ h1 = q (addr.toNat % 128 / 32 + 1)) :
    ∃ A S, reduceHalf addr size h0 h1 = .ok (A, S) ∧ SpansChunks q line A S ∧
      addr.toNat ≤ A.toNat ∧ A.toNat + S ≤ addr.toNat + size := by
  unfold reduceHalf
  split
  · rename_i hsize
    subst hsize
    obtain ⟨rfl, rfl⟩ := hhalves rfl
    have haligned := h.aligned
    have hadd : (addr + 32).toNat = addr.toNat + 32 := toNat_add_of_aligned haligned (by decide)
    have hone : ∀ c, q c = true → c = addr.toNat % 128 / 32 ∨ c = addr.toNat % 128 / 32 + 1 := by
      intro c hc
      have hin := h.chunk c hc
      omega
    have hline := h.line_eq
    split
    · rename_i hlower
      rw [Bool.and_eq_true, Bool.not_eq_true'] at hlower
      refine ⟨addr, 32, rfl, ⟨.inl rfl, by omega, hline, fun c hc => ?_⟩, le_rfl, by omega⟩
      rcases hone c hc with rfl | rfl
      · omega
      · rw [hlower.2] at hc
        cases hc
    · split
      · rename_i hupper
        rw [Bool.and_eq_true, Bool.not_eq_true'] at hupper
        refine ⟨addr + 32, 32, rfl, ⟨.inl rfl, ?_, ?_, fun c hc => ?_⟩, ?_, ?_⟩
        · omega
        · omega
        · rcases hone c hc with rfl | rfl
          · rw [hupper.1] at hc
            cases hc
          · omega
        · omega
        · omega
      · rename_i hlower hupper
        have hboth : (q (addr.toNat % 128 / 32) && q (addr.toNat % 128 / 32 + 1)) = true := by
          obtain ⟨c, hc⟩ := hsome
          rcases hone c hc with rfl | rfl
          · rw [hc] at hlower ⊢
            simpa using hlower
          · rw [hc] at hupper ⊢
            simpa using hupper
        rw [require_pass hboth]
        exact ⟨addr, 64, rfl, h, le_rfl, le_rfl⟩
  · exact ⟨addr, size, rfl, h, le_rfl, le_rfl⟩

theorem reduceSegment_ok {chunks : MemAccessSectorMask} {addr : NewAddrType} {segmentSize : Nat}
    (h : SpansChunks chunks.getLsbD (addr.toNat / 128) addr segmentSize)
    (hsome : ∃ c, chunks.getLsbD c = true) :
    ∃ A S h0 h1, reduceSegment chunks.getLsbD addr segmentSize = .ok (A, S, h0, h1) ∧
      SpansChunks chunks.getLsbD (addr.toNat / 128) A S ∧
      (S = 64 → h0 = chunks.getLsbD (A.toNat % 128 / 32) ∧
        h1 = chunks.getLsbD (A.toNat % 128 / 32 + 1)) ∧
      addr.toNat ≤ A.toNat ∧ A.toNat + S ≤ addr.toNat + segmentSize := by
  have haligned := h.aligned
  unfold reduceSegment
  split
  · rename_i hseg
    subst hseg
    have hadd : (addr + 64).toNat = addr.toNat + 64 := by
      have hlt := addr.isLt
      have h64 : (64 : BitVec 64).toNat = 64 := rfl
      rw [BitVec.toNat_add, h64]
      omega
    dsimp only
    split
    · rename_i hlower
      rw [Bool.and_eq_true, Bool.not_eq_true', Bool.or_eq_false_iff] at hlower
      refine ⟨addr, 64, _, _, rfl, ⟨.inr (.inl rfl), by omega, rfl, fun c hc => ?_⟩,
        fun _ => ?_, le_rfl, by omega⟩
      · rcases chunks_lt hc with rfl | rfl | rfl | rfl
        · omega
        · omega
        · rw [hlower.2.1] at hc
          cases hc
        · rw [hlower.2.2] at hc
          cases hc
      · rw [haligned]
        exact ⟨rfl, rfl⟩
    · split
      · rename_i hupper
        rw [Bool.and_eq_true, Bool.not_eq_true', Bool.or_eq_false_iff] at hupper
        refine ⟨addr + 64, 64, _, _, rfl, ⟨.inr (.inl rfl), by omega, by omega, fun c hc => ?_⟩,
          fun _ => ?_, by omega, by omega⟩
        · rcases chunks_lt hc with rfl | rfl | rfl | rfl
          · rw [hupper.1.1] at hc
            cases hc
          · rw [hupper.1.2] at hc
            cases hc
          · omega
          · omega
        · rw [hadd, show (addr.toNat + 64) % 128 = 64 by omega]
          exact ⟨rfl, rfl⟩
      · rename_i hlower hupper
        have hboth : ((chunks.getLsbD 0 || chunks.getLsbD 1) &&
            (chunks.getLsbD 2 || chunks.getLsbD 3)) = true := by
          obtain ⟨c, hc⟩ := hsome
          have hany : chunks.getLsbD 0 = true ∨ chunks.getLsbD 1 = true ∨
              chunks.getLsbD 2 = true ∨ chunks.getLsbD 3 = true := by
            rcases chunks_lt hc with rfl | rfl | rfl | rfl <;> simp only [hc, true_or, or_true]
          rw [← or_assoc, ← Bool.or_eq_true, ← Bool.or_eq_true] at hany
          generalize (chunks.getLsbD 0 || chunks.getLsbD 1) = lower at *
          generalize (chunks.getLsbD 2 || chunks.getLsbD 3) = upper at *
          cases lower <;> cases upper <;> simp_all
        rw [require_pass hboth]
        exact ⟨addr, 128, _, _, rfl, h, fun hS => absurd hS (by decide), le_rfl, le_rfl⟩
  · rename_i hne
    split
    · rename_i hseg
      subst hseg
      split
      · rename_i hline
        refine ⟨addr, 64, _, _, rfl, h, fun _ => ?_, le_rfl, le_rfl⟩
        rw [hline]
        exact ⟨rfl, rfl⟩
      · rename_i hline
        have hline : addr.toNat % 128 = 64 := by omega
        rw [require_pass (decide_eq_true hline)]
        refine ⟨addr, 64, _, _, rfl, h, fun _ => ?_, le_rfl, le_rfl⟩
        rw [hline]
        exact ⟨rfl, rfl⟩
    · rename_i hne'
      exact ⟨addr, segmentSize, _, _, rfl, h, fun hS => absurd hS hne', le_rfl, le_rfl⟩

/-- What is sent of a transaction whose chunks are in its segment. -/
structure Sends (info : TransactionInfo) (addr : NewAddrType) (segmentSize : Nat)
    (a : MemAccess) : Prop where
  warpMask : a.warpMask = info.active
  byteMask : a.byteMask = info.bytes
  sectorMask : a.sectorMask = info.chunks
  spans : SpansChunks info.chunks.getLsbD (addr.toNat / 128) a.addr a.size
  lower : addr.toNat ≤ a.addr.toNat
  upper : a.addr.toNat + a.size ≤ addr.toNat + segmentSize

theorem reduceAndSend_ok (isWrite : Bool) (accessType : MemAccessType) {info : TransactionInfo}
    {addr : NewAddrType} {segmentSize : Nat}
    (h : SpansChunks info.chunks.getLsbD (addr.toNat / 128) addr segmentSize)
    (hsome : ∃ c, info.chunks.getLsbD c = true) :
    ∃ a, reduceAndSend isWrite accessType info addr segmentSize = .ok a ∧
      Sends info addr segmentSize a := by
  have hne : info.chunks ≠ 0 := by
    rintro hzero
    obtain ⟨c, hc⟩ := hsome
    rw [hzero] at hc
    simp at hc
  obtain ⟨A, S, h0, h1, hsegment, hA, hhalves, hlower, hupper⟩ := reduceSegment_ok h hsome
  obtain ⟨B, T, hhalf, hB, hlower', hupper'⟩ := reduceHalf_ok hA hsome hhalves
  refine ⟨⟨accessType, B, T, isWrite, info.active, info.bytes, info.chunks⟩, ?_,
    rfl, rfl, rfl, hB, hlower.trans hlower', hupper'.trans hupper⟩
  unfold reduceAndSend
  rw [require_pass (decide_eq_true (and_lowMask_eq_zero h.segment h.aligned)),
    require_pass (decide_eq_true hne), hsegment]
  show (reduceHalf A S h0 h1 >>= _) = _
  rw [hhalf]
  rfl

end FlashGpuSim
