import FlashGpuSim.Cluster.SmResources
import FlashGpuSim.Lib.RangeTable

/-!
The resource accounting of an SM that runs several kernels. The search for threads steps over
multiples of the size of the CTA, so its last range can end past the last thread of the SM; the
books are right as long as no CTA gets such a range and no sum wraps.
-/

namespace FlashGpuSim

open Lib

namespace SmResources

variable {cfg : SmConfig} {s t : SmResources cfg} {k : SmKernel cfg} {elapsed : Nat → Bool}
  {fits : Bool} {slot start size : Nat}

/-- The threads of the CTA in each context. -/
def ranges (s : SmResources cfg) : RangeTable Nat := fun slot =>
  (s.resident slot).bind fun k => (s.occupancy.ctaToHwtid slot).map fun start => (start, paddedCtaSize k)

/-- The books of the SM are right. -/
structure Accounted (s : SmResources cfg) : Prop where
  contexts : ∀ slot k, s.resident slot = some k → slot < cfg.maxCtaPerCore
  inside : ∀ slot k, s.resident slot = some k →
    ∃ start, s.occupancy.ctaToHwtid slot = some start ∧
      start + paddedCtaSize k ≤ cfg.nThreadPerShader
  vacant : ∀ slot, s.resident slot = none → s.occupancy.ctaToHwtid slot = none
  separate : s.ranges.Separate
  covers : s.ranges.Covers s.occupancy.hwtid
  nThreads : s.occupancy.nThreads = load paddedCtaSize cfg.maxCtaPerCore s.resident
  shmem : s.occupancy.shmem = load totalSmem cfg.maxCtaPerCore s.resident
  regs : s.occupancy.regs = load usedRegs cfg.maxCtaPerCore s.resident
  ctas : s.occupancy.ctas = load (fun _ => 1) cfg.maxCtaPerCore s.resident
  nThreads_le : s.occupancy.nThreads ≤ cfg.nThreadPerShader
  shmem_le : s.occupancy.shmem ≤ cfg.shmemSize
  regs_le : s.occupancy.regs ≤ cfg.registers
  ctas_le : s.occupancy.ctas ≤ cfg.maxCtaPerCore

/-- Some threads that the search tries for a CTA are free. -/
def AnyRange (s : SmResources cfg) (size : Nat) : Prop :=
  ∃ start < cfg.nThreadPerShader, start % size = 0 ∧
    ∀ i < size, s.occupancy.hwtid (start + i) = false

/-- Such threads end at a bound or before it. -/
def RangeWithin (s : SmResources cfg) (size bound : Nat) : Prop :=
  ∃ start < cfg.nThreadPerShader, start % size = 0 ∧
    (∀ i < size, s.occupancy.hwtid (start + i) = false) ∧ start + size ≤ bound

/-- The threads of the CTA are not too many for the SM. -/
def ThreadsPass (s : SmResources cfg) (k : SmKernel cfg) : Prop :=
  s.occupancy.nThreads + paddedCtaSize k ≤ cfg.nThreadPerShader

/-- The other limits hold for the counters and the needs of the CTA, as their sums wrap. -/
structure SumsPass (s : SmResources cfg) (k : SmKernel cfg) : Prop where
  shmem : u32 (s.occupancy.shmem + totalSmem k) ≤ cfg.shmemSize
  regs : u32 (s.occupancy.regs + usedRegs k) ≤ cfg.registers
  ctas : s.occupancy.ctas + 1 ≤ cfg.maxCtaPerCore

instance (s : SmResources cfg) (k : SmKernel cfg) : Decidable (s.ThreadsPass k) :=
  inferInstanceAs (Decidable (_ ≤ _))

instance (s : SmResources cfg) (k : SmKernel cfg) : Decidable (s.SumsPass k) :=
  decidable_of_iff (_ ∧ _ ∧ _) ⟨fun h => ⟨h.1, h.2.1, h.2.2⟩, fun h => ⟨h.1, h.2, h.3⟩⟩

/-- The CTA can be issued without harm: free threads for it are inside the SM, and no sum
wraps. -/
structure Harmless (s : SmResources cfg) (k : SmKernel cfg) : Prop where
  inside : s.RangeWithin (paddedCtaSize k) cfg.nThreadPerShader
  shmem : s.occupancy.shmem + totalSmem k < 2 ^ 32
  regs : s.occupancy.regs + usedRegs k < 2 ^ 32

/-- When a CTA is offered while a context is ready, it has a thread, and if there are free
threads for it, those that come first are in the bit set, and the CTA is harmless if the sums
admit it. -/
def Meets (s : SmResources cfg) : SmOp cfg → Prop
  | .issue k elapsed fits => (s.readyContext elapsed).isSome →
    0 < k.info.threadsPerCta ∧
      (fits = true → s.ThreadsPass k → s.AnyRange (paddedCtaSize k) →
        s.RangeWithin (paddedCtaSize k) maxThreadPerSm ∧ (s.SumsPass k → s.Harmless k))
  | .release _ => True

section search

variable {o : Occupancy} {n : Nat}

/-- A range is tested up to its first occupied thread. -/
theorem rangeFree_eq (hbound : ∀ t, o.hwtid t = true → t < maxThreadPerSm) (hwtid n : Nat) :
    o.rangeFree hwtid n =
      if (List.range n).all fun i => !o.hwtid (hwtid + i) then
        if n = 0 ∨ hwtid + n ≤ maxThreadPerSm then .ok true else .error .hwtidOutOfRange
      else .ok false := by
  induction n generalizing hwtid with
  | zero => rfl
  | succ n ih =>
    have hall : ((List.range (n + 1)).all fun i => !o.hwtid (hwtid + i)) =
        (!o.hwtid hwtid && (List.range n).all fun i => !o.hwtid (hwtid + 1 + i)) := by
      rw [List.range_succ_eq_map, List.all_cons, List.all_map, Nat.add_zero]
      congr 2
      funext i
      simp only [Function.comp_apply, Nat.succ_eq_add_one]
      rw [Nat.add_right_comm, Nat.add_assoc]
    unfold Occupancy.rangeFree
    rw [hall, ih]
    cases htaken : o.hwtid hwtid with
    | true =>
      have hlt := hbound hwtid htaken
      simp [Nat.not_le.mpr hlt]
    | false =>
      by_cases hout : maxThreadPerSm ≤ hwtid
      · have hfree : ((List.range n).all fun i => !o.hwtid (hwtid + 1 + i)) = true := by
          simp only [List.all_eq_true, List.mem_range, Bool.not_eq_true']
          intro i _
          apply Bool.eq_false_of_not_eq_true
          intro hi
          have := hbound _ hi
          omega
        have hpast : ¬ (n + 1 = 0 ∨ hwtid + (n + 1) ≤ maxThreadPerSm) := by omega
        simp only [hfree, hpast, if_pos hout, if_true, if_false, Bool.not_false, Bool.and_self]
      · have hsame : (n + 1 = 0 ∨ hwtid + (n + 1) ≤ maxThreadPerSm) ↔
            (n = 0 ∨ hwtid + 1 + n ≤ maxThreadPerSm) := by omega
        simp only [if_neg hout, hsame, Bool.not_false, Bool.true_and, Bool.false_eq_true,
          if_false]

/-- The search finds the range that the search without bounds finds, when the bit set has it. -/
theorem searchHwtid_eq (hbound : ∀ t, o.hwtid t = true → t < maxThreadPerSm) (hpos : 0 < size)
    (steps : List Nat) :
    o.searchHwtid size steps =
      match steps.find? fun step => (List.range size).all fun i => !o.hwtid (step + i) with
      | none => .ok none
      | some start =>
        if start + size ≤ maxThreadPerSm then .ok (some start) else .error .hwtidOutOfRange := by
  induction steps with
  | nil => rfl
  | cons step rest ih =>
    have hzero : ¬ size = 0 := by omega
    unfold Occupancy.searchHwtid
    rw [rangeFree_eq hbound, ih, List.find?_cons]
    cases (List.range size).all fun i => !o.hwtid (step + i) with
    | false => rfl
    | true =>
      simp only [if_true, hzero, false_or]
      split <;> rfl

end search

theorem findAvailableHwtid_eq
    (hbound : ∀ t, s.occupancy.hwtid t = true → t < maxThreadPerSm) (hpos : 0 < size) :
    s.findAvailableHwtid size =
      match s.occupancy.findAvailableHwtid cfg.toCtaConfig size with
      | none => .ok none
      | some start =>
        if start + size ≤ maxThreadPerSm then .ok (some start) else .error .hwtidOutOfRange :=
  searchHwtid_eq hbound hpos _

theorem find_none (h : s.occupancy.findAvailableHwtid cfg.toCtaConfig size = none) :
    ¬ s.AnyRange size := by
  rintro ⟨start, hlt, hmod, hfree⟩
  have hstart := List.find?_eq_none.mp h start
    (List.mem_filter.mpr ⟨List.mem_range.mpr hlt, decide_eq_true hmod⟩)
  apply hstart
  simpa using hfree

/-- The range that is found is the first one. -/
theorem find_some (h : s.occupancy.findAvailableHwtid cfg.toCtaConfig size = some start) :
    s.AnyRange size ∧ (∀ i < size, s.occupancy.hwtid (start + i) = false) ∧
      ∀ bound, s.RangeWithin size bound ↔ start + size ≤ bound := by
  unfold Occupancy.findAvailableHwtid at h
  rw [List.find?_filter, List.find?_range_eq_some] at h
  obtain ⟨hfound, hmem, hfirst⟩ := h
  simp only [decide_eq_true_eq, List.all_eq_true, List.mem_range, Bool.not_eq_true'] at hfound
  have hlt := List.mem_range.mp hmem
  refine ⟨⟨start, hlt, hfound.1, hfound.2⟩, hfound.2, fun bound => ⟨?_, ?_⟩⟩
  · rintro ⟨start', -, hmod, hfree, hle⟩
    by_contra hpast
    have htaken := hfirst start' (by omega)
    simp only [hmod, decide_true, List.all_eq_true, List.mem_range, Bool.not_eq_true',
      true_and, decide_eq_false_iff_not] at htaken
    exact htaken hfree
  · intro hle
    exact ⟨start, hlt, hfound.1, hfound.2, hle⟩

theorem paddedCtaSize_le (k : SmKernel cfg) : paddedCtaSize k ≤ cfg.nThreadPerShader := by
  have hle := k.threads_le
  have hpos := cfg.warpSize_pos
  unfold paddedCtaSize CtaConfig.paddedCtaSize
  split
  · exact hle
  · rename_i hmod
    have hne : k.info.threadsPerCta ≠ cfg.nThreadPerShader := by
      intro heq
      exact hmod (heq ▸ cfg.warps)
    have hn := Nat.div_add_mod cfg.nThreadPerShader cfg.warpSize
    rw [cfg.warps, Nat.add_zero] at hn
    have hlt : k.info.threadsPerCta / cfg.warpSize < cfg.nThreadPerShader / cfg.warpSize := by
      rw [Nat.div_lt_iff_lt_mul hpos, Nat.mul_comm, hn]
      omega
    calc (k.info.threadsPerCta / cfg.warpSize + 1) * cfg.warpSize
        ≤ cfg.nThreadPerShader / cfg.warpSize * cfg.warpSize := Nat.mul_le_mul_right _ hlt
      _ = cfg.nThreadPerShader := by rw [Nat.mul_comm, hn]

theorem paddedCtaSize_pos_iff : 0 < paddedCtaSize k ↔ 0 < k.info.threadsPerCta := by
  have hpos := cfg.warpSize_pos
  unfold paddedCtaSize CtaConfig.paddedCtaSize
  split
  · exact Iff.rfl
  · rename_i hmod
    have hne : k.info.threadsPerCta ≠ 0 := by
      intro heq
      rw [heq, Nat.zero_mod] at hmod
      exact hmod rfl
    constructor
    · intro _
      omega
    · intro _
      exact Nat.mul_pos (Nat.succ_pos _) hpos

/-- Every occupied thread is a thread of the SM. -/
theorem Accounted.occupied_lt (h : s.Accounted) {i : Nat} (hi : s.occupancy.hwtid i = true) :
    i < cfg.nThreadPerShader := by
  obtain ⟨slot, start, size, hrange, -, hlt⟩ := (h.covers i).mp hi
  unfold ranges at hrange
  obtain ⟨k, hk, hrange⟩ := Option.bind_eq_some_iff.mp hrange
  obtain ⟨first, hfirst, hrange⟩ := Option.map_eq_some_iff.mp hrange
  obtain ⟨start', hstart, hle⟩ := h.inside slot k hk
  rw [hfirst] at hstart
  cases hstart
  cases hrange
  omega

theorem Accounted.in_bitset (h : s.Accounted) {i : Nat} (hi : s.occupancy.hwtid i = true) :
    i < maxThreadPerSm := Nat.lt_of_lt_of_le (h.occupied_lt hi) cfg.threads_le

/-- The counter of the threads never wraps. -/
theorem Accounted.u32_nThreads (h : s.Accounted) (k : SmKernel cfg) :
    u32 (s.occupancy.nThreads + paddedCtaSize k) = s.occupancy.nThreads + paddedCtaSize k := by
  apply u32_of_lt
  have hn := h.nThreads_le
  have hk := paddedCtaSize_le k
  have hmax : cfg.nThreadPerShader ≤ 2 ^ 11 := cfg.threads_le
  omega

@[simp] theorem resident_takeRange : (s.takeRange k slot start).resident =
    Function.update s.resident slot (some k) := rfl

@[simp] theorem resident_leaveRange : (s.leaveRange k slot).resident =
    Function.update s.resident slot none := rfl

theorem ranges_takeRange (s : SmResources cfg) (k : SmKernel cfg) (slot start : Nat) :
    (s.takeRange k slot start).ranges =
      Function.update s.ranges slot (some (start, paddedCtaSize k)) := by
  funext i
  rcases eq_or_ne i slot with rfl | hne
  · simp [ranges, takeRange, Occupancy.setHwtid]
  · simp [ranges, takeRange, Occupancy.setHwtid, occupied, hne]

theorem ranges_leaveRange (s : SmResources cfg) (k : SmKernel cfg) (slot : Nat) :
    (s.leaveRange k slot).ranges = Function.update s.ranges slot none := by
  funext i
  rcases eq_or_ne i slot with rfl | hne
  · simp [ranges, leaveRange]
  · simp [ranges, leaveRange, hne]

/-- An issue inside the SM whose sums do not wrap keeps the books. -/
theorem Accounted.takeRange (h : s.Accounted) (hslot : slot < cfg.maxCtaPerCore)
    (hvacant : s.resident slot = none)
    (hfree : ∀ i < paddedCtaSize k, s.occupancy.hwtid (start + i) = false)
    (hinside : start + paddedCtaSize k ≤ cfg.nThreadPerShader) (hthreads : s.ThreadsPass k)
    (hsums : s.SumsPass k) (hshmem : s.occupancy.shmem + totalSmem k < 2 ^ 32)
    (hregs : s.occupancy.regs + usedRegs k < 2 ^ 32) :
    (s.takeRange k slot start).Accounted := by
  have hnone : s.ranges slot = none := by
    unfold ranges
    rw [hvacant]
    rfl
  have hunowned : ∀ n, start ≤ n → n < start + paddedCtaSize k → ∀ j, ¬ s.ranges.Owns j n := by
    intro n hle hlt j hown
    have htaken := (h.covers n).mpr ⟨j, hown⟩
    have hn := hfree (n - start) (by omega)
    rw [Nat.add_sub_cancel' hle, htaken] at hn
    cases hn
  have hshmem' := u32_of_lt hshmem
  have hregs' := u32_of_lt hregs
  refine ⟨?_, ?_, ?_, ?_, ?_, ?_, ?_, ?_, ?_, ?_, ?_, ?_, ?_⟩
  · intro i k' hi
    rcases eq_or_ne i slot with rfl | hne
    · exact hslot
    · rw [resident_takeRange, Function.update_of_ne hne] at hi
      exact h.contexts i k' hi
  · intro i k' hi
    rcases eq_or_ne i slot with rfl | hne
    · rw [resident_takeRange, Function.update_self] at hi
      cases hi
      exact ⟨start, Function.update_self .., hinside⟩
    · rw [resident_takeRange, Function.update_of_ne hne] at hi
      obtain ⟨first, hfirst, hle⟩ := h.inside i k' hi
      exact ⟨first, (Function.update_of_ne hne ..).trans hfirst, hle⟩
  · intro i hi
    rcases eq_or_ne i slot with rfl | hne
    · rw [resident_takeRange, Function.update_self] at hi
      cases hi
    · rw [resident_takeRange, Function.update_of_ne hne] at hi
      exact (Function.update_of_ne hne ..).trans (h.vacant i hi)
  · rw [ranges_takeRange]
    exact h.separate.take hunowned
  · rw [ranges_takeRange]
    exact h.covers.take hnone start (paddedCtaSize k)
  · exact (h.u32_nThreads k).trans (h.nThreads ▸ (load_take hslot hvacant).symm)
  · exact hshmem'.trans (h.shmem ▸ (load_take hslot hvacant).symm)
  · exact hregs'.trans (h.regs ▸ (load_take hslot hvacant).symm)
  · have hload := load_take (w := fun _ => 1) (a := k) hslot hvacant
    rw [← h.ctas] at hload
    exact hload.symm
  · exact (h.u32_nThreads k).trans_le hthreads
  · exact hsums.shmem
  · exact hsums.regs
  · exact hsums.ctas

/-- The books are right after an issue only if the CTA was harmless. -/
theorem Accounted.of_takeRange (h : s.Accounted) (hslot : slot < cfg.maxCtaPerCore)
    (hvacant : s.resident slot = none) (ht : (s.takeRange k slot start).Accounted) :
    start + paddedCtaSize k ≤ cfg.nThreadPerShader ∧
      s.occupancy.shmem + totalSmem k < 2 ^ 32 ∧
      s.occupancy.regs + usedRegs k < 2 ^ 32 := by
  have hwrap : ∀ n : Nat, u32 n = n → n < 2 ^ 32 := by
    intro n hn
    rw [← hn]
    exact Nat.mod_lt _ (by decide)
  refine ⟨?_, ?_, ?_⟩
  · obtain ⟨first, hfirst, hle⟩ := ht.inside slot k (Function.update_self ..)
    have hself : (s.takeRange k slot start).occupancy.ctaToHwtid slot = some start :=
      Function.update_self ..
    rw [hself] at hfirst
    cases hfirst
    exact hle
  · apply hwrap
    have hsum : u32 (s.occupancy.shmem + totalSmem k) =
        load totalSmem cfg.maxCtaPerCore (s.takeRange k slot start).resident := ht.shmem
    rw [hsum, h.shmem]
    exact load_take hslot hvacant
  · apply hwrap
    have hsum : u32 (s.occupancy.regs + usedRegs k) =
        load usedRegs cfg.maxCtaPerCore (s.takeRange k slot start).resident := ht.regs
    rw [hsum, h.regs]
    exact load_take hslot hvacant

/-- A release passes its assertions and keeps the books. -/
theorem Accounted.release (h : s.Accounted) (hk : s.resident slot = some k) :
    s.releaseShaderResource1block k slot = .ok (s.leaveRange k slot) ∧
      (s.leaveRange k slot).Accounted := by
  have hslot := h.contexts slot k hk
  obtain ⟨start, hstart, hinside⟩ := h.inside slot k hk
  have hrange : s.ranges slot = some (start, paddedCtaSize k) := by
    unfold ranges
    rw [hk, hstart]
    rfl
  have hthreads : paddedCtaSize k ≤ s.occupancy.nThreads := h.nThreads ▸ le_load hslot hk
  have hshmem : totalSmem k ≤ s.occupancy.shmem := h.shmem ▸ le_load hslot hk
  have hregs : usedRegs k ≤ s.occupancy.regs := h.regs ▸ le_load hslot hk
  have hctas : 1 ≤ s.occupancy.ctas := h.ctas ▸ le_load (w := fun _ => 1) hslot hk
  have hmax := cfg.threads_le
  constructor
  · unfold releaseShaderResource1block
    simp only [hstart, Option.getD_some]
    rw [require_pass (decide_eq_true hthreads), require_pass (decide_eq_true (.inr (by omega))),
      require_pass (decide_eq_true hshmem), require_pass (decide_eq_true hregs),
      require_pass (decide_eq_true hctas)]
    rfl
  refine ⟨?_, ?_, ?_, ?_, ?_, ?_, ?_, ?_, ?_, ?_, ?_, ?_, ?_⟩
  · intro i k' hi
    rcases eq_or_ne i slot with rfl | hne
    · exact hslot
    · rw [resident_leaveRange, Function.update_of_ne hne] at hi
      exact h.contexts i k' hi
  · intro i k' hi
    rcases eq_or_ne i slot with rfl | hne
    · rw [resident_leaveRange, Function.update_self] at hi
      cases hi
    · rw [resident_leaveRange, Function.update_of_ne hne] at hi
      obtain ⟨first, hfirst, hle⟩ := h.inside i k' hi
      exact ⟨first, (Function.update_of_ne hne ..).trans hfirst, hle⟩
  · intro i hi
    rcases eq_or_ne i slot with rfl | hne
    · exact Function.update_self ..
    · rw [resident_leaveRange, Function.update_of_ne hne] at hi
      exact (Function.update_of_ne hne ..).trans (h.vacant i hi)
  · rw [ranges_leaveRange]
    exact h.separate.leave slot
  · rw [ranges_leaveRange]
    have hcovers := h.covers.leave h.separate hrange
    simpa only [leaveRange, hstart, Option.getD_some] using hcovers
  · have hload := load_leave (w := paddedCtaSize) hslot hk
    exact Nat.sub_eq_of_eq_add (h.nThreads.trans hload.symm)
  · have hload := load_leave (w := totalSmem) hslot hk
    exact Nat.sub_eq_of_eq_add (h.shmem.trans hload.symm)
  · have hload := load_leave (w := usedRegs) hslot hk
    exact Nat.sub_eq_of_eq_add (h.regs.trans hload.symm)
  · have hload := load_leave (w := fun _ => 1) hslot hk
    exact Nat.sub_eq_of_eq_add (h.ctas.trans hload.symm)
  · exact (Nat.sub_le ..).trans h.nThreads_le
  · exact (Nat.sub_le ..).trans h.shmem_le
  · exact (Nat.sub_le ..).trans h.regs_le
  · exact (Nat.sub_le ..).trans h.ctas_le

theorem readyContext_some (h : s.readyContext elapsed = some slot) :
    slot < cfg.maxCtaPerCore ∧ s.resident slot = none := by
  unfold readyContext at h
  have hready := List.find?_some h
  rw [Bool.and_eq_true, Option.isNone_iff_eq_none] at hready
  exact ⟨List.mem_range.mp (List.mem_of_find?_eq_some h), hready.1⟩

/-- The search for the threads of a CTA, where every occupied thread is a thread of the SM. -/
theorem Accounted.find_eq (h : s.Accounted) (hpos : 0 < size) :
    s.findAvailableHwtid size =
      match s.occupancy.findAvailableHwtid cfg.toCtaConfig size with
      | none => .ok none
      | some start =>
        if start + size ≤ maxThreadPerSm then .ok (some start) else .error .hwtidOutOfRange :=
  findAvailableHwtid_eq (fun _ => h.in_bitset) hpos

theorem Accounted.occupy_eq (h : s.Accounted) (hpos : 0 < paddedCtaSize k) :
    s.occupyShaderResource1block k =
      if s.ThreadsPass k then
        match s.occupancy.findAvailableHwtid cfg.toCtaConfig (paddedCtaSize k) with
        | none => .ok false
        | some start =>
          if start + paddedCtaSize k ≤ maxThreadPerSm then .ok (decide (s.SumsPass k))
          else .error .hwtidOutOfRange
      else .ok false := by
  unfold occupyShaderResource1block
  dsimp only
  rw [h.u32_nThreads, h.find_eq hpos]
  by_cases hthreads : s.ThreadsPass k
  · have hsums : decide (s.SumsPass k) =
        (decide (u32 (s.occupancy.shmem + totalSmem k) ≤ cfg.shmemSize) &&
          decide (u32 (s.occupancy.regs + usedRegs k) ≤ cfg.registers) &&
          decide (s.occupancy.ctas + 1 ≤ cfg.maxCtaPerCore)) := by
      rw [Bool.eq_iff_iff]
      simp only [decide_eq_true_eq, Bool.and_eq_true, and_assoc]
      exact ⟨fun h => ⟨h.1, h.2, h.3⟩, fun h => ⟨h.1, h.2.1, h.2.2⟩⟩
    have hle : ¬ cfg.nThreadPerShader < s.occupancy.nThreads + paddedCtaSize k :=
      Nat.not_lt.mpr hthreads
    rw [if_pos hthreads, if_neg hle, hsums]
    cases s.occupancy.findAvailableHwtid cfg.toCtaConfig (paddedCtaSize k) with
    | none => rfl
    | some start =>
      dsimp only
      split
      · simp [bind, Except.bind, pure, Except.pure]
      · rfl
  · have hlt : cfg.nThreadPerShader < s.occupancy.nThreads + paddedCtaSize k :=
      Nat.lt_of_not_le hthreads
    rw [if_neg hthreads, if_pos hlt]

/-- A CTA that is offered while a context is ready. -/
theorem Accounted.offer (h : s.Accounted) (hready : s.readyContext elapsed = some slot)
    (hpos : 0 < k.info.threadsPerCta) :
    s.step (.issue k elapsed true) =
      if s.ThreadsPass k then
        match s.occupancy.findAvailableHwtid cfg.toCtaConfig (paddedCtaSize k) with
        | none => .ok s
        | some start =>
          if start + paddedCtaSize k ≤ maxThreadPerSm then
            if s.SumsPass k then .ok (s.takeRange k slot start) else .ok s
          else .error .hwtidOutOfRange
      else .ok s := by
  have hsize := paddedCtaSize_pos_iff.mpr hpos
  obtain ⟨-, hvacant⟩ := readyContext_some hready
  have hcan : s.canIssue1block k elapsed true = s.occupyShaderResource1block k := by
    unfold canIssue1block
    rw [hready, require_pass (decide_eq_true (Nat.ne_of_gt hsize))]
    rfl
  have hlaunch : decide (0 < k.info.threadsPerCta ∧
      k.info.threadsPerCta ≤ cfg.nThreadPerShader) = true := decide_eq_true ⟨hpos, k.threads_le⟩
  simp only [step, hcan, issueBlock2core, hready, hvacant, h.vacant slot hvacant, hlaunch,
    Option.isNone_none, require_pass]
  rw [h.occupy_eq hsize, h.find_eq hsize]
  split
  · cases s.occupancy.findAvailableHwtid cfg.toCtaConfig (paddedCtaSize k) with
    | none => rfl
    | some start =>
      dsimp only
      split
      · by_cases hsums : s.SumsPass k
        · rw [if_pos hsums, decide_eq_true hsums]
          rfl
        · rw [if_neg hsums, decide_eq_false hsums]
          rfl
      · rfl
  · rfl

/-- A CTA that is not offered changes nothing. -/
theorem step_idle (h : (s.readyContext elapsed).isSome → 0 < k.info.threadsPerCta ∧ fits = false) :
    s.step (.issue k elapsed fits) = .ok s := by
  cases hready : s.readyContext elapsed with
  | none =>
    simp [step, canIssue1block, hready, bind, Except.bind, pure, Except.pure]
  | some slot =>
    rw [hready] at h
    obtain ⟨hpos, rfl⟩ := h rfl
    have hsize := Nat.ne_of_gt (paddedCtaSize_pos_iff.mpr hpos)
    simp [step, canIssue1block, hready, require_pass, hsize, bind, Except.bind, pure, Except.pure]

/-- Without a thread the size of the CTA divides nothing. -/
theorem step_empty (hready : (s.readyContext elapsed).isSome) (hzero : ¬ 0 < k.info.threadsPerCta) :
    s.step (.issue k elapsed fits) = .error .divideByZero := by
  have hsize : paddedCtaSize k = 0 := by
    have := mt paddedCtaSize_pos_iff.mp hzero
    omega
  obtain ⟨slot, hslot⟩ := Option.isSome_iff_exists.mp hready
  simp [step, canIssue1block, hslot, require, hsize, bind, Except.bind]

/-- What keeps the books in one step. -/
theorem Accounted.step_iff (h : s.Accounted) (op : SmOp cfg) :
    (∃ t, s.step op = .ok t ∧ t.Accounted) ↔ s.Meets op := by
  cases op with
  | release slot =>
    refine ⟨fun _ => trivial, fun _ => ?_⟩
    cases hk : s.resident slot with
    | none => exact ⟨s, by simp [step, hk], h⟩
    | some k =>
      obtain ⟨hok, ht⟩ := h.release hk
      exact ⟨_, by simpa [step, hk] using hok, ht⟩
  | issue k elapsed fits =>
    by_cases hoffer : (s.readyContext elapsed).isSome
    · by_cases hpos : 0 < k.info.threadsPerCta
      · cases fits with
        | false =>
          refine ⟨fun _ _ => ⟨hpos, fun hfits => by cases hfits⟩, fun _ => ⟨s, ?_, h⟩⟩
          exact step_idle fun _ => ⟨hpos, rfl⟩
        | true =>
          obtain ⟨slot, hslot⟩ := Option.isSome_iff_exists.mp hoffer
          obtain ⟨hlimit, hvacant⟩ := readyContext_some hslot
          rw [h.offer hslot hpos]
          simp only [Meets, hoffer, hpos, forall_const, true_and]
          by_cases hthreads : s.ThreadsPass k
          · simp only [hthreads, if_true, forall_const]
            cases hfind : s.occupancy.findAvailableHwtid cfg.toCtaConfig (paddedCtaSize k) with
            | none =>
              have hnone := find_none hfind
              simp [hnone, h]
            | some start =>
              obtain ⟨hany, hfree, hwithin⟩ := find_some hfind
              simp only [hany, forall_const, hwithin]
              by_cases hbits : start + paddedCtaSize k ≤ maxThreadPerSm
              · simp only [hbits, if_true, true_and]
                by_cases hsums : s.SumsPass k
                · simp only [hsums, if_true, forall_const, Except.ok.injEq, exists_eq_left']
                  constructor
                  · intro ht
                    obtain ⟨hinside, hshmem, hregs⟩ := h.of_takeRange hlimit hvacant ht
                    exact ⟨(hwithin _).mpr hinside, hshmem, hregs⟩
                  · intro hharmless
                    exact h.takeRange hlimit hvacant hfree ((hwithin _).mp hharmless.inside)
                      hthreads hsums hharmless.shmem hharmless.regs
                · simp [hsums, h]
              · simp [hbits]
          · simp [hthreads, h]
      · rw [step_empty hoffer hpos]
        simp [Meets, hoffer, hpos]
    · have hidle : s.step (.issue k elapsed fits) = .ok s := step_idle fun hsome => absurd hsome hoffer
      simp [hidle, h, Meets, hoffer]

/-- The books are right in every state of the run, and no step stops. -/
def KeepsBooks (s : SmResources cfg) : List (SmOp cfg) → Prop
  | [] => s.Accounted
  | op :: rest => s.Accounted ∧ ∃ t, s.step op = .ok t ∧ t.KeepsBooks rest

/-- Every step of the run meets its condition in the state before it. -/
def AllMeet (s : SmResources cfg) : List (SmOp cfg) → Prop
  | [] => True
  | op :: rest => s.Meets op ∧ ∀ t, s.step op = .ok t → t.AllMeet rest

theorem Accounted.keepsBooks_spec (h : s.Accounted) (ops : List (SmOp cfg)) :
    s.KeepsBooks ops ↔ s.AllMeet ops := by
  induction ops generalizing s with
  | nil => exact ⟨fun _ => trivial, fun _ => h⟩
  | cons op rest ih =>
    have hhead : ∀ t : SmResources cfg, t.KeepsBooks rest → t.Accounted := by
      intro t ht
      cases rest with
      | nil => exact ht
      | cons => exact ht.1
    constructor
    · rintro ⟨-, t, hok, ht⟩
      refine ⟨(h.step_iff op).mp ⟨t, hok, hhead t ht⟩, fun u hu => ?_⟩
      rw [hok] at hu
      cases hu
      exact (ih (hhead t ht)).mp ht
    · rintro ⟨hmeets, hrest⟩
      obtain ⟨t, hok, ht⟩ := (h.step_iff op).mpr hmeets
      exact ⟨h, t, hok, (ih ht).mpr (hrest t hok)⟩

theorem accounted_reset : ({} : SmResources cfg).Accounted where
  contexts _ _ h := by cases h
  inside _ _ h := by cases h
  vacant _ _ := rfl
  separate _ _ _ h := absurd h (RangeTable.not_owns_of_none rfl)
  covers n := by
    constructor
    · intro h
      cases h
    · rintro ⟨i, hi⟩
      exact absurd hi (RangeTable.not_owns_of_none rfl)
  nThreads := (load_empty _ _).symm
  shmem := (load_empty _ _).symm
  regs := (load_empty _ _).symm
  ctas := (load_empty _ _).symm
  nThreads_le := Nat.zero_le _
  shmem_le := Nat.zero_le _
  regs_le := Nat.zero_le _
  ctas_le := Nat.zero_le _

/-- From a reset SM the books are kept by exactly the runs whose steps meet their conditions. -/
theorem keepsBooks_iff (cfg : SmConfig) (ops : List (SmOp cfg)) :
    ({} : SmResources cfg).KeepsBooks ops ↔ ({} : SmResources cfg).AllMeet ops :=
  accounted_reset.keepsBooks_spec ops

/-- An SM with three warps. -/
def threeWarps : SmConfig where
  topo := ⟨1, [1], show ∀ n ∈ [1], 1 ≤ n by decide, show ∀ n ∈ [1], n ≤ 6 by decide⟩
  concurrentKernelSm := true
  nThreadPerShader := 96
  maxCtaPerCore := 32
  maxCta := fun _ => 1
  maxCtaPerCore_le := by decide
  maxCta_le := fun _ => by decide
  threads_le := by decide
  warpSize_pos := by decide
  warps := by decide

/-- A kernel with CTAs of one warp. -/
def oneWarp : SmKernel threeWarps := ⟨.launch ⟨1, 1, 1⟩ ⟨32, 1, 1⟩ 0 0, by decide⟩

/-- A kernel with CTAs of two warps. -/
def twoWarps : SmKernel threeWarps := ⟨.launch ⟨1, 1, 1⟩ ⟨64, 1, 1⟩ 0 0, by decide⟩

/-- After a CTA of one warp, a CTA of two warps gets the last warp of the SM and one past it. -/
theorem not_keepsBooks : ¬ ({} : SmResources threeWarps).KeepsBooks
    [.issue oneWarp (fun _ => true) true, .issue twoWarps (fun _ => true) true] := by
  rintro ⟨-, s, hs, -, t, ht, hbooks⟩
  have hfirst : ({} : SmResources threeWarps).step (.issue oneWarp (fun _ => true) true) =
      .ok (({} : SmResources threeWarps).takeRange oneWarp 0 0) := rfl
  rw [hfirst] at hs
  cases hs
  have hsecond : (({} : SmResources threeWarps).takeRange oneWarp 0 0).step
      (.issue twoWarps (fun _ => true) true) =
      .ok ((({} : SmResources threeWarps).takeRange oneWarp 0 0).takeRange twoWarps 1 64) := rfl
  rw [hsecond] at ht
  cases ht
  obtain ⟨start, hstart, hinside⟩ := Accounted.inside hbooks 1 twoWarps rfl
  cases hstart
  exact absurd hinside (by decide)

end SmResources

end FlashGpuSim
