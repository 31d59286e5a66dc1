import FlashGpuSim.OperandCollector.ReadPort

/-!
Runs of the register file's reads under the byte limit. The matching rotates its priority, but
it matches every bank; the limit behind it does not rotate, so the reads of the lowest banks
always win.
-/

namespace FlashGpuSim

open Lib

namespace Arbiter

variable {cfg : ArbiterConfig} {a : Arbiter}

theorem addReadRequests_queue (a : Arbiter) (ops : List ReadOp) (bank : Nat) :
    (a.addReadRequests ops).queue bank = a.queue bank ++ ops.filter (fun op => op.bank = bank) := by
  unfold addReadRequests
  dsimp only
  generalize a.queue = queue
  induction ops generalizing queue with
  | nil => simp
  | cons op rest ih =>
    rw [List.foldl_cons, ih]
    rcases eq_or_ne op.bank bank with rfl | hne
    · simp
    · simp [hne, Function.update_of_ne hne.symm]

/-- A ready bank is granted exactly when fewer ready banks than the limit are below it. -/
theorem mem_grantedBanks {bank maxGrants : Nat} (hlt : bank < cfg.numBanks)
    (hready : a.queue bank ≠ [] ∧ a.allocatedBank bank ≠ .writeAlloc) :
    bank ∈ a.grantedBanks cfg maxGrants ↔
      ((List.range bank).filter fun b =>
        decide (a.queue b ≠ [] ∧ a.allocatedBank b ≠ .writeAlloc)).length < maxGrants := by
  obtain ⟨m, hm⟩ : ∃ m, cfg.numBanks = bank + 1 + m := Nat.exists_eq_add_of_le hlt
  have hbelow : bank ∉ (List.range bank).filter fun b =>
      decide (a.queue b ≠ [] ∧ a.allocatedBank b ≠ .writeAlloc) := by simp
  have hone : ([bank].filter fun b =>
      decide (a.queue b ≠ [] ∧ a.allocatedBank b ≠ .writeAlloc)) = [bank] :=
    List.filter_cons_of_pos (decide_eq_true hready)
  unfold grantedBanks readyBanks
  rw [hm, List.range_add, List.range_succ, List.filter_append, List.filter_append, hone,
    List.append_assoc, List.take_append, List.mem_append]
  generalize (List.range bank).filter (fun b =>
    decide (a.queue b ≠ [] ∧ a.allocatedBank b ≠ .writeAlloc)) = below at hbelow ⊢
  constructor
  · rintro (hmem | hmem)
    · exact absurd (List.mem_of_mem_take hmem) hbelow
    · by_contra hge
      rw [Nat.sub_eq_zero_of_le (Nat.le_of_not_lt hge), List.take_zero] at hmem
      exact List.not_mem_nil hmem
  · intro hless
    obtain ⟨k, hk⟩ : ∃ k, maxGrants - below.length = k + 1 :=
      Nat.exists_eq_succ_of_ne_zero (by omega)
    rw [hk, List.singleton_append, List.take_succ_cons]
    exact .inr List.mem_cons_self

end Arbiter

/-- What happens to the banks in one cycle: the writes before the reads, and the reads that
collectors queue after them. -/
structure ReadCycle where
  writes : List Nat
  arrivals : List ReadOp

namespace ReadCycle

/-- Each bank is written once at most; reads are of existing banks for existing collectors. -/
structure Legal (cfg : ArbiterConfig) (c : ReadCycle) : Prop where
  writes_nodup : c.writes.Nodup
  writes_lt : ∀ bank ∈ c.writes, bank < cfg.numBanks
  arrivals : ∀ op ∈ c.arrivals, op.cu < cfg.numCollectors ∧ op.bank < cfg.numBanks

end ReadCycle

namespace ReadPort

variable (cfg : ReadPortConfig)

/-- A cycle: writes, `begin_cycle`, `allocate_reads`, new reads and `process_banks`. -/
def cycle (p : ReadPort) (c : ReadCycle) : Except CollectorFault (List ReadOp × ReadPort) := do
  let arbiter ← c.writes.foldlM
    (fun a bank => a.allocateBankForWrite cfg.toArbiterConfig bank) p.arbiter
  let (ops, p) ← ({ p with arbiter }.beginCycle cfg).allocateReads cfg ReadOp.bank
  return (ops, { p with arbiter := (p.arbiter.addReadRequests c.arrivals).resetAllocation })

/-- The state after so many cycles. -/
def after (cycles : Nat → ReadCycle) (p : ReadPort) : Nat → Except CollectorFault ReadPort
  | 0 => .ok p
  | n + 1 => do
    let p ← after cycles p n
    let (_, p) ← p.cycle cfg (cycles n)
    return p

/-- The state between cycles: every queued read is in the queue of its bank and for a collector,
and no bank is allocated. -/
structure Settled (p : ReadPort) : Prop where
  names : p.arbiter.NamesCollectors cfg.toArbiterConfig
  banked : p.arbiter.Banked cfg.toArbiterConfig
  free : ∀ bank, p.arbiter.allocatedBank bank = .noAlloc

/-- `g`: the operands that the limit pays for in a cycle. -/
def grantsPerCycle : Nat := cfg.readLimit / cfg.bytesPerOperand

/-- Whatever happens at the other banks, a read at the head of the bank's queue is granted within
`num_banks` cycles in which the bank is not written. -/
def GrantsWithin (bank : Nat) : Prop :=
  ∀ p, Settled cfg p → ∀ op, (p.arbiter.queue bank).head? = some op →
    ∀ cycles : Nat → ReadCycle, (∀ t, (cycles t).Legal cfg.toArbiterConfig) →
      (∀ t, t < cfg.numBanks → bank ∉ (cycles t).writes) →
        ∃ t, t < cfg.numBanks ∧ ∃ q ops q', after cfg cycles p t = .ok q ∧
          q.cycle cfg (cycles t) = .ok (ops, q') ∧ op ∈ ops

variable {cfg} {p : ReadPort} {c : ReadCycle}

/-- The banks after the writes of a cycle. -/
def written (p : ReadPort) (c : ReadCycle) : Arbiter :=
  { p.arbiter with allocatedBank := fun bank =>
      if bank ∈ c.writes then .writeAlloc else p.arbiter.allocatedBank bank }

/-- The banks that a cycle reads. -/
def cycleBanks (cfg : ReadPortConfig) (p : ReadPort) (c : ReadCycle) : List Nat :=
  (p.written c).grantedBanks cfg.toArbiterConfig (grantsPerCycle cfg)

/-- A cycle reads the heads of the first ready banks and leaves a settled state. -/
theorem Settled.cycle_ok (h : Settled cfg p) (hc : c.Legal cfg.toArbiterConfig)
    (hlimit : 0 < cfg.readLimit) :
    ∃ p', p.cycle cfg c = .ok (p.arbiter.heads (p.cycleBanks cfg c), p') ∧ Settled cfg p' ∧
      ∀ bank, p'.arbiter.queue bank =
        (if bank ∈ p.cycleBanks cfg c then (p.arbiter.queue bank).tail
          else p.arbiter.queue bank) ++ c.arrivals.filter (fun op => op.bank = bank) := by
  have hwrites : c.writes.foldlM
      (fun a bank => a.allocateBankForWrite cfg.toArbiterConfig bank) p.arbiter =
        .ok (p.written c) :=
    Arbiter.foldlM_allocate cfg.toArbiterConfig .writeAlloc hc.writes_nodup
      (fun bank hb => ⟨hc.writes_lt bank hb, h.free bank⟩)
  obtain ⟨q, hq, hqueue, -, -⟩ := allocateReads_ok ReadOp.bank
    (p := { p with arbiter := p.written c }.beginCycle cfg) h.names h.banked (fun bank => by
      show (if bank ∈ c.writes then BankAllocation.writeAlloc else p.arbiter.allocatedBank bank) ≠ _
      rw [h.free bank]
      split <;> simp) (fun _ _ => rfl)
  have hbanks : ({ p with arbiter := p.written c }.beginCycle cfg).readBanks cfg =
      p.cycleBanks cfg c := by
    unfold readBanks cycleBanks maxGrants
    rw [if_pos hlimit]
    rfl
  rw [hbanks] at hq hqueue
  have hqueues : ∀ bank, ((q.arbiter.addReadRequests c.arrivals).resetAllocation).queue bank =
      (if bank ∈ p.cycleBanks cfg c then (p.arbiter.queue bank).tail
        else p.arbiter.queue bank) ++ c.arrivals.filter (fun op => op.bank = bank) := by
    intro bank
    refine (Arbiter.addReadRequests_queue _ _ _).trans ?_
    rw [hqueue]
    rfl
  have hmem : ∀ bank op, op ∈ ((q.arbiter.addReadRequests c.arrivals).resetAllocation).queue bank →
      op ∈ p.arbiter.queue bank ∨ op ∈ c.arrivals ∧ op.bank = bank := by
    intro bank op hop
    rw [hqueues, List.mem_append, List.mem_filter, decide_eq_true_eq] at hop
    refine hop.imp (fun hop => ?_) id
    split at hop
    · exact List.mem_of_mem_tail hop
    · exact hop
  refine ⟨{ q with arbiter := (q.arbiter.addReadRequests c.arrivals).resetAllocation }, ?_,
    ⟨?_, ?_, fun _ => rfl⟩, hqueues⟩
  · unfold cycle
    rw [hwrites]
    show (ReadPort.allocateReads cfg _ ReadOp.bank >>= _) = _
    rw [hq]
    rfl
  · intro bank hbank op hop
    rcases hmem bank op hop with hop | ⟨hop, -⟩
    · exact h.names bank hbank op hop
    · exact (hc.arrivals op hop).1
  · intro bank hbank op hop
    rcases hmem bank op hop with hop | ⟨-, hop⟩
    · exact h.banked bank hbank op hop
    · exact hop

/-! ### The banks below the limit -/

theorem GrantsWithin.of_lt {bank : Nat} (hbank : bank < cfg.numBanks)
    (hg : bank < grantsPerCycle cfg) : GrantsWithin cfg bank := by
  intro p hp op hop cycles hlegal hwrites
  have hlimit : 0 < cfg.readLimit := by
    by_contra hzero
    rw [grantsPerCycle, Nat.eq_zero_of_not_pos hzero, Nat.zero_div] at hg
    omega
  have hpos : 0 < cfg.numBanks := by omega
  obtain ⟨p', hcycle, -, -⟩ := hp.cycle_ok (hlegal 0) hlimit
  refine ⟨0, hpos, p, _, p', rfl, hcycle, ?_⟩
  apply Arbiter.mem_heads.mpr
  refine ⟨bank, ?_, hop⟩
  have hready : (p.written (cycles 0)).queue bank ≠ [] ∧
      (p.written (cycles 0)).allocatedBank bank ≠ .writeAlloc := by
    refine ⟨fun hnil => ?_, ?_⟩
    · have hnil' : p.arbiter.queue bank = [] := hnil
      rw [hnil'] at hop
      cases hop
    · show (if bank ∈ (cycles 0).writes then BankAllocation.writeAlloc
        else p.arbiter.allocatedBank bank) ≠ _
      rw [if_neg (hwrites 0 hpos), hp.free]
      exact BankAllocation.noConfusion
  apply (Arbiter.mem_grantedBanks hbank hready).mpr
  exact ((List.length_filter_le _ _).trans (List.length_range).le).trans_lt hg

/-! ### The banks above the limit -/

/-- A read of a bank for collector 0. -/
def readOf (bank : Nat) : ReadOp := ⟨0, 0, 0, 0, bank⟩

/-- Every bank up to this one has a read queued. -/
def Flooded (bank : Nat) (p : ReadPort) : Prop :=
  ∀ b ≤ bank, p.arbiter.queue b ≠ []

/-- A new read for every bank below. -/
def flood (bank : Nat) : ReadCycle where
  writes := []
  arrivals := (List.range bank).map readOf

theorem flood_legal {bank : Nat} (hbank : bank < cfg.numBanks) :
    (flood bank).Legal cfg.toArbiterConfig where
  writes_nodup := .nil
  writes_lt b hb := absurd hb List.not_mem_nil
  arrivals op hop := by
    obtain ⟨b, hb, rfl⟩ := List.mem_map.mp hop
    exact ⟨cfg.numCollectors_pos, (List.mem_range.mp hb).trans hbank⟩

theorem Flooded.not_granted {bank : Nat} (h : Flooded bank p) (hp : Settled cfg p)
    (hbank : bank < cfg.numBanks) (hg : grantsPerCycle cfg ≤ bank) :
    bank ∉ p.cycleBanks cfg (flood bank) := by
  have hready : ∀ b ≤ bank, (p.written (flood bank)).queue b ≠ [] ∧
      (p.written (flood bank)).allocatedBank b ≠ .writeAlloc := by
    intro b hb
    refine ⟨h b hb, ?_⟩
    show (if b ∈ [] then BankAllocation.writeAlloc else p.arbiter.allocatedBank b) ≠ _
    rw [if_neg List.not_mem_nil, hp.free]
    exact BankAllocation.noConfusion
  intro hmem
  have hlt := (Arbiter.mem_grantedBanks hbank (hready bank (le_refl _))).mp hmem
  have hall : ((List.range bank).filter fun b => decide ((p.written (flood bank)).queue b ≠ [] ∧
      (p.written (flood bank)).allocatedBank b ≠ .writeAlloc)) = List.range bank := by
    rw [List.filter_eq_self]
    intro b hb
    exact decide_eq_true (hready b (List.mem_range.mp hb).le)
  rw [hall, List.length_range] at hlt
  omega

/-- In a flood the bank's queue stays as it is, for ever. -/
theorem flood_after {bank : Nat} (hlimit : 0 < cfg.readLimit) (hbank : bank < cfg.numBanks)
    (hg : grantsPerCycle cfg ≤ bank) (hp : Settled cfg p) (h : Flooded bank p) (n : Nat) :
    ∃ q, after cfg (fun _ => flood bank) p n = .ok q ∧ Settled cfg q ∧ Flooded bank q := by
  induction n with
  | zero => exact ⟨p, rfl, hp, h⟩
  | succ n ih =>
    obtain ⟨q, hq, hsettled, hflooded⟩ := ih
    obtain ⟨q', hcycle, hsettled', hqueue⟩ := hsettled.cycle_ok (flood_legal hbank) hlimit
    refine ⟨q', ?_, hsettled', ?_⟩
    · unfold after
      rw [hq]
      show (q.cycle cfg (flood bank) >>= _) = _
      rw [hcycle]
      rfl
    · intro b hb
      rw [hqueue b]
      rcases hb.lt_or_eq with hlt | rfl
      · apply List.append_ne_nil_of_right_ne_nil
        have hin : readOf b ∈ (flood bank).arrivals.filter (fun op => op.bank = b) :=
          List.mem_filter.mpr
            ⟨List.mem_map.mpr ⟨b, List.mem_range.mpr hlt, rfl⟩, decide_eq_true rfl⟩
        exact List.ne_nil_of_mem hin
      · rw [if_neg (hflooded.not_granted hsettled hbank hg)]
        exact List.append_ne_nil_of_left_ne_nil (hflooded b (le_refl b)) _

theorem not_grantsWithin {bank : Nat} (hlimit : 0 < cfg.readLimit) (hbank : bank < cfg.numBanks)
    (hg : grantsPerCycle cfg ≤ bank) : ¬ GrantsWithin cfg bank := by
  intro hgrants
  let p : ReadPort :=
    ⟨{ Arbiter.init with queue := fun b => if b ≤ bank then [readOf b] else [] }, 0⟩
  have hp : Settled cfg p := by
    refine ⟨?_, ?_, fun _ => rfl⟩
    · intro b _ op hop
      simp only [p] at hop
      split at hop
      · rw [List.mem_singleton.mp hop]
        exact cfg.numCollectors_pos
      · exact absurd hop List.not_mem_nil
    · intro b _ op hop
      simp only [p] at hop
      split at hop
      · rw [List.mem_singleton.mp hop]
        rfl
      · exact absurd hop List.not_mem_nil
  have hflooded : Flooded bank p := by
    intro b hb
    simp [p, hb]
  have hhead : (p.arbiter.queue bank).head? = some (readOf bank) := by simp [p]
  obtain ⟨t, -, q, ops, q', hafter, hcycle, hop⟩ := hgrants p hp (readOf bank) hhead
    (fun _ => flood bank) (fun _ => flood_legal hbank) (fun _ _ => List.not_mem_nil)
  obtain ⟨r, hr, hsettled, hflood⟩ := flood_after hlimit hbank hg hp hflooded t
  cases hafter.symm.trans hr
  obtain ⟨r', hr', -, -⟩ := hsettled.cycle_ok (flood_legal hbank) hlimit
  cases hcycle.symm.trans hr'
  obtain ⟨b, hb, hhead⟩ := Arbiter.mem_heads.mp hop
  have hbb : b < cfg.numBanks := (Arbiter.grantedBanks_sub hb).1
  have heq : bank = b := hsettled.banked b hbb (readOf bank) (List.mem_of_mem_head? hhead)
  exact hflood.not_granted hsettled hbank hg (heq ▸ hb)

/-- Under a limit of at least one operand a cycle, the head of a bank's queue is granted within
`num_banks` cycles whatever the other banks are asked for exactly when the limit reaches beyond
the banks below it. -/
theorem grantsWithin_iff (cfg : ReadPortConfig) (hg : 1 ≤ grantsPerCycle cfg) (bank : Nat)
    (hbank : bank < cfg.numBanks) : GrantsWithin cfg bank ↔ bank < grantsPerCycle cfg := by
  have hlimit : 0 < cfg.readLimit := by
    by_contra hzero
    rw [grantsPerCycle, Nat.eq_zero_of_not_pos hzero, Nat.zero_div] at hg
    omega
  constructor
  · intro hgrants
    by_contra hge
    exact not_grantsWithin hlimit hbank (Nat.le_of_not_lt hge) hgrants
  · exact GrantsWithin.of_lt hbank

/-- A limit of eight operands for sixteen banks. -/
theorem grantsWithin_iff_sixteen :
    GrantsWithin ⟨⟨16, 8, by decide, by decide⟩, 1024, 128, by decide⟩ 7 ↔
      7 < grantsPerCycle ⟨⟨16, 8, by decide, by decide⟩, 1024, 128, by decide⟩ :=
  grantsWithin_iff _ (by decide) 7 (by decide)

/-- With one operand a cycle, reads of bank 0 keep bank 1 waiting. -/
theorem grantsWithin_starved :
    ¬ ∀ cfg : ReadPortConfig, 1 ≤ grantsPerCycle cfg → ∀ bank, bank < cfg.numBanks →
      GrantsWithin cfg bank := by
  intro h
  have hone := h ⟨⟨2, 2, by decide, by decide⟩, 128, 128, by decide⟩ (by decide) 1 (by decide)
  exact not_grantsWithin (by decide) (by decide) (by decide) hone

end ReadPort

end FlashGpuSim
