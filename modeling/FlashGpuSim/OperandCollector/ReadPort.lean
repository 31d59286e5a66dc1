import FlashGpuSim.OperandCollector.Arbiter

/-!
The register file's reads of one cycle: the byte budget of `begin_cycle` and
`consume_rf_read_budget`, and `opndcoll_rfu_t::allocate_reads` up to the collectors that take the
operands. The limit is applied behind the matching, always from bank 0 on: the reads of a bank
are safe from starvation exactly when the limit covers the banks below it.
-/

namespace FlashGpuSim

open Lib

/-- `gpgpu_reg_file_read_bytes_per_cycle` and `warp_size * sizeof(unsigned)`. -/
structure ReadPortConfig extends ArbiterConfig where
  readLimit : Nat
  bytesPerOperand : Nat
  bytesPerOperand_pos : 0 < bytesPerOperand

/-- The arbiter and `m_rf_read_bytes_remaining`. -/
structure ReadPort where
  arbiter : Arbiter
  bytesRemaining : Nat

namespace ReadPort

variable (cfg : ReadPortConfig) (p : ReadPort)

def init : ReadPort where
  arbiter := .init
  bytesRemaining := 0

/-- `begin_cycle` -/
def beginCycle : ReadPort := { p with bytesRemaining := cfg.readLimit }

/-- `consume_rf_read_budget` -/
def consumeRfReadBudget (bytes : Nat) : Nat × ReadPort :=
  if bytes = 0 then (0, p)
  else if cfg.readLimit = 0 then (bytes, p)
  else
    let consumed := min bytes p.bytesRemaining
    (consumed, { p with bytesRemaining := p.bytesRemaining - consumed })

/-- `max_grants` of `allocate_reads`. -/
def maxGrants : Nat :=
  if 0 < cfg.readLimit then p.bytesRemaining / cfg.bytesPerOperand else 2 ^ 32 - 1

/-- The bytes of one read leave the budget. -/
def chargeRead : Except CollectorFault ReadPort :=
  if 0 < cfg.readLimit then do
    require (decide (cfg.bytesPerOperand ≤ p.bytesRemaining)) .readBytes
    return { p with bytesRemaining := p.bytesRemaining - cfg.bytesPerOperand }
  else .ok p

/-- `opndcoll_rfu_t::allocate_reads` without the collectors. `bankOf` is `register_bank` of the
operand; as a second read of a bank would fail, `read_ops` has every allocated read. -/
def allocateReads (bankOf : ReadOp → Nat) : Except CollectorFault (List ReadOp × ReadPort) :=
  if 0 < cfg.readLimit ∧ p.maxGrants cfg = 0 then .ok ([], p)
  else do
    let (allocated, arbiter) ← p.arbiter.allocateReads cfg.toArbiterConfig (p.maxGrants cfg)
    let arbiter ← allocated.foldlM
      (fun arbiter op => arbiter.allocateForRead cfg.toArbiterConfig (bankOf op)) arbiter
    let p ← allocated.foldlM (fun p _ => p.chargeRead cfg) { p with arbiter }
    return (allocated, p)

end ReadPort

namespace Arbiter

variable {cfg : ArbiterConfig} {a : Arbiter}

/-- Distinct idle banks can all be allocated. -/
theorem foldlM_allocate (cfg : ArbiterConfig) (allocation : BankAllocation) {a : Arbiter}
    {banks : List Nat} (hnodup : banks.Nodup)
    (hbanks : ∀ bank ∈ banks, bank < cfg.numBanks ∧ a.allocatedBank bank = .noAlloc) :
    banks.foldlM (fun a bank => a.allocate cfg bank allocation) a =
      .ok { a with allocatedBank := fun bank =>
        if bank ∈ banks then allocation else a.allocatedBank bank } := by
  induction banks generalizing a with
  | nil => simp; rfl
  | cons bank rest ih =>
    obtain ⟨hnot, hrest⟩ := List.nodup_cons.mp hnodup
    obtain ⟨⟨hlt, hidle⟩, hbanks⟩ := List.forall_mem_cons.mp hbanks
    have hone : a.allocate cfg bank allocation =
        .ok { a with allocatedBank := Function.update a.allocatedBank bank allocation } := by
      unfold allocate
      have hfree : a.bankIdle bank = true := decide_eq_true hidle
      rw [require_pass (decide_eq_true hlt), require_pass hfree]
      rfl
    rw [List.foldlM_cons, hone]
    show rest.foldlM _ _ = _
    rw [ih hrest]
    · congr 2
      funext b
      rcases eq_or_ne b bank with rfl | hne
      · simp
      · simp [hne]
    · intro b hb
      refine ⟨(hbanks b hb).1, ?_⟩
      have hne : b ≠ bank := fun heq => hnot (heq ▸ hb)
      dsimp only
      rw [Function.update_of_ne hne]
      exact (hbanks b hb).2

theorem grantedBanks_sub {maxGrants bank : Nat} (h : bank ∈ a.grantedBanks cfg maxGrants) :
    bank < cfg.numBanks ∧ a.queue bank ≠ [] ∧ a.allocatedBank bank ≠ .writeAlloc := by
  have hready := List.mem_filter.mp (List.mem_of_mem_take h)
  exact ⟨List.mem_range.mp hready.1, of_decide_eq_true hready.2⟩

theorem grantedBanks_nodup (maxGrants : Nat) : (a.grantedBanks cfg maxGrants).Nodup :=
  (List.nodup_range.filter _).sublist (List.take_sublist _ _)

/-- Reads of distinct banks are in their banks' queues. -/
def Banked (cfg : ArbiterConfig) (a : Arbiter) : Prop :=
  ∀ bank < cfg.numBanks, ∀ op ∈ a.queue bank, op.bank = bank

theorem map_bank_heads (h : Banked cfg a) {banks : List Nat}
    (hbanks : ∀ bank ∈ banks, bank < cfg.numBanks ∧ a.queue bank ≠ []) :
    (a.heads banks).map ReadOp.bank = banks := by
  induction banks with
  | nil => rfl
  | cons bank rest ih =>
    obtain ⟨⟨hlt, hne⟩, hrest⟩ := List.forall_mem_cons.mp hbanks
    obtain ⟨op, ops, hq⟩ := List.exists_cons_of_ne_nil hne
    have hop : op.bank = bank := h bank hlt op (hq ▸ List.mem_cons_self)
    have hcons : a.heads (bank :: rest) = op :: a.heads rest := by
      simp [heads, hq]
    rw [hcons, List.map_cons, hop, ih hrest]

theorem mem_heads {banks : List Nat} {op : ReadOp} :
    op ∈ a.heads banks ↔ ∃ bank ∈ banks, (a.queue bank).head? = some op :=
  List.mem_filterMap

end Arbiter

namespace ReadPort

variable {cfg : ReadPortConfig} {p : ReadPort}

theorem foldlM_chargeRead (ops : List ReadOp)
    (hbudget : 0 < cfg.readLimit → ops.length * cfg.bytesPerOperand ≤ p.bytesRemaining) :
    ops.foldlM (fun p _ => p.chargeRead cfg) p =
      .ok { p with bytesRemaining :=
        if 0 < cfg.readLimit then p.bytesRemaining - ops.length * cfg.bytesPerOperand
        else p.bytesRemaining } := by
  induction ops generalizing p with
  | nil => simp; rfl
  | cons op rest ih =>
    rw [List.foldlM_cons]
    by_cases hlimit : 0 < cfg.readLimit
    · have hall := hbudget hlimit
      rw [List.length_cons, Nat.add_mul, Nat.one_mul] at hall
      have hone : p.chargeRead cfg =
          .ok { p with bytesRemaining := p.bytesRemaining - cfg.bytesPerOperand } := by
        unfold chargeRead
        rw [if_pos hlimit, require_pass (decide_eq_true (by omega))]
        rfl
      rw [hone]
      show rest.foldlM _ _ = _
      rw [ih (fun _ => by dsimp only; omega)]
      rw [if_pos hlimit, if_pos hlimit, List.length_cons, Nat.add_mul, Nat.one_mul]
      dsimp only
      congr 2
      omega
    · have hone : p.chargeRead cfg = .ok p := if_neg hlimit
      rw [hone]
      show rest.foldlM _ _ = _
      rw [ih (fun h => absurd h hlimit), if_neg hlimit, if_neg hlimit]

/-- The banks that one call reads. -/
def readBanks (cfg : ReadPortConfig) (p : ReadPort) : List Nat :=
  p.arbiter.grantedBanks cfg.toArbiterConfig (p.maxGrants cfg)

theorem readBanks_budget (h : 0 < cfg.readLimit) :
    (p.readBanks cfg).length * cfg.bytesPerOperand ≤ p.bytesRemaining := by
  have hlen : (p.readBanks cfg).length ≤ p.bytesRemaining / cfg.bytesPerOperand := by
    have htake := List.length_take_le (p.maxGrants cfg)
      (p.arbiter.readyBanks cfg.toArbiterConfig)
    rw [maxGrants, if_pos h] at htake
    unfold readBanks Arbiter.grantedBanks
    rw [maxGrants, if_pos h]
    exact htake
  exact (Nat.mul_le_mul_right _ hlen).trans (Nat.div_mul_le_self _ _)

/-- One call reads the heads of the first ready banks that the budget pays for. -/
theorem allocateReads_ok (bankOf : ReadOp → Nat)
    (hnames : p.arbiter.NamesCollectors cfg.toArbiterConfig)
    (hbanked : p.arbiter.Banked cfg.toArbiterConfig)
    (hnoread : ∀ bank, p.arbiter.allocatedBank bank ≠ .readAlloc)
    (hbank : ∀ op ∈ p.arbiter.heads (p.readBanks cfg), bankOf op = op.bank) :
    ∃ p', p.allocateReads cfg bankOf = .ok (p.arbiter.heads (p.readBanks cfg), p') ∧
      p'.arbiter.queue = (p.arbiter.popped (p.readBanks cfg)).queue ∧
      p'.arbiter.allocatedBank = (fun bank =>
        if bank ∈ p.readBanks cfg then .readAlloc else p.arbiter.allocatedBank bank) ∧
      p'.bytesRemaining = if 0 < cfg.readLimit then
        p.bytesRemaining - (p.readBanks cfg).length * cfg.bytesPerOperand
        else p.bytesRemaining := by
  unfold allocateReads
  by_cases hzero : 0 < cfg.readLimit ∧ p.maxGrants cfg = 0
  · have hnone : p.readBanks cfg = [] := by
      unfold readBanks Arbiter.grantedBanks
      rw [hzero.2, List.take_zero]
    rw [if_pos hzero, hnone]
    exact ⟨p, rfl, by simp [Arbiter.popped], by simp, by simp⟩
  · rw [if_neg hzero, Arbiter.allocateReads_eq hnames,
      show p.arbiter.grantedBanks cfg.toArbiterConfig (p.maxGrants cfg) = p.readBanks cfg from rfl]
    have hgranted : ∀ bank ∈ p.readBanks cfg, bank < cfg.numBanks ∧
        p.arbiter.queue bank ≠ [] ∧ p.arbiter.allocatedBank bank ≠ .writeAlloc :=
      fun bank hb => Arbiter.grantedBanks_sub hb
    have hmap : (p.arbiter.heads (p.readBanks cfg)).map bankOf = p.readBanks cfg := by
      rw [List.map_congr_left hbank]
      exact Arbiter.map_bank_heads hbanked fun bank hb => ⟨(hgranted bank hb).1, (hgranted bank hb).2.1⟩
    have hlen : (p.arbiter.heads (p.readBanks cfg)).length = (p.readBanks cfg).length := by
      rw [← List.length_map bankOf, hmap]
    have hidle : ∀ bank ∈ p.readBanks cfg, p.arbiter.allocatedBank bank = .noAlloc := by
      intro bank hb
      cases halloc : p.arbiter.allocatedBank bank with
      | noAlloc => rfl
      | readAlloc => exact absurd halloc (hnoread bank)
      | writeAlloc => exact absurd halloc (hgranted bank hb).2.2
    have halloc := Arbiter.foldlM_allocate cfg.toArbiterConfig .readAlloc
      (a := { p.arbiter.popped (p.readBanks cfg) with
        lastCu := (p.arbiter.lastCu + 1) % cfg.numCollectors })
      (Arbiter.grantedBanks_nodup (p.maxGrants cfg))
      (fun bank hb => ⟨(hgranted bank hb).1, hidle bank hb⟩)
    have hbanks : ∀ arbiter : Arbiter, (p.arbiter.heads (p.readBanks cfg)).foldlM
        (fun arbiter op => arbiter.allocateForRead cfg.toArbiterConfig (bankOf op)) arbiter =
        (p.readBanks cfg).foldlM
          (fun arbiter bank => arbiter.allocate cfg.toArbiterConfig bank .readAlloc) arbiter := by
      intro arbiter
      conv_rhs => rw [← hmap, List.foldlM_map]
      rfl
    have hfold : (p.arbiter.heads (p.readBanks cfg)).foldlM
        (fun arbiter op => arbiter.allocateForRead cfg.toArbiterConfig (bankOf op))
        { p.arbiter.popped (p.readBanks cfg) with
          lastCu := (p.arbiter.lastCu + 1) % cfg.numCollectors } =
        .ok { p.arbiter.popped (p.readBanks cfg) with
          lastCu := (p.arbiter.lastCu + 1) % cfg.numCollectors
          allocatedBank := fun bank => if bank ∈ p.readBanks cfg then .readAlloc
            else p.arbiter.allocatedBank bank } :=
      (hbanks _).trans halloc
    have hcharge := foldlM_chargeRead (p := { p with arbiter := { p.arbiter.popped (p.readBanks cfg) with
        lastCu := (p.arbiter.lastCu + 1) % cfg.numCollectors
        allocatedBank := fun bank => if bank ∈ p.readBanks cfg then .readAlloc
          else p.arbiter.allocatedBank bank } })
      (p.arbiter.heads (p.readBanks cfg)) (fun h => by rw [hlen]; exact readBanks_budget h)
    rw [hlen] at hcharge
    refine ⟨{
      arbiter := { p.arbiter.popped (p.readBanks cfg) with
        lastCu := (p.arbiter.lastCu + 1) % cfg.numCollectors
        allocatedBank := fun bank => if bank ∈ p.readBanks cfg then .readAlloc
          else p.arbiter.allocatedBank bank }
      bytesRemaining := if 0 < cfg.readLimit then
        p.bytesRemaining - (p.readBanks cfg).length * cfg.bytesPerOperand
        else p.bytesRemaining }, ?_, rfl, rfl, rfl⟩
    dsimp only at hfold hcharge ⊢
    show (List.foldlM (fun (arbiter : Arbiter) op =>
      arbiter.allocateForRead cfg.toArbiterConfig (bankOf op)) _ _ >>= _) = _
    rw [hfold]
    show (List.foldlM (fun (p : ReadPort) _ => p.chargeRead cfg) _ _ >>= _) = _
    rw [hcharge]
    rfl

end ReadPort

end FlashGpuSim
