import Mathlib.Data.List.Basic
import Mathlib.Logic.Function.Basic
import FlashGpuSim.Lib.Outcome

/-!
`opndcoll_rfu_t::arbiter_t`: the queues of register reads, one for each bank, and the wavefront
matching of banks and collectors with the grant limit behind it. A collector takes part in any
number of matches, so the matching serves every bank that asks and is not written; which of
them are read is decided by the limit alone, from the lowest bank on.
-/

namespace FlashGpuSim

open Lib

/-- A source operand, `op_t`: the collector it is read for and its place there. -/
structure ReadOp where
  cu : Nat
  operand : Nat
  register : Nat
  schedId : Nat
  bank : Nat
  deriving DecidableEq, Repr

/-- `alloc_t` -/
inductive BankAllocation
  | noAlloc
  | readAlloc
  | writeAlloc
  deriving DecidableEq, Repr

/-- The assertions of the operand collector. -/
inductive CollectorFault
  /-- `assert(oc_id < _outputs)` -/
  | ocId
  /-- `assert(bank < m_num_banks)` -/
  | bankRange
  /-- `assert(is_free())` of a bank -/
  | bankBusy
  /-- `assert(m_free)` of a collector -/
  | collectorBusy
  /-- `assert(m_not_ready.none())` -/
  | notReady
  /-- `assert(!m_sub_core_model || (*pipeline_reg)->get_schd_id() == m_reg_id)` -/
  | otherScheduler
  /-- `assert(allocated)` -/
  | notAllocated
  /-- `assert(cu_set.size() % m_num_warp_scheds == 0 && ...)` -/
  | setSize
  /-- `assert(m_rf_read_bytes_remaining >= bytes_per_operand)` -/
  | readBytes
  /-- `assert(reg_id < regs.size())` -/
  | regRange
  /-- `assert(0 && "No free registers found")` -/
  | noFreeRegister
  /-- `assert(dst->empty())` -/
  | registerBusy
  /-- A set with a dispatch unit has no collector for a scheduler. -/
  | divideByZero
  /-- A null pointer is followed. -/
  | nullPointer
  deriving DecidableEq, Repr

/-- The sizes that `arbiter_t::init` asserts to be positive. -/
structure ArbiterConfig where
  numBanks : Nat
  numCollectors : Nat
  numBanks_pos : 0 < numBanks
  numCollectors_pos : 0 < numCollectors

/-- `arbiter_t`; `_outmatch` and `m_allocator_rr_head` are written and never read. -/
structure Arbiter where
  queue : Nat → List ReadOp
  allocatedBank : Nat → BankAllocation
  lastCu : Nat

namespace Arbiter

def init : Arbiter where
  queue := fun _ => []
  allocatedBank := fun _ => .noAlloc
  lastCu := 0

variable (cfg : ArbiterConfig) (a : Arbiter)

/-- `_request[i][j]` -/
def request (i j : Nat) : Bool :=
  match a.queue i with
  | [] => false
  | op :: _ => decide (op.cu = j)

/-- One step along a diagonal: the bank takes the output when it is unmatched and asks for it. -/
def matchStep (request : Nat → Nat → Bool) (s : Nat × (Nat → Option Nat)) (input : Nat) :
    Nat × (Nat → Option Nat) :=
  ((s.1 + 1) % cfg.numCollectors,
    if s.2 input = none ∧ request input s.1 = true then Function.update s.2 input (some s.1)
    else s.2)

/-- One diagonal of the wavefront allocator. -/
def diagonal (request : Nat → Nat → Bool) (start : Nat) (inmatch : Nat → Option Nat) :
    Nat → Option Nat :=
  ((List.range cfg.numBanks).foldl (matchStep cfg request) (start, inmatch)).2

/-- `_inmatch` after the loop through the diagonals; a written bank counts as matched. -/
def inmatch : Nat → Option Nat :=
  (List.range (max cfg.numBanks cfg.numCollectors)).foldl
    (fun inmatch p => diagonal cfg a.request ((a.lastCu + p) % cfg.numCollectors) inmatch)
    (fun i => if a.allocatedBank i = .writeAlloc then some 0 else none)

/-- One turn of the loop that grants the matches, up to the limit. -/
def grantStep (inmatch : Nat → Option Nat) (maxGrants : Nat) (s : List ReadOp × Arbiter)
    (bank : Nat) : List ReadOp × Arbiter :=
  if (inmatch bank).isSome ∧ s.2.allocatedBank bank ≠ .writeAlloc then
    if maxGrants ≤ s.1.length then s
    else
      match s.2.queue bank with
      | [] => s
      | op :: rest =>
        (s.1 ++ [op], { s.2 with queue := Function.update s.2.queue bank rest })
  else s

/-- `allocate_reads` -/
def allocateReads (maxGrants : Nat) : Except CollectorFault (List ReadOp × Arbiter) := do
  require ((List.range cfg.numBanks).all fun i =>
    (a.queue i).head?.all fun op => decide (op.cu < cfg.numCollectors)) .ocId
  return (List.range cfg.numBanks).foldl (grantStep (a.inmatch cfg) maxGrants)
    ([], { a with lastCu := (a.lastCu + 1) % cfg.numCollectors })

/-- The pushes of `add_read_requests`. -/
def addReadRequests (ops : List ReadOp) : Arbiter :=
  { a with
    queue := ops.foldl (fun queue op =>
      Function.update queue op.bank (queue op.bank ++ [op])) a.queue }

/-- `bank_idle` -/
def bankIdle (bank : Nat) : Bool := decide (a.allocatedBank bank = .noAlloc)

/-- The common body of `allocate_for_read` and `allocate_bank_for_write`. -/
def allocate (bank : Nat) (allocation : BankAllocation) : Except CollectorFault Arbiter := do
  require (decide (bank < cfg.numBanks)) .bankRange
  require (a.bankIdle bank) .bankBusy
  return { a with allocatedBank := Function.update a.allocatedBank bank allocation }

/-- `allocate_for_read` -/
def allocateForRead (bank : Nat) : Except CollectorFault Arbiter :=
  a.allocate cfg bank .readAlloc

/-- `allocate_bank_for_write` -/
def allocateBankForWrite (bank : Nat) : Except CollectorFault Arbiter :=
  a.allocate cfg bank .writeAlloc

/-- `reset_alloction` -/
def resetAllocation : Arbiter := { a with allocatedBank := fun _ => .noAlloc }

/-! ### The matching serves every bank that asks -/

variable {cfg a}

theorem matchStep_apply (request : Nat → Nat → Bool) (output : Nat) (inmatch : Nat → Option Nat)
    (input i : Nat) :
    (matchStep cfg request (output, inmatch) input).2 i =
      if i = input ∧ inmatch input = none ∧ request input output = true then some output
      else inmatch i := by
  unfold matchStep
  dsimp only
  split
  · rename_i hask
    rcases eq_or_ne i input with rfl | hne
    · rw [Function.update_self, if_pos ⟨rfl, hask⟩]
    · rw [Function.update_of_ne hne, if_neg (fun h => hne h.1)]
  · rename_i hask
    rw [if_neg (fun h => hask h.2)]

/-- A diagonal matches the unmatched banks whose output on it is the one they ask for. -/
theorem diagonal_apply (request : Nat → Nat → Bool) {start : Nat}
    (hstart : start < cfg.numCollectors) (inmatch : Nat → Option Nat) (i : Nat) :
    diagonal cfg request start inmatch i =
      if i < cfg.numBanks ∧ inmatch i = none ∧
          request i ((start + i) % cfg.numCollectors) = true then
        some ((start + i) % cfg.numCollectors)
      else inmatch i := by
  have hloop : ∀ n, (List.range n).foldl (matchStep cfg request) (start, inmatch) =
      ((start + n) % cfg.numCollectors, fun i =>
        if i < n ∧ inmatch i = none ∧ request i ((start + i) % cfg.numCollectors) = true then
          some ((start + i) % cfg.numCollectors)
        else inmatch i) := by
    intro n
    induction n with
    | zero => simp [Nat.mod_eq_of_lt hstart]
    | succ n ih =>
      rw [List.range_succ, List.foldl_append, ih, List.foldl_cons, List.foldl_nil]
      refine Prod.ext ?_ (funext fun j => ?_)
      · exact (Nat.mod_add_mod _ _ _).trans (by rw [Nat.add_assoc])
      · rw [matchStep_apply]
        rcases Nat.lt_trichotomy j n with hlt | rfl | hgt
        · simp [hlt, hlt.ne, Nat.lt_succ_of_lt hlt]
        · simp
        · simp [hgt.ne', Nat.not_lt.mpr hgt.le, Nat.not_lt.mpr (Nat.succ_le_of_lt hgt)]
  exact congrFun (congrArg Prod.snd (hloop cfg.numBanks)) i

/-- Some diagonal up to the number of collectors meets each request. -/
theorem exists_diagonal (cfg : ArbiterConfig) (lastCu i : Nat) {cu : Nat}
    (hcu : cu < cfg.numCollectors) :
    ∃ p, p < cfg.numCollectors ∧
      ((lastCu + p) % cfg.numCollectors + i) % cfg.numCollectors = cu := by
  have hpos := cfg.numCollectors_pos
  have hlt := Nat.mod_lt (lastCu + i) hpos
  refine ⟨(cu + (cfg.numCollectors - (lastCu + i) % cfg.numCollectors)) % cfg.numCollectors,
    Nat.mod_lt _ hpos, ?_⟩
  rw [Nat.mod_add_mod, Nat.add_right_comm, Nat.add_mod_mod, ← Nat.mod_add_mod,
    show (lastCu + i) % cfg.numCollectors +
        (cu + (cfg.numCollectors - (lastCu + i) % cfg.numCollectors)) =
      cu + cfg.numCollectors by omega, Nat.add_mod_right, Nat.mod_eq_of_lt hcu]

/-- The collectors named in the queues exist. -/
def NamesCollectors (cfg : ArbiterConfig) (a : Arbiter) : Prop :=
  ∀ i < cfg.numBanks, ∀ op ∈ a.queue i, op.cu < cfg.numCollectors

/-- The matching leaves no bank out that asks for a collector. -/
theorem inmatch_isSome (h : NamesCollectors cfg a) {i : Nat} (hi : i < cfg.numBanks) :
    (a.inmatch cfg i).isSome = true ↔
      a.allocatedBank i = .writeAlloc ∨ a.queue i ≠ [] := by
  have hloop : ∀ n (inmatch : Nat → Option Nat),
      ((List.range n).foldl (fun inmatch p =>
        diagonal cfg a.request ((a.lastCu + p) % cfg.numCollectors) inmatch) inmatch i).isSome =
          true ↔ (inmatch i).isSome = true ∨ ∃ p, p < n ∧
            a.request i (((a.lastCu + p) % cfg.numCollectors + i) % cfg.numCollectors) = true := by
    intro n inmatch
    induction n with
    | zero => simp
    | succ n ih =>
      rw [List.range_succ, List.foldl_append, List.foldl_cons, List.foldl_nil,
        diagonal_apply _ (Nat.mod_lt _ cfg.numCollectors_pos)]
      split
      · rename_i hreq
        simp only [Option.isSome_some, true_iff]
        exact .inr ⟨n, Nat.lt_succ_self n, hreq.2.2⟩
      · rename_i hreq
        rw [ih]
        refine or_congr_right' fun hnone => ⟨?_, ?_⟩
        · rintro ⟨p, hp, hr⟩
          exact ⟨p, Nat.lt_succ_of_lt hp, hr⟩
        · rintro ⟨p, hp, hr⟩
          rcases Nat.lt_succ_iff_lt_or_eq.mp hp with hp | rfl
          · exact ⟨p, hp, hr⟩
          · -- the last diagonal did not match: an earlier one had
            by_contra hn
            apply hreq
            refine ⟨hi, ?_, hr⟩
            rw [← Option.not_isSome_iff_eq_none, ih]
            exact fun hor => hor.elim hnone hn
  rw [inmatch, hloop]
  have hinit : ((if a.allocatedBank i = .writeAlloc then some 0 else none : Option Nat).isSome =
      true) ↔ a.allocatedBank i = .writeAlloc := by
    split <;> simp [*]
  rw [hinit]
  refine or_congr_right ⟨?_, fun hne => ?_⟩
  · rintro ⟨p, -, hr⟩ hnil
    simp [request, hnil] at hr
  · obtain ⟨op, rest, hq⟩ := List.exists_cons_of_ne_nil hne
    obtain ⟨p, hp, hdiag⟩ := exists_diagonal cfg a.lastCu i
      (h i hi op (hq ▸ List.mem_cons_self))
    refine ⟨p, hp.trans_le (le_max_right _ _), ?_⟩
    rw [hdiag]
    simp [request, hq]

/-! ### The grants -/

/-- The banks that have a read and are not written, from the lowest on. -/
def readyBanks (cfg : ArbiterConfig) (a : Arbiter) : List Nat :=
  (List.range cfg.numBanks).filter fun bank =>
    decide (a.queue bank ≠ [] ∧ a.allocatedBank bank ≠ .writeAlloc)

/-- The banks that a call with some limit reads. -/
def grantedBanks (cfg : ArbiterConfig) (a : Arbiter) (maxGrants : Nat) : List Nat :=
  (a.readyBanks cfg).take maxGrants

/-- The arbiter without the heads of some banks. -/
def popped (a : Arbiter) (banks : List Nat) : Arbiter :=
  { a with queue := fun bank => if bank ∈ banks then (a.queue bank).tail else a.queue bank }

/-- The reads at the heads of some banks. -/
def heads (a : Arbiter) (banks : List Nat) : List ReadOp :=
  banks.filterMap fun bank => (a.queue bank).head?

theorem grant_loop (maxGrants : Nat) {matched : Nat → Option Nat} {banks : List Nat}
    (hnodup : banks.Nodup)
    (hmatched : ∀ i ∈ banks, (matched i).isSome = true ↔
      a.allocatedBank i = .writeAlloc ∨ a.queue i ≠ []) :
    let granted := (banks.filter fun bank =>
      decide (a.queue bank ≠ [] ∧ a.allocatedBank bank ≠ .writeAlloc)).take maxGrants
    banks.foldl (grantStep matched maxGrants) ([], a) = (a.heads granted, a.popped granted) ∧
      (a.heads granted).length = granted.length := by
  induction banks using List.reverseRecOn with
  | nil => exact ⟨by simp [heads, popped], by simp [heads]⟩
  | append_singleton banks bank ih =>
    rw [List.nodup_append] at hnodup
    have hbank : bank ∉ banks := fun hmem =>
      hnodup.2.2 bank hmem bank (List.mem_singleton.mpr rfl) rfl
    obtain ⟨hih, hlen⟩ := ih hnodup.1 (fun i hi => hmatched i (List.mem_append_left _ hi))
    have hb := hmatched bank (List.mem_append_right _ (List.mem_singleton.mpr rfl))
    dsimp only at hih hlen ⊢
    rw [List.foldl_append, hih, List.foldl_cons, List.foldl_nil, List.filter_append]
    generalize hg : banks.filter (fun bank =>
      decide (a.queue bank ≠ [] ∧ a.allocatedBank bank ≠ .writeAlloc)) = ready at hlen ⊢
    have hready : bank ∉ ready.take maxGrants := by
      intro hmem
      rw [← hg] at hmem
      exact hbank (List.mem_filter.mp (List.mem_of_mem_take hmem)).1
    have hqueue : (a.popped (ready.take maxGrants)).queue bank = a.queue bank := if_neg hready
    unfold grantStep
    by_cases hasks : a.queue bank ≠ [] ∧ a.allocatedBank bank ≠ .writeAlloc
    · have hsome : (matched bank).isSome = true := hb.mpr (.inr hasks.1)
      have hfilter : ([bank].filter fun bank =>
          decide (a.queue bank ≠ [] ∧ a.allocatedBank bank ≠ .writeAlloc)) = [bank] :=
        List.filter_cons_of_pos (decide_eq_true hasks)
      rw [if_pos ⟨hsome, hasks.2⟩, hfilter]
      rw [List.length_take] at hlen
      by_cases hfull : maxGrants ≤ ready.length
      · rw [if_pos (by rw [hlen]; omega), List.take_append_of_le_length hfull]
        exact ⟨rfl, by rw [hlen, List.length_take]⟩
      · have htake : ready.take maxGrants = ready := List.take_of_length_le (by omega)
        have htake' : (ready ++ [bank]).take maxGrants = ready ++ [bank] :=
          List.take_of_length_le (by rw [List.length_append, List.length_singleton]; omega)
        rw [if_neg (by rw [hlen]; omega), htake']
        rw [htake] at hqueue hlen ⊢
        dsimp only
        rw [hqueue]
        obtain ⟨op, rest, hq⟩ := List.exists_cons_of_ne_nil hasks.1
        have hheads : a.heads (ready ++ [bank]) = a.heads ready ++ [op] := by
          simp [heads, List.filterMap_append, hq]
        rw [hheads, hq]
        dsimp only
        refine ⟨Prod.ext rfl ?_, ?_⟩
        · simp only [popped]
          congr 1
          funext j
          rcases eq_or_ne j bank with rfl | hne
          · simp [hq]
          · simp [hne]
        · rw [List.length_append, List.length_append, hlen]
          simp
          omega
    · have hfilter : ([bank].filter fun bank =>
          decide (a.queue bank ≠ [] ∧ a.allocatedBank bank ≠ .writeAlloc)) = [] :=
        List.filter_cons_of_neg (by simpa using hasks)
      rw [if_neg, hfilter, List.append_nil]
      · exact ⟨rfl, hlen⟩
      · rintro ⟨hsome, hnw⟩
        exact hasks ⟨(hb.mp hsome).resolve_left hnw, hnw⟩

/-- One call reads the heads of the first ready banks, up to the limit, and rotates the
priority. -/
theorem allocateReads_eq (h : NamesCollectors cfg a) (maxGrants : Nat) :
    a.allocateReads cfg maxGrants =
      .ok (a.heads (a.grantedBanks cfg maxGrants),
        { a.popped (a.grantedBanks cfg maxGrants) with
          lastCu := (a.lastCu + 1) % cfg.numCollectors }) := by
  have hreq : (List.range cfg.numBanks).all (fun i =>
      (a.queue i).head?.all fun op => decide (op.cu < cfg.numCollectors)) = true := by
    rw [List.all_eq_true]
    intro i hi
    rw [Option.all_eq_true]
    intro op hop
    exact decide_eq_true (h i (List.mem_range.mp hi) op (List.mem_of_mem_head? hop))
  unfold allocateReads
  rw [require_pass hreq]
  have hloop := grant_loop (a := { a with lastCu := (a.lastCu + 1) % cfg.numCollectors })
    maxGrants List.nodup_range
    (fun i hi => inmatch_isSome h (List.mem_range.mp hi))
  exact congrArg Except.ok hloop.1

end Arbiter

end FlashGpuSim
