import FlashGpuSim.OperandCollector.ReadLimit
import FlashGpuSim.OperandCollector.Collectors

/-!
What the history of the operand collector must look like, and the state that belongs to a
history: which instruction a collector holds, which of its operands have been read, which banks
were used in the cycle.
-/

namespace FlashGpuSim

open Lib

namespace OcEvent

/-- The instruction in a collector, with the operands read for it so far. -/
def inCollector (cuid : Nat) : List OcEvent → Option (OcInst × List ReadOp)
  | [] => none
  | .entered c inst :: earlier => if c = cuid then some (inst, []) else inCollector cuid earlier
  | .dispatched c _ :: earlier => if c = cuid then none else inCollector cuid earlier
  | .read op _ :: earlier =>
    if op.cu = cuid then (inCollector cuid earlier).map fun held => (held.1, op :: held.2)
    else inCollector cuid earlier
  | _ :: earlier => inCollector cuid earlier

/-- The banks read or written since `process_banks`. -/
def touched : List OcEvent → List Nat
  | [] => []
  | .read _ bank :: earlier => bank :: touched earlier
  | .written bank :: earlier => bank :: touched earlier
  | .processBanks :: _ => []
  | _ :: earlier => touched earlier

/-- The operands read since `begin_cycle`. -/
def readCount : List OcEvent → Nat
  | [] => 0
  | .read _ _ :: earlier => readCount earlier + 1
  | .beginCycle :: _ => 0
  | _ :: earlier => readCount earlier

end OcEvent

namespace CollectorConfig

variable (cfg : CollectorConfig)

/-- The collector is in the part of its set that belongs to the scheduler. -/
def OwnCollector (cuid schedId : Nat) : Prop :=
  ∃ set k, k < cfg.setSize set ∧ cuid = cfg.cuIndex set k ∧ k / cfg.cusPerSched set = schedId

/-- The bank is one of the scheduler's. -/
def OwnBank (bank schedId : Nat) : Prop :=
  schedId * cfg.banksPerSched ≤ bank ∧ bank < (schedId + 1) * cfg.banksPerSched

end CollectorConfig

namespace OcEvent

open CollectorConfig in
/-- What may happen after an earlier history. An instruction enters an empty collector, of its
own scheduler. An operand is read for the instruction in the collector, which it has not been
read for, from a bank not used in this cycle and within the limit. An instruction leaves when
each of its distinct sources has been read, each exactly once. -/
def Proper (cfg : CollectorConfig) (earlier : List OcEvent) : OcEvent → Prop
  | .entered cuid inst =>
    inCollector cuid earlier = none ∧
      (cfg.subCoreModel = true → cfg.OwnCollector cuid inst.schedId)
  | .read op bank =>
    bank < cfg.numBanks ∧ bank ∉ touched earlier ∧
      (0 < cfg.readLimit → (readCount earlier + 1) * cfg.bytesPerOperand ≤ cfg.readLimit) ∧
      ∃ inst reads, inCollector op.cu earlier = some (inst, reads) ∧
        (op.register : Int) ∈ inst.src ∧ op.register ∉ reads.map ReadOp.register ∧
        bank = cfg.registerBank op.register inst.warpId inst.schedId ∧
        (cfg.subCoreModel = true → cfg.OwnBank bank inst.schedId)
  | .written bank => bank < cfg.numBanks ∧ bank ∉ touched earlier
  | .dispatched cuid warp =>
    ∃ inst reads, warp = some inst ∧ inCollector cuid earlier = some (inst, reads) ∧
      (reads.map ReadOp.register).Nodup ∧
      ∀ register : Nat, register ∈ reads.map ReadOp.register ↔ (register : Int) ∈ inst.src
  | .beginCycle => True
  | .processBanks => True

/-- Every event of the history was proper when it happened. -/
def ProperLog (cfg : CollectorConfig) : List OcEvent → Prop
  | [] => True
  | e :: earlier => e.Proper cfg earlier ∧ ProperLog cfg earlier

theorem ProperLog.split {cfg : CollectorConfig} {later earlier : List OcEvent} {e : OcEvent}
    (h : ProperLog cfg (later ++ e :: earlier)) : e.Proper cfg earlier := by
  induction later with
  | nil => exact h.1
  | cons x later ih => exact ih h.2

end OcEvent

/-! ### The sources of an instruction -/

namespace CollectorConfig

variable {cfg : CollectorConfig}

theorem le_of_mem_sourcesFrom {src : List Int} {prev : List Nat} {n : Nat} {source : Nat × Nat}
    (h : source ∈ sourcesFrom prev n src) : n ≤ source.1 := by
  induction src generalizing prev n with
  | nil => simp [sourcesFrom] at h
  | cons r rest ih =>
    unfold sourcesFrom at h
    split at h
    · rcases List.mem_cons.mp h with rfl | h
      · exact le_rfl
      · exact Nat.le_of_succ_le (ih h)
    · exact Nat.le_of_succ_le (ih h)

theorem sourcesFrom_operands_nodup (src : List Int) (prev : List Nat) (n : Nat) :
    ((sourcesFrom prev n src).map Prod.fst).Nodup := by
  induction src generalizing prev n with
  | nil => simp [sourcesFrom]
  | cons r rest ih =>
    unfold sourcesFrom
    split
    · rw [List.map_cons, List.nodup_cons]
      refine ⟨fun hmem => ?_, ih _ _⟩
      obtain ⟨source, hsource, heq⟩ := List.mem_map.mp hmem
      have hle := le_of_mem_sourcesFrom hsource
      omega
    · exact ih _ _

theorem mem_sourcesFrom_registers {src : List Int} {prev : List Nat} {n register : Nat} :
    register ∈ (sourcesFrom prev n src).map Prod.snd ↔
      (register : Int) ∈ src ∧ register ∉ prev := by
  induction src generalizing prev n with
  | nil => simp [sourcesFrom]
  | cons r rest ih =>
    unfold sourcesFrom
    split
    · rename_i hnew
      obtain ⟨m, rfl⟩ := Int.eq_ofNat_of_zero_le hnew.1
      have hm : m ∉ prev := hnew.2
      rw [List.map_cons, List.mem_cons, ih]
      simp only [Int.toNat_natCast, List.mem_cons, Nat.cast_inj]
      constructor
      · rintro (rfl | ⟨hmem, hprev⟩)
        · exact ⟨.inl rfl, hm⟩
        · exact ⟨.inr hmem, fun hin => hprev (.inr hin)⟩
      · rintro ⟨rfl | hmem, hprev⟩
        · exact .inl rfl
        · rcases eq_or_ne register m with heq | hne
          · exact .inl heq
          · exact .inr ⟨hmem, fun hor => hor.elim hne hprev⟩
    · rename_i hnot
      rw [ih, List.mem_cons]
      refine and_congr_left fun hprev => ⟨.inr, ?_⟩
      rintro (rfl | hmem)
      · exact absurd ⟨Int.natCast_nonneg _, hprev⟩ hnot
      · exact hmem

theorem sourcesFrom_registers_nodup (src : List Int) (prev : List Nat) (n : Nat) :
    ((sourcesFrom prev n src).map Prod.snd).Nodup := by
  induction src generalizing prev n with
  | nil => simp [sourcesFrom]
  | cons r rest ih =>
    unfold sourcesFrom
    split
    · rw [List.map_cons, List.nodup_cons, mem_sourcesFrom_registers]
      exact ⟨fun h => h.2 List.mem_cons_self, ih _ _⟩
    · exact ih _ _

variable {cuid : Nat} {inst : OcInst} {op op' : ReadOp}

theorem collectOps_registers (cfg : CollectorConfig) (cuid : Nat) (inst : OcInst) :
    (cfg.collectOps cuid inst).map ReadOp.register =
      (sourcesFrom [] 0 inst.src).map Prod.snd := by
  simp [collectOps, Function.comp_def]

theorem collectOps_operands (cfg : CollectorConfig) (cuid : Nat) (inst : OcInst) :
    (cfg.collectOps cuid inst).map ReadOp.operand =
      (sourcesFrom [] 0 inst.src).map Prod.fst := by
  simp [collectOps, Function.comp_def]

theorem collectOps_operands_nodup (cfg : CollectorConfig) (cuid : Nat) (inst : OcInst) :
    ((cfg.collectOps cuid inst).map ReadOp.operand).Nodup := by
  rw [collectOps_operands]
  exact sourcesFrom_operands_nodup _ _ _

theorem collectOps_registers_nodup (cfg : CollectorConfig) (cuid : Nat) (inst : OcInst) :
    ((cfg.collectOps cuid inst).map ReadOp.register).Nodup := by
  rw [collectOps_registers]
  exact sourcesFrom_registers_nodup _ _ _

/-- The registers read are the distinct sources. -/
theorem mem_collectOps_registers {register : Nat} :
    register ∈ (cfg.collectOps cuid inst).map ReadOp.register ↔ (register : Int) ∈ inst.src := by
  rw [collectOps_registers, mem_sourcesFrom_registers]
  exact and_iff_left List.not_mem_nil

theorem collectOps_cu (h : op ∈ cfg.collectOps cuid inst) : op.cu = cuid := by
  obtain ⟨source, -, rfl⟩ := List.mem_map.mp h
  rfl

theorem collectOps_schedId (h : op ∈ cfg.collectOps cuid inst) : op.schedId = inst.schedId := by
  obtain ⟨source, -, rfl⟩ := List.mem_map.mp h
  rfl

theorem collectOps_bank (h : op ∈ cfg.collectOps cuid inst) :
    op.bank = cfg.registerBank op.register inst.warpId inst.schedId := by
  obtain ⟨source, -, rfl⟩ := List.mem_map.mp h
  rfl

/-- The operand number tells the reads of an instruction apart. -/
theorem collectOps_operand_inj (h : op ∈ cfg.collectOps cuid inst)
    (h' : op' ∈ cfg.collectOps cuid inst) (heq : op.operand = op'.operand) : op = op' :=
  List.inj_on_of_nodup_map (collectOps_operands_nodup cfg cuid inst) h h' heq

theorem collectOps_register_inj (h : op ∈ cfg.collectOps cuid inst)
    (h' : op' ∈ cfg.collectOps cuid inst) (heq : op.register = op'.register) : op = op' :=
  List.inj_on_of_nodup_map (collectOps_registers_nodup cfg cuid inst) h h' heq

/-! ### The banks of a scheduler -/

theorem banksPerSched_pos (cfg : CollectorConfig) (hsub : cfg.subCoreModel = true) :
    0 < cfg.banksPerSched := by
  have hdvd := Nat.dvd_of_mod_eq_zero (cfg.partition hsub).1
  exact Nat.div_pos (Nat.le_of_dvd cfg.numBanks_pos hdvd) cfg.numWarpScheds_pos

theorem registerBank_own (hsub : cfg.subCoreModel = true) (register warpId schedId : Nat) :
    cfg.OwnBank (cfg.registerBank register warpId schedId) schedId := by
  have hlt := Nat.mod_lt (register + warpId) (cfg.banksPerSched_pos hsub)
  unfold OwnBank registerBank
  rw [if_pos hsub, Nat.add_mul, Nat.one_mul]
  omega

theorem registerBank_lt (register warpId : Nat) {schedId : Nat}
    (hsched : cfg.subCoreModel = true → schedId < cfg.numWarpScheds) :
    cfg.registerBank register warpId schedId < cfg.numBanks := by
  cases hsub : cfg.subCoreModel with
  | false =>
    unfold registerBank
    rw [hsub]
    exact Nat.mod_lt _ cfg.numBanks_pos
  | true =>
    have hmul : cfg.numWarpScheds * cfg.banksPerSched = cfg.numBanks :=
      Nat.mul_div_cancel' (Nat.dvd_of_mod_eq_zero (cfg.partition hsub).1)
    have hle := Nat.mul_le_mul_right cfg.banksPerSched (Nat.succ_le_of_lt (hsched hsub))
    have hown := (registerBank_own hsub register warpId schedId).2
    rw [hmul] at hle
    exact hown.trans_le hle

theorem bankFits_registerBank (register warpId : Nat) {schedId : Nat}
    (hsched : cfg.subCoreModel = true → schedId < cfg.numWarpScheds) :
    cfg.bankFits (cfg.registerBank register warpId schedId) = true := by
  simp [bankFits, registerBank_lt register warpId hsched]

end CollectorConfig

/-! ### The state of a history -/

namespace CollectorUnit

structure Idle (c : CollectorUnit) : Prop where
  free : c.free = true
  warp : c.warp = none
  srcOp : c.srcOp = []
  notReady : c.notReady = []

/-- The collector holds the instruction; these operands have been read. -/
structure Holds (cfg : CollectorConfig) (cuid : Nat) (c : CollectorUnit) (inst : OcInst)
    (reads : List ReadOp) : Prop where
  busy : c.free = false
  cuid_lt : cuid < cfg.numCollectors
  warp : c.warp = some inst
  warpId : c.warpId = inst.warpId
  output : ∃ output, c.output = some output ∧
    (cfg.subCoreModel = true → cfg.numWarpScheds ≤ cfg.regSize output)
  srcOp : c.srcOp = cfg.collectOps cuid inst
  own : cfg.subCoreModel = true → inst.schedId = cfg.regId cuid ∧ inst.schedId < cfg.numWarpScheds
  reads_nodup : reads.Nodup
  mem_reads : ∀ op, op ∈ reads ↔ op ∈ c.srcOp ∧ op.operand ∉ c.notReady

/-- The collector is as the history says. -/
def Agrees (cfg : CollectorConfig) (cuid : Nat) (c : CollectorUnit) :
    Option (OcInst × List ReadOp) → Prop
  | none => c.Idle
  | some (inst, reads) => c.Holds cfg cuid inst reads

variable {cfg : CollectorConfig} {cuid : Nat} {c : CollectorUnit}
  {held : Option (OcInst × List ReadOp)}

theorem Agrees.idle (h : c.Agrees cfg cuid held) (hfree : c.free = true) :
    held = none ∧ c.Idle := by
  cases held with
  | none => exact ⟨rfl, h⟩
  | some held =>
    have hbusy := Holds.busy h
    rw [hfree] at hbusy
    cases hbusy

theorem Agrees.holds (h : c.Agrees cfg cuid held) (hbusy : c.free = false) :
    ∃ inst reads, held = some (inst, reads) ∧ c.Holds cfg cuid inst reads := by
  cases held with
  | none =>
    have hfree := Idle.free h
    rw [hbusy] at hfree
    cases hfree
  | some held => exact ⟨held.1, held.2, rfl, h⟩

/-- A read that is set belongs to the instruction held. -/
theorem Agrees.of_mem_srcOp (h : c.Agrees cfg cuid held) {op : ReadOp} (hop : op ∈ c.srcOp) :
    ∃ inst reads, held = some (inst, reads) ∧ c.Holds cfg cuid inst reads ∧
      op ∈ cfg.collectOps cuid inst := by
  cases hfree : c.free with
  | true =>
    rw [(h.idle hfree).2.srcOp] at hop
    exact absurd hop List.not_mem_nil
  | false =>
    obtain ⟨inst, reads, hheld, hholds⟩ := h.holds hfree
    exact ⟨inst, reads, hheld, hholds, hholds.srcOp ▸ hop⟩

end CollectorUnit

namespace OpndcollRfu

open OcEvent

/-- The read is queued: its collector has it set and has not got it. -/
def Awaits (u : OpndcollRfu) (op : ReadOp) : Prop :=
  op ∈ (u.cu op.cu).srcOp ∧ op.operand ∈ (u.cu op.cu).notReady

/-- The state fits its history. -/
structure Sound (cfg : CollectorConfig) (u : OpndcollRfu) : Prop where
  cu : ∀ cuid, (u.cu cuid).Agrees cfg cuid (inCollector cuid u.log)
  regs_length : ∀ set, (u.regs set).length = cfg.regSize set
  slots : cfg.subCoreModel = true → ∀ set slot inst, (u.regs set)[slot]? = some (some inst) →
    inst.schedId = slot ∧ slot < cfg.numWarpScheds
  queue : ∀ bank op, op ∈ u.port.arbiter.queue bank ↔ u.Awaits op ∧ op.bank = bank
  queue_nodup : ∀ bank, (u.port.arbiter.queue bank).Nodup
  mem_touched : ∀ bank, bank ∈ touched u.log ↔ u.port.arbiter.allocatedBank bank ≠ .noAlloc
  allocated_lt : ∀ bank, u.port.arbiter.allocatedBank bank ≠ .noAlloc → bank < cfg.numBanks
  bytes : 0 < cfg.readLimit →
    readCount u.log * cfg.bytesPerOperand + u.port.bytesRemaining ≤ cfg.readLimit
  proper : ProperLog cfg u.log

variable {cfg : CollectorConfig} {u : OpndcollRfu}

theorem sound_init (cfg : CollectorConfig) : (init cfg).Sound cfg where
  cu _ := ⟨rfl, rfl, rfl, rfl⟩
  regs_length _ := List.length_replicate
  slots _ set slot inst h := by
    have hmem := List.eq_of_mem_replicate (List.mem_of_getElem? h)
    cases hmem
  queue bank op := by simp [init, ReadPort.init, Arbiter.init, Awaits]
  queue_nodup _ := .nil
  mem_touched bank := by simp [init, ReadPort.init, Arbiter.init, touched]
  allocated_lt bank h := absurd rfl h
  bytes _ := by simp [init, ReadPort.init, readCount]
  proper := trivial

/-- A queued read is one of the instruction in its collector. -/
theorem Sound.of_queued (h : u.Sound cfg) {bank : Nat} {op : ReadOp}
    (hop : op ∈ u.port.arbiter.queue bank) :
    ∃ inst reads, inCollector op.cu u.log = some (inst, reads) ∧
      (u.cu op.cu).Holds cfg op.cu inst reads ∧ op ∈ cfg.collectOps op.cu inst ∧
      op.operand ∈ (u.cu op.cu).notReady ∧ op.bank = bank := by
  obtain ⟨⟨hsrc, hnot⟩, hbank⟩ := (h.queue bank op).mp hop
  obtain ⟨inst, reads, hheld, hholds, hmem⟩ := (h.cu op.cu).of_mem_srcOp hsrc
  exact ⟨inst, reads, hheld, hholds, hmem, hnot, hbank⟩

theorem Sound.namesCollectors (h : u.Sound cfg) :
    u.port.arbiter.NamesCollectors cfg.toArbiterConfig := by
  intro bank _ op hop
  obtain ⟨inst, reads, -, hholds, -⟩ := h.of_queued hop
  exact hholds.cuid_lt

theorem Sound.banked (h : u.Sound cfg) : u.port.arbiter.Banked cfg.toArbiterConfig :=
  fun bank _ op hop => ((h.queue bank op).mp hop).2

/-- `allocate_reads` computes the bank whose queue the read is in. -/
theorem Sound.bankOf_eq (h : u.Sound cfg) {bank : Nat} {op : ReadOp}
    (hop : op ∈ u.port.arbiter.queue bank) : u.bankOf cfg op = op.bank := by
  obtain ⟨inst, reads, -, hholds, hmem, -⟩ := h.of_queued hop
  unfold bankOf
  rw [hholds.warpId, CollectorConfig.collectOps_schedId hmem, CollectorConfig.collectOps_bank hmem]

end OpndcollRfu

end FlashGpuSim
