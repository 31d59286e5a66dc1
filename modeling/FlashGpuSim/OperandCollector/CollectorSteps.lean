import FlashGpuSim.OperandCollector.CollectorHistory

/-!
Each operation of the operand collector keeps the state and the history in agreement: an
instruction that enters a collector, one that is dispatched, the reads of a cycle and the writes.
-/

namespace FlashGpuSim

open Lib

namespace OpndcollRfu

open OcEvent

variable {cfg : CollectorConfig} {u : OpndcollRfu}

/-! ### An instruction enters a collector -/

/-- The state after an instruction entered a collector. -/
def afterEntry (cfg : CollectorConfig) (u : OpndcollRfu) (cuid : Nat) (io : Nat × Nat)
    (slot : Nat) (inst : OcInst) : OpndcollRfu :=
  { u with
    port := { u.port with
      arbiter := u.port.arbiter.addReadRequests (cfg.collectOps cuid inst) }
    cu := Function.update u.cu cuid
      { free := false, warp := some inst, warpId := inst.warpId, output := some io.2,
        srcOp := cfg.collectOps cuid inst
        notReady := (cfg.collectOps cuid inst).map ReadOp.operand }
    regs := Function.update u.regs io.1 ((u.regs io.1).set slot none)
    log := .entered cuid inst :: u.log }

variable {cuid slot : Nat} {io : Nat × Nat} {inst : OcInst}

/-- What must hold for a head to enter a collector. -/
structure Enters (cfg : CollectorConfig) (u : OpndcollRfu) (cuid : Nat) (io : Nat × Nat)
    (slot : Nat) (inst : OcInst) : Prop where
  free : (u.cu cuid).free = true
  cuid_lt : cuid < cfg.numCollectors
  head : (u.regs io.1).getReady cfg.subCoreModel (cfg.regId cuid) = .ok (some (slot, inst))
  own : cfg.subCoreModel = true → inst.schedId = cfg.regId cuid ∧ inst.schedId < cfg.numWarpScheds
  collector : cfg.subCoreModel = true → cfg.OwnCollector cuid inst.schedId
  output : cfg.subCoreModel = true → cfg.numWarpScheds ≤ cfg.regSize io.2

theorem Enters.allocateAt_ok (he : Enters cfg u cuid io slot inst) (h : u.Sound cfg) :
    u.allocateAt cfg cuid io = .ok (true, u.afterEntry cfg cuid io slot inst) := by
  have hidle := ((h.cu cuid).idle he.free).2
  have hempty : (u.cu cuid).notReady.isEmpty = true := by rw [hidle.notReady]; rfl
  have hnone : (u.cu cuid).warp.isNone = true := by rw [hidle.warp]; rfl
  have howned : (!cfg.subCoreModel || decide (inst.schedId = cfg.regId cuid)) = true := by
    cases hsub : cfg.subCoreModel with
    | false => rfl
    | true => exact decide_eq_true (he.own hsub).1
  have hfits : ((cfg.collectOps cuid inst).all fun op => cfg.bankFits op.bank) = true := by
    rw [List.all_eq_true]
    intro op hop
    rw [CollectorConfig.collectOps_bank hop]
    exact CollectorConfig.bankFits_registerBank _ _ fun hsub => (he.own hsub).2
  unfold allocateAt CollectorUnit.allocate
  rw [require_pass he.free, require_pass hempty, he.head]
  simp only [bind, Except.bind]
  rw [require_pass howned, require_pass hfits, require_pass hnone]
  rfl

theorem inCollector_entered (cuid : Nat) (inst : OcInst) (log : List OcEvent) :
    inCollector cuid (.entered cuid inst :: log) = some (inst, []) := if_pos rfl

theorem inCollector_entered_of_ne {c cuid : Nat} (hne : c ≠ cuid) (inst : OcInst)
    (log : List OcEvent) : inCollector c (.entered cuid inst :: log) = inCollector c log :=
  if_neg hne.symm

theorem Enters.sound (he : Enters cfg u cuid io slot inst) (h : u.Sound cfg) :
    (u.afterEntry cfg cuid io slot inst).Sound cfg := by
  obtain ⟨hheld, hidle⟩ := (h.cu cuid).idle he.free
  have hnew : ∀ op ∈ cfg.collectOps cuid inst, ¬ u.Awaits op := by
    intro op hop hawaits
    have hsrc := hawaits.1
    rw [CollectorConfig.collectOps_cu hop, hidle.srcOp] at hsrc
    exact List.not_mem_nil hsrc
  have hawaits : ∀ op, (u.afterEntry cfg cuid io slot inst).Awaits op ↔
      u.Awaits op ∨ op ∈ cfg.collectOps cuid inst := by
    intro op
    unfold Awaits afterEntry
    rcases eq_or_ne op.cu cuid with heq | hne
    · have hnone : op ∉ (u.cu op.cu).srcOp := by rw [heq, hidle.srcOp]; exact List.not_mem_nil
      rw [heq] at hnone
      simp only [heq, Function.update_self, hnone, false_and, false_or, and_iff_left_iff_imp]
      exact fun hop => List.mem_map_of_mem hop
    · have hnot : op ∉ cfg.collectOps cuid inst := fun hop =>
        hne (CollectorConfig.collectOps_cu hop)
      simp only [Function.update_of_ne hne, hnot, or_false]
  have hqueue : ∀ bank, (u.afterEntry cfg cuid io slot inst).port.arbiter.queue bank =
      u.port.arbiter.queue bank ++ (cfg.collectOps cuid inst).filter (fun op => op.bank = bank) :=
    Arbiter.addReadRequests_queue _ _
  refine ⟨?_, ?_, ?_, ?_, ?_, ?_, ?_, ?_, ?_⟩
  · intro c
    rcases eq_or_ne c cuid with rfl | hne
    · show CollectorUnit.Agrees cfg c (Function.update u.cu c _ c) (inCollector c (_ :: u.log))
      rw [inCollector_entered, Function.update_self]
      exact {
        busy := rfl
        cuid_lt := he.cuid_lt
        warp := rfl
        warpId := rfl
        output := ⟨io.2, rfl, he.output⟩
        srcOp := rfl
        own := he.own
        reads_nodup := .nil
        mem_reads := fun op => by
          simp only [List.not_mem_nil, false_iff, not_and, not_not]
          exact fun hop => List.mem_map_of_mem hop }
    · show CollectorUnit.Agrees cfg c (Function.update u.cu cuid _ c) (inCollector c (_ :: u.log))
      rw [inCollector_entered_of_ne hne, Function.update_of_ne hne]
      exact h.cu c
  · intro set
    show (Function.update u.regs io.1 _ set).length = _
    rcases eq_or_ne set io.1 with rfl | hne
    · rw [Function.update_self, List.length_set, h.regs_length]
    · rw [Function.update_of_ne hne, h.regs_length]
  · intro hsub set slot' inst' hslot
    have hslot' : (Function.update u.regs io.1 ((u.regs io.1).set slot none) set)[slot']? =
        some (some inst') := hslot
    rcases eq_or_ne set io.1 with rfl | hne
    · rw [Function.update_self, List.getElem?_set] at hslot'
      split at hslot'
      · split at hslot' <;> cases hslot'
      · exact h.slots hsub _ _ _ hslot'
    · rw [Function.update_of_ne hne] at hslot'
      exact h.slots hsub _ _ _ hslot'
  · intro bank op
    rw [hqueue, List.mem_append, h.queue, hawaits, List.mem_filter, decide_eq_true_eq]
    exact or_and_right.symm
  · intro bank
    rw [hqueue]
    have hops : (cfg.collectOps cuid inst).Nodup :=
      List.Nodup.of_map _ (CollectorConfig.collectOps_operands_nodup cfg cuid inst)
    refine List.Nodup.append (h.queue_nodup bank) (hops.filter _) ?_
    intro op hop hop'
    exact hnew op (List.mem_filter.mp hop').1 ((h.queue bank op).mp hop).1
  · exact h.mem_touched
  · exact h.allocated_lt
  · exact h.bytes
  · exact ⟨⟨hheld, he.collector⟩, h.proper⟩

/-! ### An instruction leaves a collector -/

theorem getElem?_of_getD_isNone {regs : RegisterSet} {slot : Nat} (hlt : slot < regs.length)
    (hnone : (regs.getD slot none).isNone = true) : regs[slot]? = some none := by
  rw [List.getD_eq_getElem?_getD, List.getElem?_eq_getElem hlt] at hnone
  rw [List.getElem?_eq_getElem hlt]
  exact congrArg some (Option.isNone_iff_eq_none.mp hnone)

/-- A set with a free register has a place for `move_in`. -/
theorem getFree_ok {regs : RegisterSet} {subCoreModel : Bool} {regId : Nat}
    (hfree : regs.hasFree subCoreModel regId = .ok true) :
    ∃ slot, regs.getFree subCoreModel regId = .ok slot ∧ regs[slot]? = some none ∧
      (subCoreModel = true → slot = regId) := by
  cases subCoreModel with
  | true =>
    unfold RegisterSet.hasFree at hfree
    obtain ⟨_, hlt, hnone⟩ := bind_eq_ok hfree
    have hlt := require_ok hlt
    have hnone : (regs.getD regId none).isNone = true := Except.ok.inj hnone
    refine ⟨regId, ?_, getElem?_of_getD_isNone hlt hnone, fun _ => rfl⟩
    unfold RegisterSet.getFree
    rw [if_pos rfl, require_pass (decide_eq_true hlt), require_pass hnone]
    rfl
  | false =>
    have hany : regs.any Option.isNone = true := Except.ok.inj hfree
    unfold RegisterSet.getFree
    cases hfind : regs.findIdx? Option.isNone with
    | none =>
      rw [List.findIdx?_eq_none_iff] at hfind
      obtain ⟨reg, hreg, hnone⟩ := List.any_eq_true.mp hany
      rw [hfind reg hreg] at hnone
      cases hnone
    | some slot =>
      obtain ⟨hlt, hnone, -⟩ := List.findIdx?_eq_some_iff_getElem.mp hfind
      refine ⟨slot, rfl, ?_, fun h => nomatch h⟩
      rw [List.getElem?_eq_getElem hlt, Option.isNone_iff_eq_none.mp hnone]

/-- A collector that may be dispatched: its instruction is complete and its output has a free
register. -/
structure Leaves (cfg : CollectorConfig) (u : OpndcollRfu) (cuid : Nat) (inst : OcInst)
    (reads : List ReadOp) (out slot : Nat) : Prop where
  held : inCollector cuid u.log = some (inst, reads)
  holds : (u.cu cuid).Holds cfg cuid inst reads
  complete : (u.cu cuid).notReady = []
  output : (u.cu cuid).output = some out
  free : (u.regs out).getFree cfg.subCoreModel (cfg.regId cuid) = .ok slot
  own : cfg.subCoreModel = true → slot = cfg.regId cuid

/-- `ready` does not fail, and what is ready may be dispatched. -/
theorem Sound.ready_ok (h : u.Sound cfg) (cuid : Nat) :
    ∃ r, (u.cu cuid).ready cfg cuid u.regs = .ok r ∧
      (r = true → ∃ inst reads output slot, u.Leaves cfg cuid inst reads output slot) := by
  unfold CollectorUnit.ready
  cases hbusy : (u.cu cuid).free with
  | true => exact ⟨false, rfl, fun h => nomatch h⟩
  | false =>
    cases hnot : (u.cu cuid).notReady.isEmpty with
    | false => exact ⟨false, rfl, fun h => nomatch h⟩
    | true =>
      obtain ⟨inst, reads, hheld, hholds⟩ := (h.cu cuid).holds hbusy
      obtain ⟨output, houtput, hwide⟩ := hholds.output
      rw [houtput]
      dsimp only [Bool.not_true, Bool.or_false]
      rw [if_neg (by simp)]
      have hleaves : (u.regs output).hasFree cfg.subCoreModel (cfg.regId cuid) = .ok true →
          ∃ inst reads output slot, u.Leaves cfg cuid inst reads output slot := by
        intro hfree
        obtain ⟨slot, hslot, -, hown⟩ := getFree_ok hfree
        exact ⟨inst, reads, output, slot, hheld, hholds, List.isEmpty_iff.mp hnot, houtput, hslot,
          hown⟩
      have hok : ∃ r, (u.regs output).hasFree cfg.subCoreModel (cfg.regId cuid) = .ok r := by
        unfold RegisterSet.hasFree
        cases hsub : cfg.subCoreModel with
        | false => exact ⟨_, rfl⟩
        | true =>
          have hlt : cfg.regId cuid < (u.regs output).length := by
            rw [h.regs_length, ← (hholds.own hsub).1]
            exact (hholds.own hsub).2.trans_le (hwide hsub)
          rw [if_pos rfl, require_pass (decide_eq_true hlt)]
          exact ⟨_, rfl⟩
      obtain ⟨r, hr⟩ := hok
      refine ⟨r, hr, fun htrue => ?_⟩
      rw [htrue] at hr
      exact hleaves hr

/-- The state after a collector was dispatched by a dispatch unit. -/
def afterDispatch (u : OpndcollRfu) (unit cuid k output slot : Nat) : OpndcollRfu :=
  { u with
    cu := Function.update u.cu cuid
      { u.cu cuid with free := true, warp := none, output := none, srcOp := [] }
    regs := Function.update u.regs output ((u.regs output).set slot (u.cu cuid).warp)
    lastCu := Function.update u.lastCu unit k
    log := .dispatched cuid (u.cu cuid).warp :: u.log }

variable {reads : List ReadOp} {output unit k : Nat}

theorem Leaves.dispatch_ok (hl : Leaves cfg u cuid inst reads output slot) :
    (u.cu cuid).dispatch cfg cuid u.regs =
      .ok ({ u.cu cuid with free := true, warp := none, output := none, srcOp := [] },
        Function.update u.regs output ((u.regs output).set slot (u.cu cuid).warp)) := by
  have hempty : (u.cu cuid).notReady.isEmpty = true := by rw [hl.complete]; rfl
  unfold CollectorUnit.dispatch RegisterSet.moveIn
  rw [require_pass hempty, hl.output]
  simp only [bind, Except.bind]
  rw [hl.free]
  rfl

theorem inCollector_dispatched (cuid : Nat) (warp : Option OcInst) (log : List OcEvent) :
    inCollector cuid (.dispatched cuid warp :: log) = none := if_pos rfl

theorem inCollector_dispatched_of_ne {c cuid : Nat} (hne : c ≠ cuid) (warp : Option OcInst)
    (log : List OcEvent) : inCollector c (.dispatched cuid warp :: log) = inCollector c log :=
  if_neg hne.symm

/-- A complete instruction was read once for each of its distinct sources. -/
theorem Leaves.proper (hl : Leaves cfg u cuid inst reads output slot) :
    (OcEvent.dispatched cuid (u.cu cuid).warp).Proper cfg u.log := by
  have hperm : reads.Perm (cfg.collectOps cuid inst) := by
    refine (List.perm_ext_iff_of_nodup hl.holds.reads_nodup ?_).mpr fun op => ?_
    · exact List.Nodup.of_map _ (CollectorConfig.collectOps_operands_nodup cfg cuid inst)
    · rw [hl.holds.mem_reads, hl.complete, hl.holds.srcOp]
      exact and_iff_left List.not_mem_nil
  refine ⟨inst, reads, hl.holds.warp, hl.held, ?_, fun register => ?_⟩
  · exact (hperm.map _).nodup_iff.mpr (CollectorConfig.collectOps_registers_nodup cfg cuid inst)
  · rw [(hperm.map ReadOp.register).mem_iff]
    exact CollectorConfig.mem_collectOps_registers

theorem Leaves.sound (hl : Leaves cfg u cuid inst reads output slot) (h : u.Sound cfg)
    (unit k : Nat) : (u.afterDispatch unit cuid k output slot).Sound cfg := by
  have hawaits : ∀ op, (u.afterDispatch unit cuid k output slot).Awaits op ↔ u.Awaits op := by
    intro op
    unfold Awaits afterDispatch
    rcases eq_or_ne op.cu cuid with heq | hne
    · simp [heq, hl.complete]
    · simp only [Function.update_of_ne hne]
  refine ⟨?_, ?_, ?_, ?_, h.queue_nodup, h.mem_touched, h.allocated_lt, h.bytes,
    ⟨hl.proper, h.proper⟩⟩
  · intro c
    rcases eq_or_ne c cuid with rfl | hne
    · show CollectorUnit.Agrees cfg c (Function.update u.cu c _ c) (inCollector c (_ :: u.log))
      rw [inCollector_dispatched, Function.update_self]
      exact ⟨rfl, rfl, rfl, hl.complete⟩
    · show CollectorUnit.Agrees cfg c (Function.update u.cu cuid _ c) (inCollector c (_ :: u.log))
      rw [inCollector_dispatched_of_ne hne, Function.update_of_ne hne]
      exact h.cu c
  · intro set
    show (Function.update u.regs output _ set).length = _
    rcases eq_or_ne set output with rfl | hne
    · rw [Function.update_self, List.length_set, h.regs_length]
    · rw [Function.update_of_ne hne, h.regs_length]
  · intro hsub set slot' inst' hslot
    have hslot : (Function.update u.regs output
        ((u.regs output).set slot (u.cu cuid).warp) set)[slot']? = some (some inst') := hslot
    rcases eq_or_ne set output with rfl | hne
    · rw [Function.update_self, List.getElem?_set] at hslot
      split at hslot
      · rename_i heq
        split at hslot
        · rw [hl.holds.warp] at hslot
          cases hslot
          obtain ⟨hown, hlt⟩ := hl.holds.own hsub
          rw [← heq, hl.own hsub, ← hown]
          exact ⟨rfl, hlt⟩
        · cases hslot
      · exact h.slots hsub _ _ _ hslot
    · rw [Function.update_of_ne hne] at hslot
      exact h.slots hsub _ _ _ hslot
  · intro bank op
    rw [hawaits]
    exact h.queue bank op

/-! ### The reads of a cycle -/

/-- The history after some reads. -/
def readLog (bankOf : ReadOp → Nat) (ops : List ReadOp) (log : List OcEvent) : List OcEvent :=
  (ops.map fun op => OcEvent.read op (bankOf op)).reverse ++ log

variable {bankOf : ReadOp → Nat} {ops : List ReadOp} {log : List OcEvent}

theorem readLog_concat (op : ReadOp) :
    readLog bankOf (ops ++ [op]) log = .read op (bankOf op) :: readLog bankOf ops log := by
  simp [readLog]

theorem inCollector_readLog (cuid : Nat) :
    inCollector cuid (readLog bankOf ops log) = (inCollector cuid log).map fun held =>
      (held.1, (ops.filter (fun op => op.cu = cuid)).reverse ++ held.2) := by
  induction ops using List.reverseRecOn with
  | nil => simp [readLog]
  | append_singleton ops op ih =>
    rw [readLog_concat, inCollector, ih]
    split
    · rename_i hcu
      simp [hcu, Function.comp_def]
    · rename_i hcu
      simp [hcu]

theorem touched_readLog :
    touched (readLog bankOf ops log) = (ops.map bankOf).reverse ++ touched log := by
  induction ops using List.reverseRecOn with
  | nil => simp [readLog]
  | append_singleton ops op ih => simp [readLog_concat, touched, ih]

theorem readCount_readLog :
    readCount (readLog bankOf ops log) = ops.length + readCount log := by
  induction ops using List.reverseRecOn with
  | nil => simp [readLog]
  | append_singleton ops op ih =>
    rw [readLog_concat, readCount, ih, List.length_append, List.length_singleton]
    omega

/-- `collect_operand` clears the bits of the operands read. -/
theorem mem_collect_notReady (cu : Nat → CollectorUnit) (ops : List ReadOp) (cuid operand : Nat) :
    operand ∈ (collect cu ops cuid).notReady ↔
      operand ∈ (cu cuid).notReady ∧ ∀ op ∈ ops, op.cu = cuid → op.operand ≠ operand := by
  unfold collect
  induction ops generalizing cu with
  | nil => simp
  | cons op rest ih =>
    rw [List.foldl_cons, ih]
    rcases eq_or_ne op.cu cuid with heq | hne
    · simp only [heq, Function.update_self, CollectorUnit.collectOperand, List.mem_filter,
        decide_eq_true_eq, List.forall_mem_cons, true_implies, and_assoc, ne_comm (a := operand)]
    · simp [Function.update_of_ne hne.symm, hne]

theorem collect_eq (cu : Nat → CollectorUnit) (ops : List ReadOp) (cuid : Nat) :
    collect cu ops cuid = { cu cuid with notReady := (collect cu ops cuid).notReady } := by
  unfold collect
  induction ops generalizing cu with
  | nil => rfl
  | cons op rest ih =>
    rw [List.foldl_cons, ih]
    rcases eq_or_ne op.cu cuid with heq | hne
    · rw [heq, Function.update_self]
      rfl
    · rw [Function.update_of_ne hne.symm]

/-- The reads that `allocate_reads` takes from the queues. -/
def granted (cfg : CollectorConfig) (u : OpndcollRfu) : List ReadOp :=
  u.port.arbiter.heads (u.port.readBanks cfg.toReadPortConfig)

theorem mem_granted {op : ReadOp} : op ∈ u.granted cfg ↔
    ∃ bank ∈ u.port.readBanks cfg.toReadPortConfig,
      (u.port.arbiter.queue bank).head? = some op :=
  Arbiter.mem_heads

theorem Sound.queued_of_granted (h : u.Sound cfg) {op : ReadOp} (hop : op ∈ u.granted cfg) :
    op ∈ u.port.arbiter.queue op.bank ∧ op.bank ∈ u.port.readBanks cfg.toReadPortConfig := by
  obtain ⟨bank, hbank, hhead⟩ := mem_granted.mp hop
  have hmem := List.mem_of_mem_head? hhead
  have heq := ((h.queue bank op).mp hmem).2
  rw [heq]
  exact ⟨hmem, hbank⟩

theorem Sound.map_bank_granted (h : u.Sound cfg) :
    (u.granted cfg).map ReadOp.bank = u.port.readBanks cfg.toReadPortConfig := by
  refine Arbiter.map_bank_heads h.banked fun bank hbank => ?_
  obtain ⟨hlt, hne, -⟩ := Arbiter.grantedBanks_sub hbank
  exact ⟨hlt, hne⟩

theorem Sound.map_bankOf_granted (h : u.Sound cfg) :
    (u.granted cfg).map (u.bankOf cfg) = u.port.readBanks cfg.toReadPortConfig := by
  rw [← h.map_bank_granted]
  exact List.map_congr_left fun op hop => h.bankOf_eq (h.queued_of_granted hop).1

theorem Sound.granted_nodup (h : u.Sound cfg) : (u.granted cfg).Nodup := by
  refine List.Nodup.of_map ReadOp.bank ?_
  rw [h.map_bank_granted]
  exact Arbiter.grantedBanks_nodup _

/-- Two set reads of one collector for one operand are the same. -/
theorem Sound.srcOp_inj (h : u.Sound cfg) {cuid : Nat} {op op' : ReadOp}
    (hop : op ∈ (u.cu cuid).srcOp) (hop' : op' ∈ (u.cu cuid).srcOp)
    (heq : op.operand = op'.operand) : op = op' := by
  obtain ⟨inst, reads, -, hholds, hmem⟩ := (h.cu cuid).of_mem_srcOp hop
  rw [hholds.srcOp] at hop'
  exact CollectorConfig.collectOps_operand_inj hmem hop' heq

/-- The state after `allocate_reads`. -/
def afterReads (cfg : CollectorConfig) (u : OpndcollRfu) (port : ReadPort) : OpndcollRfu :=
  { u with
    port
    cu := collect u.cu (u.granted cfg)
    log := readLog (u.bankOf cfg) (u.granted cfg) u.log }

theorem Sound.awaits_afterReads (h : u.Sound cfg) (port : ReadPort) (op : ReadOp) :
    (u.afterReads cfg port).Awaits op ↔ u.Awaits op ∧ op ∉ u.granted cfg := by
  have hsrc : ((u.afterReads cfg port).cu op.cu).srcOp = (u.cu op.cu).srcOp := by
    show (collect u.cu (u.granted cfg) op.cu).srcOp = _
    rw [collect_eq]
  unfold Awaits
  rw [hsrc]
  show _ ∧ op.operand ∈ (collect u.cu (u.granted cfg) op.cu).notReady ↔ _
  rw [mem_collect_notReady, and_assoc]
  refine and_congr_right fun hop => and_congr_right fun _ => ⟨fun hall hmem => ?_, ?_⟩
  · exact hall op hmem rfl rfl
  · intro hnot op' hop' hcu heq
    have hsrc' := ((h.queue _ _).mp (h.queued_of_granted hop').1).1.1
    rw [hcu] at hsrc'
    exact hnot (h.srcOp_inj hsrc' hop heq ▸ hop')

theorem Sound.agrees_afterReads (h : u.Sound cfg) (port : ReadPort) (cuid : Nat) :
    ((u.afterReads cfg port).cu cuid).Agrees cfg cuid
      (inCollector cuid (u.afterReads cfg port).log) := by
  show (collect u.cu (u.granted cfg) cuid).Agrees cfg cuid
    (inCollector cuid (readLog (u.bankOf cfg) (u.granted cfg) u.log))
  have hnot := mem_collect_notReady u.cu (u.granted cfg) cuid
  rw [inCollector_readLog, collect_eq]
  have hagrees := h.cu cuid
  cases hheld : inCollector cuid u.log with
  | none =>
    rw [hheld] at hagrees
    refine ⟨hagrees.free, hagrees.warp, hagrees.srcOp, ?_⟩
    rw [List.eq_nil_iff_forall_not_mem]
    intro operand hmem
    have hmem := ((hnot operand).mp hmem).1
    rw [hagrees.notReady] at hmem
    exact List.not_mem_nil hmem
  | some held =>
    obtain ⟨inst, reads⟩ := held
    rw [hheld] at hagrees
    have hsrc : ∀ op ∈ u.granted cfg, op.cu = cuid →
        op ∈ (u.cu cuid).srcOp ∧ op.operand ∈ (u.cu cuid).notReady := by
      rintro op hop rfl
      exact ((h.queue _ _).mp (h.queued_of_granted hop).1).1
    have hreads : ∀ op, op ∈ ((u.granted cfg).filter (fun op => op.cu = cuid)).reverse ++ reads ↔
        op ∈ u.granted cfg ∧ op.cu = cuid ∨ op ∈ reads := by
      intro op
      simp [List.mem_filter]
    exact {
      busy := hagrees.busy
      cuid_lt := hagrees.cuid_lt
      warp := hagrees.warp
      warpId := hagrees.warpId
      output := hagrees.output
      srcOp := hagrees.srcOp
      own := hagrees.own
      reads_nodup := by
        refine List.Nodup.append (List.nodup_reverse.mpr (h.granted_nodup.filter _))
          hagrees.reads_nodup ?_
        intro op hop hread
        have hop := List.mem_filter.mp (List.mem_reverse.mp hop)
        exact ((hagrees.mem_reads op).mp hread).2
          (hsrc op hop.1 (of_decide_eq_true hop.2)).2
      mem_reads := by
        intro op
        rw [hreads, hnot, hagrees.mem_reads]
        constructor
        · rintro (⟨hop, hcu⟩ | ⟨hop, hready⟩)
          · exact ⟨(hsrc op hop hcu).1, fun hall => hall.2 op hop hcu rfl⟩
          · exact ⟨hop, fun hall => hready hall.1⟩
        · rintro ⟨hop, hready⟩
          by_cases hmem : op.operand ∈ (u.cu cuid).notReady
          · -- not ready before, ready after: this operand was granted
            obtain ⟨op', hop', hcu, heq⟩ : ∃ op' ∈ u.granted cfg, op'.cu = cuid ∧
                op'.operand = op.operand := by
              by_contra hnone
              refine hready ⟨hmem, fun op' hop' hcu heq => hnone ⟨op', hop', hcu, heq⟩⟩
            have hsame := h.srcOp_inj (hsrc op' hop' hcu).1 hop heq
            rw [hsame] at hop' hcu
            exact .inl ⟨hop', hcu⟩
          · exact .inr ⟨hop, hmem⟩ }

theorem Sound.mem_popped (h : u.Sound cfg) (bank : Nat) (op : ReadOp) :
    op ∈ (u.port.arbiter.popped (u.port.readBanks cfg.toReadPortConfig)).queue bank ↔
      op ∈ u.port.arbiter.queue bank ∧ op ∉ u.granted cfg := by
  have hmem : (u.port.arbiter.popped (u.port.readBanks cfg.toReadPortConfig)).queue bank =
      if bank ∈ u.port.readBanks cfg.toReadPortConfig then (u.port.arbiter.queue bank).tail
      else u.port.arbiter.queue bank := rfl
  rw [hmem]
  split
  · rename_i hbank
    obtain ⟨-, hne, -⟩ := Arbiter.grantedBanks_sub hbank
    obtain ⟨head, rest, hqueue⟩ := List.exists_cons_of_ne_nil hne
    have hnodup := h.queue_nodup bank
    have hgranted : ∀ op, op ∈ u.port.arbiter.queue bank →
        (op ∈ u.granted cfg ↔ op = head) := by
      intro op hop
      constructor
      · intro hmem
        obtain ⟨bank', -, hhead⟩ := mem_granted.mp hmem
        have heq := ((h.queue _ _).mp (List.mem_of_mem_head? hhead)).2
        rw [← heq, ((h.queue _ _).mp hop).2, hqueue] at hhead
        exact (Option.some.inj hhead).symm
      · rintro rfl
        exact mem_granted.mpr ⟨bank, hbank, by rw [hqueue]; rfl⟩
    rw [hqueue] at hnodup hgranted ⊢
    have hhead := (List.nodup_cons.mp hnodup).1
    rw [List.tail_cons, List.mem_cons]
    constructor
    · intro hop
      refine ⟨.inr hop, fun hmem => hhead ?_⟩
      rw [(hgranted op (List.mem_cons_of_mem _ hop)).mp hmem] at hop
      exact hop
    · rintro ⟨rfl | hop, hnot⟩
      · exact absurd ((hgranted op List.mem_cons_self).mpr rfl) hnot
      · exact hop
  · rename_i hbank
    refine (and_iff_left_of_imp fun hop hmem => hbank ?_).symm
    rw [← ((h.queue bank op).mp hop).2]
    exact (h.queued_of_granted hmem).2

/-- The events of some reads are proper when the reads are of unused banks and within the
limit. -/
theorem properLog_readLog (hlog : ProperLog cfg log) (hlt : ∀ op ∈ ops, bankOf op < cfg.numBanks)
    (hnodup : (ops.map bankOf).Nodup) (hfresh : ∀ op ∈ ops, bankOf op ∉ touched log)
    (hbytes : 0 < cfg.readLimit →
      (ops.length + readCount log) * cfg.bytesPerOperand ≤ cfg.readLimit)
    (hheld : ∀ before op after, ops = before ++ op :: after → ∃ inst reads,
      inCollector op.cu log = some (inst, reads) ∧ (op.register : Int) ∈ inst.src ∧
        op.register ∉ ((before.filter (fun o => o.cu = op.cu)).reverse ++ reads).map
          ReadOp.register ∧
        bankOf op = cfg.registerBank op.register inst.warpId inst.schedId ∧
        (cfg.subCoreModel = true → cfg.OwnBank (bankOf op) inst.schedId)) :
    ProperLog cfg (readLog bankOf ops log) := by
  induction ops using List.reverseRecOn with
  | nil => exact hlog
  | append_singleton ops op ih =>
    rw [List.map_append, List.nodup_append] at hnodup
    rw [readLog_concat]
    have hmem : op ∈ ops ++ [op] := List.mem_append_right _ List.mem_cons_self
    have hlen : (ops ++ [op]).length = ops.length + 1 := List.length_append
    refine ⟨⟨hlt op hmem, ?_, fun hlimit => ?_, ?_⟩, ih ?_ hnodup.1 ?_ ?_ ?_⟩
    · rw [touched_readLog, List.mem_append, List.mem_reverse]
      rintro (hin | hin)
      · exact hnodup.2.2 _ hin _ (List.mem_singleton.mpr rfl) rfl
      · exact hfresh op hmem hin
    · have hall := hbytes hlimit
      rw [hlen, Nat.add_right_comm] at hall
      rw [readCount_readLog]
      exact hall
    · obtain ⟨inst, reads, hin, hsrc, hnew, hbank, hown⟩ := hheld ops op [] rfl
      refine ⟨inst, _, ?_, hsrc, hnew, hbank, hown⟩
      rw [inCollector_readLog, hin]
      rfl
    · exact fun o ho => hlt o (List.mem_append_left _ ho)
    · exact fun o ho => hfresh o (List.mem_append_left _ ho)
    · intro hlimit
      have hall := hbytes hlimit
      rw [hlen] at hall
      exact (Nat.mul_le_mul_right _ (by omega)).trans hall
    · intro before o after heq
      exact hheld before o (after ++ [op]) (by rw [heq]; simp)

theorem Sound.allocateReads_ok (h : u.Sound cfg)
    (hnoread : ∀ bank < cfg.numBanks, u.port.arbiter.allocatedBank bank ≠ .readAlloc) :
    ∃ port, u.allocateReads cfg = .ok (u.afterReads cfg port) ∧
      (u.afterReads cfg port).Sound cfg := by
  have hidle : ∀ bank, u.port.arbiter.allocatedBank bank ≠ .readAlloc := by
    intro bank hread
    have hlt := h.allocated_lt bank (by rw [hread]; exact BankAllocation.noConfusion)
    exact hnoread bank hlt hread
  obtain ⟨port, hport, hqueue, hbanks, hbytes⟩ := ReadPort.allocateReads_ok (u.bankOf cfg)
    h.namesCollectors h.banked hidle fun op hop => h.bankOf_eq (h.queued_of_granted hop).1
  refine ⟨port, ?_, ?_⟩
  · unfold allocateReads
    rw [hport]
    rfl
  have hmap := h.map_bankOf_granted
  have hlen : (u.granted cfg).length = (u.port.readBanks cfg.toReadPortConfig).length := by
    rw [← hmap, List.length_map]
  have hsub : ∀ bank ∈ u.port.readBanks cfg.toReadPortConfig, bank < cfg.numBanks ∧
      u.port.arbiter.allocatedBank bank = .noAlloc := by
    intro bank hbank
    obtain ⟨hlt, -, hwrite⟩ := Arbiter.grantedBanks_sub hbank
    refine ⟨hlt, ?_⟩
    cases halloc : u.port.arbiter.allocatedBank bank with
    | noAlloc => rfl
    | readAlloc => exact absurd halloc (hidle bank)
    | writeAlloc => exact absurd halloc hwrite
  have hpays : 0 < cfg.readLimit → (u.granted cfg).length * cfg.bytesPerOperand ≤
      u.port.bytesRemaining := fun hlimit => by rw [hlen]; exact ReadPort.readBanks_budget hlimit
  refine ⟨h.agrees_afterReads port, h.regs_length, h.slots, ?_, ?_, ?_, ?_, ?_, ?_⟩
  · intro bank op
    show op ∈ port.arbiter.queue bank ↔ _
    rw [hqueue, h.mem_popped, h.queue, h.awaits_afterReads]
    exact and_right_comm
  · intro bank
    show (port.arbiter.queue bank).Nodup
    rw [hqueue]
    show (if _ then _ else _ : List ReadOp).Nodup
    split
    · exact (h.queue_nodup bank).tail
    · exact h.queue_nodup bank
  · intro bank
    show bank ∈ touched (readLog _ _ _) ↔ port.arbiter.allocatedBank bank ≠ _
    rw [touched_readLog, hmap, hbanks, List.mem_append, List.mem_reverse, h.mem_touched]
    dsimp only
    split
    · rename_i hbank
      simp [hbank]
    · rename_i hbank
      simp [hbank]
  · intro bank halloc
    have halloc : port.arbiter.allocatedBank bank ≠ .noAlloc := halloc
    rw [hbanks] at halloc
    dsimp only at halloc
    split at halloc
    · rename_i hbank
      exact (hsub bank hbank).1
    · exact h.allocated_lt bank halloc
  · intro hlimit
    show readCount (readLog _ _ _) * _ + port.bytesRemaining ≤ _
    have hpays := hpays hlimit
    have hold := h.bytes hlimit
    rw [readCount_readLog, Nat.add_mul, hbytes, if_pos hlimit, ← hlen]
    omega
  · show ProperLog cfg (readLog _ _ _)
    refine properLog_readLog h.proper (fun op hop => ?_) ?_ (fun op hop => ?_) (fun hlimit => ?_) ?_
    · rw [h.bankOf_eq (h.queued_of_granted hop).1]
      exact (hsub _ (h.queued_of_granted hop).2).1
    · rw [hmap]
      exact Arbiter.grantedBanks_nodup _
    · rw [h.bankOf_eq (h.queued_of_granted hop).1, h.mem_touched]
      exact fun hne => hne (hsub _ (h.queued_of_granted hop).2).2
    · have hpays := hpays hlimit
      have hold := h.bytes hlimit
      rw [Nat.add_mul]
      omega
    · intro before op after heq
      have hop : op ∈ u.granted cfg := by rw [heq]; simp
      obtain ⟨inst, reads, hheld, hholds, hmem, hnot, -⟩ :=
        h.of_queued (h.queued_of_granted hop).1
      have hbank : u.bankOf cfg op = cfg.registerBank op.register inst.warpId inst.schedId := by
        rw [h.bankOf_eq (h.queued_of_granted hop).1, CollectorConfig.collectOps_bank hmem]
      refine ⟨inst, reads, hheld,
        CollectorConfig.mem_collectOps_registers.mp (List.mem_map_of_mem hmem), ?_, hbank,
        fun hsub => ?_⟩
      · rw [List.mem_map]
        rintro ⟨op', hop', hreg⟩
        rw [List.mem_append, List.mem_reverse, List.mem_filter, decide_eq_true_eq] at hop'
        rcases hop' with ⟨hbefore, hcu⟩ | hread
        · -- granted in the same call: the grants are distinct
          have hmem' : op' ∈ cfg.collectOps op.cu inst := by
            have hsrc := ((h.queue _ _).mp (h.queued_of_granted
              (by rw [heq]; exact List.mem_append_left _ hbefore)).1).1.1
            rw [hcu, hholds.srcOp] at hsrc
            exact hsrc
          have hsame := CollectorConfig.collectOps_register_inj hmem' hmem hreg
          have hnodup := h.granted_nodup
          rw [heq, List.nodup_append] at hnodup
          exact hnodup.2.2 op' hbefore op List.mem_cons_self hsame
        · obtain ⟨hsrc, hready⟩ := (hholds.mem_reads op').mp hread
          rw [hholds.srcOp] at hsrc
          rw [CollectorConfig.collectOps_register_inj hsrc hmem hreg] at hready
          exact hready hnot
      · rw [hbank]
        exact CollectorConfig.registerBank_own hsub _ _ _

/-! ### Writes, and the ends of a cycle -/

/-- The state after a bank was taken for a write. -/
def afterWrite (u : OpndcollRfu) (bank : Nat) : OpndcollRfu :=
  { u with
    port := { u.port with
      arbiter := { u.port.arbiter with
        allocatedBank := Function.update u.port.arbiter.allocatedBank bank .writeAlloc } }
    log := .written bank :: u.log }

theorem Sound.afterWrite (h : u.Sound cfg) {bank : Nat} (hlt : bank < cfg.numBanks)
    (hidle : u.port.arbiter.allocatedBank bank = .noAlloc) : (u.afterWrite bank).Sound cfg := by
  refine ⟨h.cu, h.regs_length, h.slots, h.queue, h.queue_nodup, ?_, ?_, h.bytes, ⟨⟨hlt, ?_⟩,
    h.proper⟩⟩
  · intro b
    show b ∈ bank :: touched u.log ↔
      Function.update u.port.arbiter.allocatedBank bank .writeAlloc b ≠ _
    rw [List.mem_cons, h.mem_touched]
    rcases eq_or_ne b bank with rfl | hne
    · simp
    · rw [Function.update_of_ne hne]
      exact or_iff_right hne
  · intro b halloc
    have halloc : Function.update u.port.arbiter.allocatedBank bank .writeAlloc b ≠ .noAlloc :=
      halloc
    rcases eq_or_ne b bank with rfl | hne
    · exact hlt
    · rw [Function.update_of_ne hne] at halloc
      exact h.allocated_lt b halloc
  · rw [h.mem_touched]
    exact fun hne => hne hidle

/-- `writeback` takes the idle banks of the destinations, up to the first busy one. -/
theorem Sound.writeDst_ok (h : u.Sound cfg) (inst : OcInst) (dst : List Int)
    (hsched : cfg.subCoreModel = true → inst.schedId < cfg.numWarpScheds) :
    ∃ done left v, writeDst cfg inst dst u = .ok (done, left, v) ∧ v.Sound cfg := by
  induction dst generalizing u with
  | nil => exact ⟨true, [], u, rfl, h⟩
  | cons r rest ih =>
    unfold writeDst
    split
    · have hlt := CollectorConfig.registerBank_lt r.toNat inst.warpId hsched
      have hfits := CollectorConfig.bankFits_registerBank r.toNat inst.warpId hsched
      dsimp only
      rw [require_pass hfits]
      split
      · rename_i hidle
        have halloc : u.port.arbiter.allocatedBank
            (cfg.registerBank r.toNat inst.warpId inst.schedId) = .noAlloc :=
          of_decide_eq_true hidle
        obtain ⟨done, left, v, hok, hv⟩ := ih (h.afterWrite hlt halloc)
        refine ⟨done, -1 :: left, v, ?_, hv⟩
        unfold Arbiter.allocateBankForWrite Arbiter.allocate
        rw [require_pass (decide_eq_true hlt), require_pass hidle]
        show (writeDst cfg inst rest (u.afterWrite _) >>= _) = _
        rw [hok]
        rfl
      · exact ⟨false, r :: rest, u, rfl, h⟩
    · obtain ⟨done, left, v, hok, hv⟩ := ih h
      refine ⟨done, r :: left, v, ?_, hv⟩
      rw [hok]
      rfl

theorem Sound.beginCycle (h : u.Sound cfg) : (u.beginCycle cfg).Sound cfg :=
  { h with
    bytes := fun _ => by simp [OpndcollRfu.beginCycle, ReadPort.beginCycle, readCount]
    proper := ⟨trivial, h.proper⟩ }

theorem Sound.consumeRfReadBudget (h : u.Sound cfg) (bytes : Nat) :
    (u.consumeRfReadBudget cfg bytes).Sound cfg := by
  have harbiter : (u.port.consumeRfReadBudget cfg.toReadPortConfig bytes).2.arbiter =
      u.port.arbiter := by
    unfold ReadPort.consumeRfReadBudget
    split_ifs <;> rfl
  have hless : (u.port.consumeRfReadBudget cfg.toReadPortConfig bytes).2.bytesRemaining ≤
      u.port.bytesRemaining := by
    unfold ReadPort.consumeRfReadBudget
    split_ifs
    · exact le_rfl
    · exact le_rfl
    · exact Nat.sub_le _ _
  refine ⟨h.cu, h.regs_length, h.slots, ?_, ?_, ?_, ?_, ?_, h.proper⟩
  · intro bank op
    show op ∈ (ReadPort.consumeRfReadBudget _ _ _).2.arbiter.queue bank ↔ _
    rw [harbiter]
    exact h.queue bank op
  · intro bank
    show ((ReadPort.consumeRfReadBudget _ _ _).2.arbiter.queue bank).Nodup
    rw [harbiter]
    exact h.queue_nodup bank
  · intro bank
    show _ ↔ (ReadPort.consumeRfReadBudget _ _ _).2.arbiter.allocatedBank bank ≠ _
    rw [harbiter]
    exact h.mem_touched bank
  · intro bank halloc
    have halloc : (ReadPort.consumeRfReadBudget _ _ _).2.arbiter.allocatedBank bank ≠ _ := halloc
    rw [harbiter] at halloc
    exact h.allocated_lt bank halloc
  · exact fun hlimit => (Nat.add_le_add_left hless _).trans (h.bytes hlimit)

theorem Sound.processBanks (h : u.Sound cfg) : u.processBanks.Sound cfg :=
  { h with
    mem_touched := fun _ => iff_of_false List.not_mem_nil fun hne => hne rfl
    allocated_lt := fun _ hne => absurd rfl hne
    proper := ⟨trivial, h.proper⟩ }

/-! ### Issue and execution -/

/-- A register of a set changes. -/
def setReg (u : OpndcollRfu) (set slot : Nat) (warp : Option OcInst) : OpndcollRfu :=
  { u with regs := Function.update u.regs set ((u.regs set).set slot warp) }

theorem Sound.setReg (h : u.Sound cfg) (set slot : Nat) {warp : Option OcInst}
    (hwarp : cfg.subCoreModel = true → ∀ inst ∈ warp,
      inst.schedId = slot ∧ slot < cfg.numWarpScheds) :
    (u.setReg set slot warp).Sound cfg := by
  refine { h with regs_length := ?_, slots := ?_ }
  · intro set'
    show (Function.update u.regs set _ set').length = _
    rcases eq_or_ne set' set with rfl | hne
    · rw [Function.update_self, List.length_set, h.regs_length]
    · rw [Function.update_of_ne hne, h.regs_length]
  · intro hsub set' slot' inst hslot
    have hslot : (Function.update u.regs set ((u.regs set).set slot warp) set')[slot']? =
        some (some inst) := hslot
    rcases eq_or_ne set' set with rfl | hne
    · rw [Function.update_self, List.getElem?_set] at hslot
      split at hslot
      · rename_i heq
        split at hslot
        · rw [← heq]
          exact hwarp hsub inst (Option.some.inj hslot)
        · cases hslot
      · exact h.slots hsub _ _ _ hslot
    · rw [Function.update_of_ne hne] at hslot
      exact h.slots hsub _ _ _ hslot

end OpndcollRfu

end FlashGpuSim
