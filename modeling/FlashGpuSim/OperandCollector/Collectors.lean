import FlashGpuSim.OperandCollector.ReadPort

/-!
The collector units of `opndcoll_rfu_t`: instructions enter a free collector from the registers
of an input port, their sources are read from the banks one by one, and a dispatch unit moves a
complete instruction on to the registers of the port's output. In the partitioned model a
collector serves the scheduler `m_reg_id`, which `init` computes from the collector's number
among all sets, and `allocate_cu` looks for the collectors of a scheduler by their place in one
set.
-/

namespace FlashGpuSim

open Lib

/-- What the collectors use of a `warp_inst_t`; `src` and `dst` are those of `arch_reg`. -/
structure OcInst where
  uid : Nat
  warpId : Nat
  schedId : Nat
  src : List Int
  dst : List Int
  deriving DecidableEq, Repr

/-- `register_set`: the instruction in each register, if any. -/
abbrev RegisterSet := List (Option OcInst)

namespace RegisterSet

variable (regs : RegisterSet)

/-- The loop of `get_ready`. -/
def oldestStep (ready : Option (Nat × OcInst)) (slot : Option OcInst × Nat) :
    Option (Nat × OcInst) :=
  match slot.1, ready with
  | none, _ => ready
  | some inst, none => some (slot.2, inst)
  | some inst, some old => if old.2.uid < inst.uid then ready else some (slot.2, inst)

/-- `get_ready`: the oldest instruction, or the one of the scheduler. -/
def getReady (subCoreModel : Bool) (regId : Nat) :
    Except CollectorFault (Option (Nat × OcInst)) :=
  if subCoreModel then do
    require (decide (regId < regs.length)) .regRange
    return (regs.getD regId none).map fun inst => (regId, inst)
  else .ok (regs.zipIdx.foldl oldestStep none)

/-- `has_free` -/
def hasFree (subCoreModel : Bool) (regId : Nat) : Except CollectorFault Bool :=
  if subCoreModel then do
    require (decide (regId < regs.length)) .regRange
    return (regs.getD regId none).isNone
  else .ok (regs.any Option.isNone)

/-- `get_free` -/
def getFree (subCoreModel : Bool) (regId : Nat) : Except CollectorFault Nat :=
  if subCoreModel then do
    require (decide (regId < regs.length)) .regRange
    require (regs.getD regId none).isNone .noFreeRegister
    return regId
  else
    match regs.findIdx? Option.isNone with
    | some slot => .ok slot
    | none => .error .noFreeRegister

/-- `move_in` -/
def moveIn (subCoreModel : Bool) (regId : Nat) (warp : Option OcInst) :
    Except CollectorFault RegisterSet := do
  let slot ← getFree regs subCoreModel regId
  return regs.set slot warp

end RegisterSet

/-- `input_port_t`: the pairs of `m_in` and `m_out`, as numbers of register sets, and
`m_cu_sets`. -/
structure InputPort where
  inputs : List (Nat × Nat)
  cuSets : List Nat
  deriving DecidableEq, Repr

/-- The sizes behind `opndcoll_rfu_t`, with the assertions of `init`; the sets are in the order
of `add_cu_set`. The registers of a partitioned core are as wide as it has schedulers. -/
structure CollectorConfig extends ReadPortConfig where
  subCoreModel : Bool
  numWarpScheds : Nat
  setSizes : List Nat
  /-- The set of each dispatch unit. -/
  dispatchSets : List Nat
  inPorts : List InputPort
  regSize : Nat → Nat
  numBanks_lt : numBanks < 2 ^ 32
  numWarpScheds_pos : 0 < numWarpScheds
  numCollectors_eq : numCollectors = setSizes.sum
  partition : subCoreModel = true →
    numBanks % numWarpScheds = 0 ∧ numWarpScheds ≤ numCollectors ∧
      numCollectors % numWarpScheds = 0
  regs_wide : subCoreModel = true → ∀ port ∈ inPorts, ∀ io ∈ port.inputs,
    numWarpScheds ≤ regSize io.1 ∧ numWarpScheds ≤ regSize io.2

namespace CollectorConfig

variable (cfg : CollectorConfig)

def setSize (set : Nat) : Nat := cfg.setSizes.getD set 0

/-- The number among all collectors of the collector at `k` in the set. -/
def cuIndex (set k : Nat) : Nat := (cfg.setSizes.take set).sum + k

/-- The collectors of a set. -/
def collectorsOf (set : Nat) : List Nat := (List.range (cfg.setSize set)).map (cfg.cuIndex set)

/-- `cus_per_sched` -/
def cusPerSched (set : Nat) : Nat := cfg.setSize set / cfg.numWarpScheds

/-- The collectors of a set that `allocate_cu` takes for a scheduler. -/
def slice (set sid : Nat) : List Nat :=
  (List.range' (sid * cfg.cusPerSched set) (cfg.cusPerSched set)).map (cfg.cuIndex set)

/-- `m_num_banks_per_sched` -/
def banksPerSched : Nat := cfg.numBanks / cfg.numWarpScheds

/-- The `m_reg_id` that `init` gives to a collector. -/
def regId (cuid : Nat) : Nat :=
  if cfg.subCoreModel then cuid / (cfg.numCollectors / cfg.numWarpScheds) else 0

/-- `register_bank` -/
def registerBank (register warpId schedId : Nat) : Nat :=
  if cfg.subCoreModel then
    (register + warpId) % cfg.banksPerSched + schedId * cfg.banksPerSched
  else (register + warpId) % cfg.numBanks

/-- The loop of `allocate` over the sources; `prev` is `prev_regs`. -/
def sourcesFrom (prev : List Nat) (operand : Nat) : List Int → List (Nat × Nat)
  | [] => []
  | r :: rest =>
    if 0 ≤ r ∧ r.toNat ∉ prev then
      (operand, r.toNat) :: sourcesFrom (r.toNat :: prev) (operand + 1) rest
    else sourcesFrom prev (operand + 1) rest

/-- The `m_src_op` that an instruction sets. -/
def collectOps (cuid : Nat) (inst : OcInst) : List ReadOp :=
  (sourcesFrom [] 0 inst.src).map fun source =>
    { cu := cuid, operand := source.1, register := source.2, schedId := inst.schedId,
      bank := cfg.registerBank source.2 inst.warpId inst.schedId }

/-- The assertion of `register_bank`. -/
def bankFits (bank : Nat) : Bool := !cfg.subCoreModel || decide (bank < cfg.numBanks)

end CollectorConfig

/-- `collector_unit_t`; only valid entries of `m_src_op` are kept. -/
structure CollectorUnit where
  free : Bool := true
  warp : Option OcInst := none
  warpId : Nat := 2 ^ 32 - 1
  output : Option Nat := none
  srcOp : List ReadOp := []
  notReady : List Nat := []

namespace CollectorUnit

variable (cfg : CollectorConfig) (cuid : Nat) (c : CollectorUnit)

/-- `allocate`; the result has the registers of the input. -/
def allocate (regs : RegisterSet) (output : Nat) :
    Except CollectorFault (Bool × CollectorUnit × RegisterSet) := do
  require c.free .collectorBusy
  require c.notReady.isEmpty .notReady
  match ← regs.getReady cfg.subCoreModel (cfg.regId cuid) with
  | none => return (false, { c with free := false, output := some output }, regs)
  | some (slot, inst) =>
    require (!cfg.subCoreModel || decide (inst.schedId = cfg.regId cuid)) .otherScheduler
    let ops := cfg.collectOps cuid inst
    require (ops.all fun op => cfg.bankFits op.bank) .bankRange
    require c.warp.isNone .registerBusy
    return (true,
      { free := false, warp := some inst, warpId := inst.warpId, output := some output,
        srcOp := ops, notReady := ops.map ReadOp.operand },
      regs.set slot none)

/-- `ready` -/
def ready (regs : Nat → RegisterSet) : Except CollectorFault Bool :=
  if c.free || !c.notReady.isEmpty then .ok false
  else
    match c.output with
    | none => .error .nullPointer
    | some output => (regs output).hasFree cfg.subCoreModel (cfg.regId cuid)

/-- `collect_operand` -/
def collectOperand (operand : Nat) : CollectorUnit :=
  { c with notReady := c.notReady.filter (· ≠ operand) }

/-- `dispatch` -/
def dispatch (regs : Nat → RegisterSet) :
    Except CollectorFault (CollectorUnit × (Nat → RegisterSet)) := do
  require c.notReady.isEmpty .notReady
  match c.output with
  | none => .error .nullPointer
  | some output =>
    let moved ← (regs output).moveIn cfg.subCoreModel (cfg.regId cuid) c.warp
    return ({ c with free := true, warp := none, output := none, srcOp := [] },
      Function.update regs output moved)

end CollectorUnit

/-- The history of the collectors and the banks. -/
inductive OcEvent
  | entered (cuid : Nat) (inst : OcInst)
  | read (op : ReadOp) (bank : Nat)
  | written (bank : Nat)
  | dispatched (cuid : Nat) (warp : Option OcInst)
  | beginCycle
  | processBanks
  deriving DecidableEq, Repr

/-- `opndcoll_rfu_t`, with the register sets that it is connected to; `log` is the history, the
latest event first. -/
structure OpndcollRfu where
  port : ReadPort
  cu : Nat → CollectorUnit
  regs : Nat → RegisterSet
  /-- `m_last_cu` of each dispatch unit. -/
  lastCu : Nat → Nat
  log : List OcEvent

namespace OpndcollRfu

variable (cfg : CollectorConfig) (u : OpndcollRfu)

def init : OpndcollRfu where
  port := .init
  cu := fun _ => {}
  regs := fun set => List.replicate (cfg.regSize set) none
  lastCu := fun _ => 0
  log := []

/-! ### allocate_cu -/

/-- A collector takes the head of the input, and its reads are queued. -/
def allocateAt (cuid : Nat) (io : Nat × Nat) : Except CollectorFault (Bool × OpndcollRfu) := do
  let (allocated, c, regs) ← (u.cu cuid).allocate cfg cuid (u.regs io.1) io.2
  let entered := if allocated then c.warp.toList.map (OcEvent.entered cuid) else []
  return (allocated,
    { u with
      port := { u.port with arbiter := u.port.arbiter.addReadRequests c.srcOp }
      cu := Function.update u.cu cuid c
      regs := Function.update u.regs io.1 regs
      log := entered ++ u.log })

/-- One turn of the loop over the schedulers. -/
def selectStep (regs : RegisterSet) (set : Nat) (selected : Option (Nat × OcInst)) (sid : Nat) :
    Except CollectorFault (Option (Nat × OcInst)) := do
  match ← regs.getReady true sid with
  | none => return selected
  | some (_, candidate) =>
    match (cfg.slice set sid).find? (fun cuid => (u.cu cuid).free), selected with
    | none, _ => return selected
    | some cuid, none => return some (cuid, candidate)
    | some cuid, some old =>
      return if candidate.uid < old.2.uid then some (cuid, candidate) else selected

/-- The search of the partitioned model for a collector. -/
def selectCu (regs : RegisterSet) : List Nat → Except CollectorFault (Option (Nat × OcInst))
  | [] => .ok none
  | set :: rest => do
    require (decide (cfg.setSize set % cfg.numWarpScheds = 0 ∧
      cfg.numWarpScheds ≤ cfg.setSize set)) .setSize
    match ← (List.range cfg.numWarpScheds).foldlM (u.selectStep cfg regs set) none with
    | some selected => return some selected
    | none => selectCu regs rest

/-- The loop over the sets without partition. -/
def allocateIn (io : Nat × Nat) : List Nat → OpndcollRfu → Except CollectorFault OpndcollRfu
  | [], u => .ok u
  | set :: rest, u =>
    match (cfg.collectorsOf set).find? (fun cuid => (u.cu cuid).free) with
    | none => allocateIn io rest u
    | some cuid => do
      let (allocated, u) ← u.allocateAt cfg cuid io
      if allocated then return u else allocateIn io rest u

/-- One turn of the loop of `allocate_cu` over the inputs of a port. -/
def allocateInput (cuSets : List Nat) (io : Nat × Nat) : Except CollectorFault OpndcollRfu :=
  if cfg.subCoreModel then do
    match ← u.selectCu cfg (u.regs io.1) cuSets with
    | none => return u
    | some (cuid, _) =>
      let (allocated, u) ← u.allocateAt cfg cuid io
      require allocated .notAllocated
      return u
  else if (u.regs io.1).any Option.isSome then allocateIn cfg io cuSets u
  else .ok u

/-- `allocate_cu` -/
def allocateCu (port : InputPort) : Except CollectorFault OpndcollRfu :=
  port.inputs.foldlM (fun u io => u.allocateInput cfg port.cuSets io) u

/-! ### allocate_reads -/

/-- The bank that `allocate_reads` computes for an operand. -/
def bankOf (op : ReadOp) : Nat := cfg.registerBank op.register (u.cu op.cu).warpId op.schedId

/-- The loop over `read_ops`. -/
def collect (cu : Nat → CollectorUnit) (ops : List ReadOp) : Nat → CollectorUnit :=
  ops.foldl (fun cu op => Function.update cu op.cu ((cu op.cu).collectOperand op.operand)) cu

/-- `allocate_reads` -/
def allocateReads : Except CollectorFault OpndcollRfu := do
  let (ops, port) ← u.port.allocateReads cfg.toReadPortConfig (u.bankOf cfg)
  return { u with
    port
    cu := collect u.cu ops
    log := (ops.map fun op => OcEvent.read op (u.bankOf cfg op)).reverse ++ u.log }

/-! ### dispatch_ready_cu -/

/-- The loop of `find_ready`. -/
def firstReady (u : OpndcollRfu) (set : Nat) : List Nat → Except CollectorFault (Option Nat)
  | [] => .ok none
  | k :: rest => do
    if ← (u.cu (cfg.cuIndex set k)).ready cfg (cfg.cuIndex set k) u.regs then return some k
    else firstReady u set rest

/-- The collectors of the set in the order of `find_ready`. -/
def readyOrder (set lastCu : Nat) : Except CollectorFault (List Nat) := do
  require (!cfg.subCoreModel || decide (cfg.cusPerSched set ≠ 0)) .divideByZero
  let increment :=
    if cfg.subCoreModel then cfg.cusPerSched set - lastCu % cfg.cusPerSched set else 1
  return (List.range (cfg.setSize set)).map fun n => (lastCu + n + increment) % cfg.setSize set

/-- One turn of `dispatch_ready_cu`, for the dispatch unit `p` of a set. -/
def dispatchUnit (unit : Nat × Nat) : Except CollectorFault OpndcollRfu := do
  match ← u.firstReady cfg unit.1 (← readyOrder cfg unit.1 (u.lastCu unit.2)) with
  | none => return u
  | some k =>
    let cuid := cfg.cuIndex unit.1 k
    let (c, regs) ← (u.cu cuid).dispatch cfg cuid u.regs
    return { u with
      cu := Function.update u.cu cuid c
      regs
      lastCu := Function.update u.lastCu unit.2 k
      log := .dispatched cuid (u.cu cuid).warp :: u.log }

/-- `dispatch_ready_cu` -/
def dispatchReadyCu : Except CollectorFault OpndcollRfu :=
  cfg.dispatchSets.zipIdx.foldlM (fun u unit => u.dispatchUnit cfg unit) u

/-! ### writeback -/

/-- The loop of `writeback` over the destinations; the result has what is left of them. -/
def writeDst (inst : OcInst) : List Int → OpndcollRfu →
    Except CollectorFault (Bool × List Int × OpndcollRfu)
  | [], u => .ok (true, [], u)
  | r :: rest, u =>
    if 0 ≤ r then
      let bank := cfg.registerBank r.toNat inst.warpId inst.schedId
      do
        require (cfg.bankFits bank) .bankRange
        if u.port.arbiter.bankIdle bank then
          let arbiter ← u.port.arbiter.allocateBankForWrite cfg.toArbiterConfig bank
          let u := { u with port := { u.port with arbiter }, log := .written bank :: u.log }
          let (done, dst, u) ← writeDst inst rest u
          return (done, -1 :: dst, u)
        else return (false, r :: rest, u)
    else do
      let (done, dst, u) ← writeDst inst rest u
      return (done, r :: dst, u)

/-- `writeback` -/
def writeback (inst : OcInst) : Except CollectorFault (Bool × OcInst × OpndcollRfu) := do
  let (done, dst, u) ← writeDst cfg inst inst.dst u
  return (done, { inst with dst }, u)

/-! ### The cycle -/

/-- `begin_cycle` -/
def beginCycle : OpndcollRfu :=
  { u with port := u.port.beginCycle cfg.toReadPortConfig, log := .beginCycle :: u.log }

/-- `consume_rf_read_budget` -/
def consumeRfReadBudget (bytes : Nat) : OpndcollRfu :=
  { u with port := (u.port.consumeRfReadBudget cfg.toReadPortConfig bytes).2 }

/-- `process_banks` -/
def processBanks : OpndcollRfu :=
  { u with
    port := { u.port with arbiter := u.port.arbiter.resetAllocation }
    log := .processBanks :: u.log }

/-- `step` -/
def step : Except CollectorFault OpndcollRfu := do
  let u ← u.dispatchReadyCu cfg
  let u ← u.allocateReads cfg
  let u ← cfg.inPorts.foldlM (fun u port => u.allocateCu cfg port) u
  return u.processBanks

end OpndcollRfu

end FlashGpuSim
