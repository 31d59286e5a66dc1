import FlashGpuSim.Cache.TagArray
import FlashGpuSim.Lib.CreditPool
import FlashGpuSim.Lib.Reach

/-!
A memory partition with the simple DRAM model, after `memory_partition_unit` in
`l2cache.cc`. Requests of the sub-partitions wait a fixed latency in one queue; two service
budgets bound the bandwidth and credits bound the requests in flight.
-/

namespace FlashGpuSim

open Lib

inductive DramFailure where
  | sharedCreditLimit
  | budgetRate
  | budgetConsume
  | borrowDepleted
  | returnTooMany
  | subPartitionId
  | replyToWriteBack
  | replyKind
  | queueOverflow
  | queueEmpty
  deriving DecidableEq, Repr

inductive MfType where
  | readRequest
  | writeRequest
  | readReply
  | writeAck
  deriving DecidableEq, Repr

/-- The fields of a `mem_fetch` that a partition reads. A request has the kind that fits
its direction. -/
structure DramFetch where
  id : Nat
  dataSize : BitVec 32
  accessType : MemAccessType
  isWrite : Bool
  mfType : MfType
  mfType_fits : (mfType = .readRequest → isWrite = false) ∧ (mfType = .writeRequest → isWrite = true)
  subPartitionId : BitVec 32
  deriving DecidableEq

namespace DramFetch

variable (mf : DramFetch)

def isWriteback : Bool :=
  decide (mf.accessType = .l1WrbkAcc) || decide (mf.accessType = .l2WrbkAcc)

def setReply : Except DramFailure DramFetch := do
  require (!mf.isWriteback) .replyToWriteBack
  match mf.mfType with
  | .readRequest =>
    require (!mf.isWrite) .replyKind
    pure { mf with mfType := .readReply, mfType_fits := ⟨nofun, nofun⟩ }
  | .writeRequest =>
    require mf.isWrite .replyKind
    pure { mf with mfType := .writeAck, mfType_fits := ⟨nofun, nofun⟩ }
  | .readReply | .writeAck => pure mf

end DramFetch

/-- The options of `memory_config` that the partition reads, and the length of the queues
from the DRAM to L2. -/
structure MemoryConfig where
  nSubPartition : BitVec 32
  frfcfsDramSchedQueueSize : BitVec 32
  dramReturnQueueSize : BitVec 32
  frfcfsDramWriteQueueSize : BitVec 32
  seperateWriteQueueEnabled : Bool
  simpleDramModel : Bool
  simpleDramMaxInflight : BitVec 32
  simpleDramServiceRateNum : BitVec 32
  simpleDramServiceRateDen : BitVec 32
  dramAtomSize : BitVec 32
  dramLatency : BitVec 32
  dramL2QueueLength : Nat

namespace MemoryConfig

variable (cfg : MemoryConfig)

/-- The sub-partitions of a channel. -/
abbrev n : Nat := cfg.nSubPartition.toNat

/-- `MAX_MEMORY_ACCESS_SIZE` -/
def maxMemoryAccessSize : Nat := 128

def maxRequestAtoms : Nat :=
  (maxMemoryAccessSize + cfg.dramAtomSize.toNat - 1) / cfg.dramAtomSize.toNat

/-- The atoms of a request, at least one. -/
def atoms (mf : DramFetch) : Nat :=
  max 1 ((mf.dataSize.toNat + cfg.dramAtomSize.toNat - 1) / cfg.dramAtomSize.toNat)

/-- The limit of the constructor of `arbitration_metadata`, computed in `unsigned`. -/
def sharedCreditLimit : BitVec 32 :=
  let limit := cfg.frfcfsDramSchedQueueSize + cfg.dramReturnQueueSize - (cfg.nSubPartition - 1)
  let limit := if cfg.seperateWriteQueueEnabled then limit + cfg.frfcfsDramWriteQueueSize else limit
  let limit :=
    if cfg.frfcfsDramSchedQueueSize = 0 ∨ cfg.dramReturnQueueSize = 0 then 0 else limit
  if cfg.simpleDramModel = true ∧ cfg.simpleDramMaxInflight ≠ 0 then
    cfg.simpleDramMaxInflight - cfg.nSubPartition
  else limit

end MemoryConfig

/-- `simple_dram_service_budget`, with its credit in numerator units -/
structure SimpleDramServiceBudget where
  numerator : Nat
  denominator : Nat
  credit : Nat
  wholeCreditCap : Nat
  creditCap : Nat

namespace SimpleDramServiceBudget

def make (numerator denominator maxRequestAtoms : Nat) :
    Except DramFailure SimpleDramServiceBudget := do
  require (decide (0 < numerator)) .budgetRate
  require (decide (0 < denominator)) .budgetRate
  require (decide (0 < maxRequestAtoms)) .budgetRate
  let maxServiceAtoms := (numerator + denominator - 1) / denominator
  let wholeCreditCap := max maxServiceAtoms maxRequestAtoms * denominator
  pure
    { numerator := numerator
      denominator := denominator
      credit := 0
      wholeCreditCap := wholeCreditCap
      creditCap := wholeCreditCap + denominator - 1 }

variable (b : SimpleDramServiceBudget)

def beginTick : SimpleDramServiceBudget :=
  let credit := b.credit + b.numerator
  { b with
    credit := if b.creditCap < credit then b.wholeCreditCap + credit % b.denominator else credit }

def canService (atoms : Nat) : Bool := decide (atoms * b.denominator ≤ b.credit)

def consume (atoms : Nat) : Except DramFailure SimpleDramServiceBudget := do
  require (b.canService atoms) .budgetConsume
  pure { b with credit := b.credit - atoms * b.denominator }

def discardIdleCredit : SimpleDramServiceBudget := { b with credit := b.credit % b.denominator }

end SimpleDramServiceBudget

structure ArbitrationMetadata (n : Nat) where
  lastBorrower : Nat
  sharedCreditLimit : Int
  privateCreditLimit : Int
  privateCredit : Fin n → Int
  sharedCredit : Int

namespace ArbitrationMetadata

def make (cfg : MemoryConfig) : Except DramFailure (ArbitrationMetadata cfg.n) := do
  require (decide (0 ≤ cfg.sharedCreditLimit.toInt)) .sharedCreditLimit
  pure
    { lastBorrower := cfg.n - 1
      sharedCreditLimit := cfg.sharedCreditLimit.toInt
      privateCreditLimit := 1
      privateCredit := fun _ => 0
      sharedCredit := 0 }

variable {n : Nat} (a : ArbitrationMetadata n) (spid : Fin n)

/-- A shared limit of zero is no limit. -/
def sharedLeft : Bool :=
  decide (a.sharedCreditLimit = 0) || decide (a.sharedCredit < a.sharedCreditLimit)

def hasCredits : Bool :=
  if a.privateCredit spid < a.privateCreditLimit then true else a.sharedLeft

def borrowCredit : Except DramFailure (ArbitrationMetadata n) :=
  if a.privateCredit spid < a.privateCreditLimit then
    .ok
      { a with
        privateCredit := Function.update a.privateCredit spid (a.privateCredit spid + 1)
        lastBorrower := spid }
  else if a.sharedLeft then
    .ok { a with sharedCredit := a.sharedCredit + 1, lastBorrower := spid }
  else .error .borrowDepleted

def returnCredit : Except DramFailure (ArbitrationMetadata n) := do
  let a' :=
    if 0 < a.privateCredit spid then
      { a with privateCredit := Function.update a.privateCredit spid (a.privateCredit spid - 1) }
    else { a with sharedCredit := a.sharedCredit - 1 }
  require (decide (0 ≤ a'.sharedCredit)) .returnTooMany
  pure a'

end ArbitrationMetadata

/-- `dram_delay_t` -/
structure DramDelay where
  readyCycle : Nat
  req : DramFetch

/-- What happens to the requests of the sub-partitions. -/
inductive DramEvent (n : Nat) where
  | arrived (spid : Fin n) (mf : DramFetch)
  | taken (spid : Fin n) (mf : DramFetch) (now : Nat)
  | returned (spid : Fin n) (mf : DramFetch) (now : Nat)
  | retired (spid : Fin n) (mf : DramFetch) (now : Nat)
  | drained (spid : Fin n) (mf : DramFetch)

/-- `log` is the history of the partition, which the code does not keep. -/
structure MemoryPartition (cfg : MemoryConfig) where
  mId : BitVec 32
  l2DramQueue : Fin cfg.n → List DramFetch
  dramL2Queue : Fin cfg.n → List DramFetch
  dramLatencyQueue : List DramDelay
  arbitrationMetadata : ArbitrationMetadata cfg.n
  issueBudget : SimpleDramServiceBudget
  returnBudget : SimpleDramServiceBudget
  log : List (DramEvent cfg.n)

namespace MemoryPartition

variable {cfg : MemoryConfig}

def make (cfg : MemoryConfig) (mId : BitVec 32) : Except DramFailure (MemoryPartition cfg) := do
  let arbitrationMetadata ← ArbitrationMetadata.make cfg
  let budget ← SimpleDramServiceBudget.make cfg.simpleDramServiceRateNum.toNat
    cfg.simpleDramServiceRateDen.toNat cfg.maxRequestAtoms
  pure
    { mId := mId
      l2DramQueue := fun _ => []
      dramL2Queue := fun _ => []
      dramLatencyQueue := []
      arbitrationMetadata := arbitrationMetadata
      issueBudget := budget
      returnBudget := budget
      log := [] }

variable (c : MemoryPartition cfg)

/-- The id of a sub-partition among those of all channels. -/
def subPartitionId (spid : Fin cfg.n) : BitVec 32 :=
  c.mId * cfg.nSubPartition + BitVec.ofNat 32 spid

/-- `m_sub_partition[dest_spid]`, with the assertion on its id -/
def destSpid (globalSpid : BitVec 32) : Except DramFailure (Fin cfg.n) :=
  let local_ := (globalSpid - c.mId * cfg.nSubPartition).toNat
  if h : local_ < cfg.n then do
    require (decide (c.subPartitionId ⟨local_, h⟩ = globalSpid)) .subPartitionId
    pure ⟨local_, h⟩
  else .error .subPartitionId

def dramL2QueueFull (spid : Fin cfg.n) : Bool :=
  decide (cfg.dramL2QueueLength ≤ (c.dramL2Queue spid).length)

def dramL2QueuePush (spid : Fin cfg.n) (mf : DramFetch) :
    Except DramFailure (MemoryPartition cfg) := do
  require (!c.dramL2QueueFull spid) .queueOverflow
  pure { c with dramL2Queue := Function.update c.dramL2Queue spid (c.dramL2Queue spid ++ [mf]) }

def canIssueToDram (spid : Fin cfg.n) : Bool :=
  c.arbitrationMetadata.hasCredits spid && !c.dramL2QueueFull spid

def returnCredit (spid : Fin cfg.n) : Except DramFailure (MemoryPartition cfg) := do
  let a ← c.arbitrationMetadata.returnCredit spid
  pure { c with arbitrationMetadata := a }

/-- A write-back is done. -/
def setDone (mf : DramFetch) (now : Nat) : Except DramFailure (MemoryPartition cfg) := do
  let spid ← c.destSpid mf.subPartitionId
  let c ← if mf.isWriteback then c.returnCredit spid else pure c
  pure { c with log := c.log ++ [.retired spid mf now] }

/-- A request goes back to its sub-partition, unless the queue there is full. -/
def reply (mf : DramFetch) (now : Nat) : Except DramFailure (Option (MemoryPartition cfg)) := do
  let spid ← c.destSpid mf.subPartitionId
  if c.dramL2QueueFull spid then pure none
  else do
    let mf' ← mf.setReply
    let c ← c.dramL2QueuePush spid mf'
    let c ← c.returnCredit spid
    pure (some { c with log := c.log ++ [.returned spid mf now] })

/-- One turn of the loop that completes requests; it stops without a result. -/
def returnHead (now : Nat) (d : DramDelay) (rest : List DramDelay) :
    Except DramFailure (Option (MemoryPartition cfg)) := do
  let atoms := cfg.atoms d.req
  if !c.returnBudget.canService atoms then pure none
  else do
    let left ← if d.req.isWriteback then some <$> c.setDone d.req now else c.reply d.req now
    match left with
    | none => pure none
    | some c => do
      let budget ← c.returnBudget.consume atoms
      pure (some { c with dramLatencyQueue := rest, returnBudget := budget })

/-- The loop that completes requests; every turn takes one from the latency queue. The flag
tells whether a request was ready. -/
def returnLoop (now : Nat) :
    Nat → MemoryPartition cfg → Bool → Except DramFailure (MemoryPartition cfg × Bool)
  | 0, c, sawReady => pure (c, sawReady)
  | turns + 1, c, sawReady =>
    match c.dramLatencyQueue with
    | [] => pure (c, sawReady)
    | d :: rest =>
      if now < d.readyCycle then pure (c, sawReady)
      else do
        match ← c.returnHead now d rest with
        | none => pure (c, true)
        | some c => returnLoop now turns c true

/-- The round-robin order of the sub-partitions. -/
def issueOrder : List (Fin cfg.n) :=
  (List.finRange cfg.n).map fun p : Fin cfg.n =>
    ⟨(p.val + c.arbitrationMetadata.lastBorrower + 1) % cfg.n, Nat.mod_lt _ p.pos⟩

/-- The request at the head of a queue goes to the DRAM. -/
def issue (now : Nat) (spid : Fin cfg.n) (mf : DramFetch) (rest : List DramFetch) :
    Except DramFailure (MemoryPartition cfg) := do
  let a ← c.arbitrationMetadata.borrowCredit spid
  let budget ← c.issueBudget.consume (cfg.atoms mf)
  pure
    { c with
      l2DramQueue := Function.update c.l2DramQueue spid rest
      dramLatencyQueue := c.dramLatencyQueue ++ [⟨now + cfg.dramLatency.toNat, mf⟩]
      arbitrationMetadata := a
      issueBudget := budget
      log := c.log ++ [.taken spid mf now] }

/-- One scan of the sub-partitions. It ends with the first request that may issue, or that
the budget holds back; the flag tells whether a request was seen. -/
def issueScan (now : Nat) :
    List (Fin cfg.n) → Bool → Except DramFailure (Option (MemoryPartition cfg) × Bool)
  | [], saw => pure (none, saw)
  | spid :: order, saw =>
    match c.l2DramQueue spid with
    | [] => issueScan now order saw
    | mf :: rest =>
      if !c.canIssueToDram spid then issueScan now order true
      else if !c.issueBudget.canService (cfg.atoms mf) then pure (none, true)
      else do
        let c' ← c.issue now spid mf rest
        pure (some c', true)

/-- The loop that admits requests; every turn takes one from a queue of L2. -/
def issueLoop (now : Nat) :
    Nat → MemoryPartition cfg → Bool → Except DramFailure (MemoryPartition cfg × Bool)
  | 0, c, saw => pure (c, saw)
  | turns + 1, c, saw => do
    match ← c.issueScan now c.issueOrder saw with
    | (none, saw) => pure (c, saw)
    | (some c', saw) => issueLoop now turns c' saw

/-- The requests of L2 that wait for the DRAM. -/
def waiting : Nat := (List.ofFn fun spid => (c.l2DramQueue spid).length).sum

def simpleDramModelCycle (now : Nat) : Except DramFailure (MemoryPartition cfg) := do
  let c := { c with
    issueBudget := c.issueBudget.beginTick
    returnBudget := c.returnBudget.beginTick }
  let (c, sawReady) ← returnLoop now c.dramLatencyQueue.length c false
  let c := if sawReady then c else { c with returnBudget := c.returnBudget.discardIdleCredit }
  let (c, sawRequest) ← issueLoop now c.waiting c false
  pure (if sawRequest then c else { c with issueBudget := c.issueBudget.discardIdleCredit })

end MemoryPartition

/-- What happens to a partition: L2 hands over a request, L2 takes a response, and the DRAM
clock ticks. -/
inductive DramOp (n : Nat) where
  | arrive (spid : Fin n) (mf : DramFetch)
  | drain (spid : Fin n)
  | cycle (now : Nat)

namespace MemoryPartition

variable {cfg : MemoryConfig} (c : MemoryPartition cfg)

def step : DramOp cfg.n → Except DramFailure (MemoryPartition cfg)
  | .arrive spid mf =>
    .ok
      { c with
        l2DramQueue := Function.update c.l2DramQueue spid (c.l2DramQueue spid ++ [mf])
        log := c.log ++ [.arrived spid mf] }
  | .drain spid =>
    match c.dramL2Queue spid with
    | [] => .error .queueEmpty
    | mf :: rest =>
      .ok
        { c with
          dramL2Queue := Function.update c.dramL2Queue spid rest
          log := c.log ++ [.drained spid mf] }
  | .cycle now => c.simpleDramModelCycle now

/-- A request is in the queue of its own sub-partition, and only a response that is there
is taken. -/
def allowed : DramOp cfg.n → Prop
  | .arrive spid mf => mf.subPartitionId = c.subPartitionId spid
  | .drain spid => c.dramL2Queue spid ≠ []
  | .cycle _ => True

instance (o : DramOp cfg.n) : Decidable (c.allowed o) := by
  cases o <;> unfold allowed <;> infer_instance

end MemoryPartition

end FlashGpuSim
