import FlashGpuSim.Groups.CpAsync
import FlashGpuSim.Groups.CpAsyncCoalesce
import FlashGpuSim.Lib.Latch

/-!
The `cp.async` transactions of the TMA unit with the mbarrier arrivals that depend on them.
A transaction and an arrival name each other by their identifiers. The log has the calls of
`prepare_mbarrier_async_arrival` and `arrive_mbarrier_async`, and the beginning and the end
of each transaction. Issuing a transaction to memory and counting the bytes of its
responses is left to the environment, which calls `finalize_cp_async_transaction`.
-/

namespace FlashGpuSim

open Lib

inductive CpAsyncArriveFailure where
  | group (failure : CpAsyncFailure)
  | infoMissing
  | arrivalMissing
  | notPending
  | noBarrier
  | arrivalExists
  | transactionMissing
  deriving DecidableEq, Repr

/-- What does not change of a transaction. -/
structure CpAsyncTask where
  txUid : Nat
  ctaId : Nat
  warpId : Nat
  access : MemAccess
  deriving DecidableEq, Repr

/-- An active lane of an arrive instruction. The lanes are numbered over the whole run;
`mark` is this number. -/
structure LaneArrival where
  mark : Nat
  ctaId : Nat
  warpId : Nat
  lane : Nat
  mbarrierAddr : Nat
  incrementPending : Bool
  deriving DecidableEq, Repr

/-- The transaction carries bytes of this lane of this warp. -/
def LaneArrival.Needs (r : LaneArrival) (t : CpAsyncTask) : Prop :=
  t.ctaId = r.ctaId ∧ t.warpId = r.warpId ∧ t.access.warpMask.getLsbD r.lane = true

instance (r : LaneArrival) : DecidablePred r.Needs := fun t =>
  inferInstanceAs (Decidable (t.ctaId = r.ctaId ∧ t.warpId = r.warpId ∧
    t.access.warpMask.getLsbD r.lane = true))

/-- `cp_async_transaction_t`; the set is in increasing order. -/
structure CpAsyncTransaction where
  access : MemAccess
  ctaId : Nat
  warpId : Nat
  dependentArrivalUids : List Nat := []
  deriving DecidableEq, Repr

namespace CpAsyncTransaction

def task (tx : CpAsyncTransaction) (txUid : Nat) : CpAsyncTask :=
  ⟨txUid, tx.ctaId, tx.warpId, tx.access⟩

def addDependent (tx : CpAsyncTransaction) (arrivalUid : Nat) : CpAsyncTransaction :=
  { tx with dependentArrivalUids :=
      if arrivalUid ∈ tx.dependentArrivalUids then tx.dependentArrivalUids
      else tx.dependentArrivalUids.orderedInsert (· ≤ ·) arrivalUid }

end CpAsyncTransaction

/-- `cp_async_mbarrier_arrival_t` -/
structure CpAsyncMbarrierArrival extends LaneArrival where
  pendingTxUids : Finset Nat
  deriving DecidableEq

/-- A `cp.async` instruction: `accesses` is `memory_coalescing_arch` for a data size. -/
structure CpAsyncInst where
  ctaId : Nat
  warpId : Nat
  dataSize : Nat
  sourceSize : Option Nat
  accesses : Nat → List MemAccess

/-- A `cp.async.mbarrier.arrive` instruction, with the barrier of each lane. -/
structure CpAsyncArriveInst where
  ctaId : Nat
  warpId : Nat
  activeMask : ActiveMask
  barId : Nat → Nat
  noinc : Bool

structure CpAsyncConfig where
  requestGranularity : Nat
  idealizedMemory : Bool
  warpSize : Nat

/-- The identifiers of transactions come from a counter that the bulk transactions and the
units of the other cores draw from too. -/
structure CpAsyncArriveUnit where
  transactions : Table CpAsyncTransaction := ∅
  groupInfo : Nat × Nat → Option CpAsyncGroupInfo := fun _ => none
  arrivals : Table CpAsyncMbarrierArrival := ∅
  nextArrivalUid : Nat := 0
  nextTxUid : Nat := 0
  released : List Nat := []
  log : List (LatchEvent CpAsyncTask LaneArrival) := []

namespace CpAsyncInst

variable (inst : CpAsyncInst)

def cpSize : Nat := if inst.dataSize = 0 then 16 else inst.dataSize

def srcSize : Nat := min (inst.sourceSize.getD inst.cpSize) inst.cpSize

/-- The accesses that become transactions. -/
def requests (config : CpAsyncConfig) : List MemAccess :=
  if inst.srcSize = 0 then []
  else coalesceCpAsyncAccesses (inst.accesses inst.srcSize)
    (effectiveCpAsyncRequestGranularity config.requestGranularity)

end CpAsyncInst

namespace CpAsyncArriveInst

variable (inst : CpAsyncArriveInst)

def lanes (config : CpAsyncConfig) : List Nat :=
  (List.range config.warpSize).filter inst.activeMask.getLsbD

def laneArrival (lane mark : Nat) : LaneArrival :=
  ⟨mark, inst.ctaId, inst.warpId, lane, inst.barId lane, !inst.noinc⟩

end CpAsyncArriveInst

namespace CpAsyncArriveUnit

variable (u : CpAsyncArriveUnit)

def put (key : Nat × Nat) (info : CpAsyncGroupInfo) : CpAsyncArriveUnit :=
  { u with groupInfo := Function.update u.groupInfo key (some info) }

def infoOf (key : Nat × Nat) : CpAsyncGroupInfo := (u.groupInfo key).getD {}

/-- One arrival that depends on the transaction. -/
def completeArrival (task : CpAsyncTask) (u : CpAsyncArriveUnit) (arrivalUid : Nat) :
    Except CpAsyncArriveFailure CpAsyncArriveUnit :=
  match u.arrivals.lookup arrivalUid with
  | none => .error .arrivalMissing
  | some arrival => do
    require (task.txUid ∈ arrival.pendingTxUids) .notPending
    let pendingTxUids := arrival.pendingTxUids.erase task.txUid
    if pendingTxUids = ∅ then
      return { u with
        arrivals := u.arrivals.erase arrivalUid
        log := u.log ++ [.fired arrival.toLaneArrival (some task)] }
    else
      return { u with arrivals := u.arrivals.insert arrivalUid { arrival with pendingTxUids } }

def finalizeCpAsyncTransaction (txUid : Nat) : Except CpAsyncArriveFailure CpAsyncArriveUnit :=
  match u.transactions.lookup txUid with
  | none => .ok u
  | some tx =>
    match u.groupInfo (tx.ctaId, tx.warpId) with
    | none => .error .infoMissing
    | some info => do
      let (shouldRelease, info) ← (info.completeTx txUid).mapError .group
      let u := { u.put (tx.ctaId, tx.warpId) info with
        released := if shouldRelease then u.released ++ [tx.warpId] else u.released
        log := u.log ++ [.closed (tx.task txUid)] }
      let u ← tx.dependentArrivalUids.foldlM (completeArrival (tx.task txUid)) u
      return { u with transactions := u.transactions.erase txUid }

/-- One access of `warp_reaches_cp_async`. -/
def startTransaction (config : CpAsyncConfig) (ctaId warpId : Nat) (u : CpAsyncArriveUnit)
    (access : MemAccess) : Except CpAsyncArriveFailure CpAsyncArriveUnit :=
  let txUid := u.nextTxUid
  let tx : CpAsyncTransaction := { access, ctaId, warpId }
  let u := { u.put (ctaId, warpId) ((u.infoOf (ctaId, warpId)).addTx txUid) with
    transactions := u.transactions.insert txUid tx
    nextTxUid := txUid + 1
    log := u.log ++ [.opened (tx.task txUid)] }
  if config.idealizedMemory then u.finalizeCpAsyncTransaction txUid else .ok u

def warpReachesCpAsync (config : CpAsyncConfig) (inst : CpAsyncInst) :
    Except CpAsyncArriveFailure CpAsyncArriveUnit :=
  if inst.srcSize = 0 then .ok u
  else
    let key := (inst.ctaId, inst.warpId)
    (inst.requests config).foldlM (startTransaction config inst.ctaId inst.warpId)
      (u.put key (u.infoOf key))

/-- The live transactions that carry bytes of a lane. -/
def pendingTxUids (ctaId warpId lane : Nat) : List Nat :=
  (u.transactions.entries.filter fun entry =>
    entry.2.ctaId = ctaId ∧ entry.2.warpId = warpId ∧
      entry.2.access.warpMask.getLsbD lane = true).map Sigma.fst

/-- `m_cp_transactions.at(tx_uid).dependent_arrival_uids.insert(arrival_uid)` -/
def addDependent (arrivalUid : Nat) (u : CpAsyncArriveUnit) (txUid : Nat) :
    Except CpAsyncArriveFailure CpAsyncArriveUnit :=
  match u.transactions.lookup txUid with
  | none => .error .transactionMissing
  | some tx => .ok { u with
      transactions := u.transactions.insert txUid (tx.addDependent arrivalUid) }

/-- One active lane of `warp_reaches_cp_async_mbarrier_arrive`. -/
def laneReachesArrive (inst : CpAsyncArriveInst) (u : CpAsyncArriveUnit) (lane : Nat) :
    Except CpAsyncArriveFailure CpAsyncArriveUnit := do
  require (inst.barId lane ≠ 2 ^ 32 - 1) .noBarrier
  let arrival := inst.laneArrival lane (u.log.filterMap LatchEvent.asking).length
  let pendingTxUids := u.pendingTxUids inst.ctaId inst.warpId lane
  if pendingTxUids = [] then
    return { u with log := u.log ++ [.asked arrival, .fired arrival none] }
  else do
    let arrivalUid := u.nextArrivalUid
    require (u.arrivals.lookup arrivalUid = none) .arrivalExists
    pendingTxUids.foldlM (addDependent arrivalUid) { u with
      nextArrivalUid := inc32 arrivalUid
      arrivals := u.arrivals.insert arrivalUid ⟨arrival, pendingTxUids.toFinset⟩
      log := u.log ++ [.asked arrival] }

def warpReachesCpAsyncMbarrierArrive (config : CpAsyncConfig) (inst : CpAsyncArriveInst) :
    Except CpAsyncArriveFailure CpAsyncArriveUnit :=
  (inst.lanes config).foldlM (laneReachesArrive inst) u

def commitCpAsyncGroup (key : Nat × Nat) : CpAsyncArriveUnit :=
  u.put key (u.infoOf key).commitGroup

/-- The barrier set stops a warp that waits already. -/
def waitCpAsyncGroup (key : Nat × Nat) (maxPendingGroups : Nat) :
    Except CpAsyncArriveFailure CpAsyncArriveUnit := do
  require (!(u.infoOf key).isWaiting) (.group .alreadyWaiting)
  match u.groupInfo key with
  | none => return { u with released := u.released ++ [key.2] }
  | some info =>
    let (satisfied, info) ← (info.waitGroup maxPendingGroups).mapError .group
    return { u.put key info with
      released := if satisfied then u.released ++ [key.2] else u.released }

def cleanupCta (ctaId : Nat) : CpAsyncArriveUnit :=
  { u with groupInfo := fun key => if key.1 = ctaId then none else u.groupInfo key }

/-- The instructions of the warps, the end of a transaction, the end of a CTA, and the
transactions of the others that draw from the counter. -/
inductive Op where
  | cpAsync (inst : CpAsyncInst)
  | arrive (inst : CpAsyncArriveInst)
  | complete (txUid : Nat)
  | commit (key : Nat × Nat)
  | wait (key : Nat × Nat) (maxPendingGroups : Nat)
  | cleanupCta (ctaId : Nat)
  | others (count : Nat)

def step (config : CpAsyncConfig) :
    CpAsyncArriveUnit → Op → Except CpAsyncArriveFailure CpAsyncArriveUnit
  | u, .cpAsync inst => u.warpReachesCpAsync config inst
  | u, .arrive inst => u.warpReachesCpAsyncMbarrierArrive config inst
  | u, .complete txUid => u.finalizeCpAsyncTransaction txUid
  | u, .commit key => .ok (u.commitCpAsyncGroup key)
  | u, .wait key maxPendingGroups => u.waitCpAsyncGroup key maxPendingGroups
  | u, .cleanupCta ctaId => .ok (u.cleanupCta ctaId)
  | u, .others count => .ok { u with nextTxUid := u.nextTxUid + count }

/-- A commit takes an identifier that no pending group has, of 32 bits. A CTA is cleaned up
when `has_pending_for_cta` is false. -/
def Valid (u : CpAsyncArriveUnit) : Op → Prop
  | .commit key => (u.infoOf key).pendingTxs ≠ ∅ →
      (u.infoOf key).pendingGroups.lookup (u.infoOf key).nextGroupId = none
  | .cleanupCta ctaId => ∀ entry ∈ u.transactions.entries, entry.2.ctaId ≠ ctaId
  | _ => True

end CpAsyncArriveUnit

end FlashGpuSim
