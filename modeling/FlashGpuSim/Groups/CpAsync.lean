import FlashGpuSim.Groups.BulkGroup
import FlashGpuSim.Lib.Reach

/-!
The `cp.async` groups of the TMA unit. A wait counts the groups that are not complete,
where `bulk_group_manager_t` looks for the first one. The count is right exactly when no
more recent group is complete before those that the warp waits for. The release latency
and the mbarrier arrivals that depend on a transaction are left out.
-/

namespace FlashGpuSim

open Lib

/-- The assertions of the groups; a waiting warp is stopped at the barrier set. -/
inductive CpAsyncFailure
  | alreadyWaiting
  | groupMissing
  | infoMissing
  deriving DecidableEq, Repr

/-- `cp_async_warp_group_info_t` -/
structure CpAsyncGroupInfo where
  nextGroupId : Nat := 1
  waitAllowance : Nat := 0
  isWaiting : Bool := false
  pendingTxs : Finset Nat := ∅
  pendingGroups : Table (Finset Nat) := ∅
  txToGroup : Nat → Option Nat := fun _ => none

namespace CpAsyncGroupInfo

variable (info : CpAsyncGroupInfo)

def addTx (txUid : Nat) : CpAsyncGroupInfo :=
  { info with pendingTxs := insert txUid info.pendingTxs }

/-- `emplace` keeps a group that has the identifier already. -/
def commitGroup : CpAsyncGroupInfo :=
  if info.pendingTxs ≠ ∅ then
    { info with
      txToGroup := fun txUid =>
        if txUid ∈ info.pendingTxs then some info.nextGroupId else info.txToGroup txUid
      pendingGroups :=
        if info.pendingGroups.lookup info.nextGroupId = none then
          info.pendingGroups.insert info.nextGroupId info.pendingTxs
        else info.pendingGroups
      pendingTxs := ∅
      nextGroupId := inc32 info.nextGroupId }
  else { info with nextGroupId := inc32 info.nextGroupId }

/-- True when there is nothing to wait for. -/
def waitGroup (maxPendingGroups : Nat) : Except CpAsyncFailure (Bool × CpAsyncGroupInfo) := do
  if info.pendingGroups.size ≤ maxPendingGroups then
    return (true, info)
  require (!info.isWaiting) .alreadyWaiting
  return (false, { info with waitAllowance := maxPendingGroups, isWaiting := true })

/-- The groups without a transaction. -/
def removeTx (txUid : Nat) : Except CpAsyncFailure CpAsyncGroupInfo :=
  match info.txToGroup txUid with
  | none => .ok { info with pendingTxs := info.pendingTxs.erase txUid }
  | some groupId =>
    match info.pendingGroups.lookup groupId with
    | none => .error .groupMissing
    | some group => .ok { info with
        txToGroup := Function.update info.txToGroup txUid none
        pendingGroups :=
          if group.erase txUid = ∅ then info.pendingGroups.erase groupId
          else info.pendingGroups.insert groupId (group.erase txUid) }

/-- The end of a wait, at the end of `complete_tx`. -/
def checkWait : Bool × CpAsyncGroupInfo :=
  if info.isWaiting ∧ info.pendingGroups.size ≤ info.waitAllowance then
    (true, { info with isWaiting := false })
  else (false, info)

/-- True when the warp is released. -/
def completeTx (txUid : Nat) : Except CpAsyncFailure (Bool × CpAsyncGroupInfo) := do
  return (← info.removeTx txUid).checkWait

end CpAsyncGroupInfo

/-- The live transactions, each with its CTA and warp, and the groups of the warps. -/
structure CpAsyncUnit where
  transactions : Nat → Option (Nat × Nat) := fun _ => none
  groupInfo : Nat × Nat → Option CpAsyncGroupInfo := fun _ => none

namespace CpAsyncUnit

variable (u : CpAsyncUnit)

def put (key : Nat × Nat) (info : CpAsyncGroupInfo) : CpAsyncUnit :=
  { u with groupInfo := Function.update u.groupInfo key (some info) }

def infoOf (key : Nat × Nat) : CpAsyncGroupInfo := (u.groupInfo key).getD {}

/-- One access of `warp_reaches_cp_async`. -/
def warpReachesCpAsync (key : Nat × Nat) (txUid : Nat) : CpAsyncUnit :=
  { u.put key ((u.infoOf key).addTx txUid) with
    transactions := Function.update u.transactions txUid (some key) }

def commitCpAsyncGroup (key : Nat × Nat) : CpAsyncUnit :=
  u.put key (u.infoOf key).commitGroup

/-- True when the warp is released at once. The barrier set stops a warp that waits. -/
def waitCpAsyncGroup (key : Nat × Nat) (maxPendingGroups : Nat) :
    Except CpAsyncFailure (Bool × CpAsyncUnit) := do
  require (!(u.infoOf key).isWaiting) .alreadyWaiting
  match u.groupInfo key with
  | none => return (true, u)
  | some info =>
    let (released, info) ← info.waitGroup maxPendingGroups
    return (released, u.put key info)

/-- True when the completion releases the warp. -/
def finalizeCpAsyncTransaction (txUid : Nat) : Except CpAsyncFailure (Bool × CpAsyncUnit) :=
  match u.transactions txUid with
  | none => .ok (false, u)
  | some key =>
    match u.groupInfo key with
    | none => .error .infoMissing
    | some info => do
      let (released, info) ← info.completeTx txUid
      return (released, { u.put key info with
        transactions := Function.update u.transactions txUid none })

def cleanupCta (ctaId : Nat) : CpAsyncUnit :=
  { u with groupInfo := fun key => if key.1 = ctaId then none else u.groupInfo key }

end CpAsyncUnit

end FlashGpuSim
