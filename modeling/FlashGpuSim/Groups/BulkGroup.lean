import FlashGpuSim.Lib.CommitLog
import FlashGpuSim.Lib.Outcome
import FlashGpuSim.Lib.Tables

/-!
`bulk_group_manager_t`: the groups of asynchronous bulk stores of each warp. A group is
pending until its last transaction completes; groups without transactions are never
pending. Group identifiers are 32 bits wide.
-/

namespace FlashGpuSim

open Lib

/-- Subtraction of `unsigned` numbers. -/
def sub32 (a b : Nat) : Nat := (a + 2 ^ 32 - b) % 2 ^ 32

/-- Increment of an `unsigned` number. -/
def inc32 (a : Nat) : Nat := (a + 1) % 2 ^ 32

/-- The assertions of the manager. -/
inductive BulkFailure
  | groupExists
  | groupMissing
  | alreadyWaiting
  | noBulkGroups
  deriving DecidableEq, Repr

structure BulkGroup where
  groupId : Nat
  containedTxs : Finset Nat
  deriving DecidableEq

/-- `warp_bulk_info_t` -/
structure WarpBulkInfo where
  nextGroupId : Nat := 1
  txToGroup : Nat → Option Nat := fun _ => none
  pendingGroups : Table BulkGroup := ∅
  pendingTxs : Finset Nat := ∅
  latestCompletedGroupId : Nat := 0
  waitingGroupId : Nat := 0
  isWaiting : Bool := false

namespace WarpBulkInfo

variable (info : WarpBulkInfo)

def addTx (txUid : Nat) : WarpBulkInfo :=
  { info with pendingTxs := insert txUid info.pendingTxs }

def commitGroup : Except BulkFailure WarpBulkInfo := do
  require (info.pendingGroups.lookup info.nextGroupId = none) .groupExists
  if info.pendingTxs ≠ ∅ then
    return { info with
      txToGroup := fun txUid =>
        if txUid ∈ info.pendingTxs then some info.nextGroupId else info.txToGroup txUid
      pendingGroups := info.pendingGroups.insert info.nextGroupId
        ⟨info.nextGroupId, info.pendingTxs⟩
      pendingTxs := ∅
      nextGroupId := inc32 info.nextGroupId }
  else if info.nextGroupId = inc32 info.latestCompletedGroupId then
    return { info with
      latestCompletedGroupId := inc32 info.latestCompletedGroupId
      nextGroupId := inc32 info.nextGroupId }
  else
    return { info with nextGroupId := inc32 info.nextGroupId }

/-- The loop that skips the empty groups behind a completed one. Each round moves
`latest` towards `next_group_id`, so that many rounds are enough. -/
def skipEmpty (pendingGroups : Table BulkGroup) (nextGroupId : Nat) : Nat → Nat → Nat
  | 0, latest => latest
  | rounds + 1, latest =>
    if inc32 latest < nextGroupId ∧ pendingGroups.lookup (inc32 latest) = none then
      skipEmpty pendingGroups nextGroupId rounds (inc32 latest)
    else latest

/-- The last transaction of a group completed. -/
def completeGroup (groupId : Nat) : WarpBulkInfo :=
  let pendingGroups := info.pendingGroups.erase groupId
  if groupId = inc32 info.latestCompletedGroupId then
    let latest := skipEmpty pendingGroups info.nextGroupId info.nextGroupId
      (inc32 info.latestCompletedGroupId)
    { info with
      pendingGroups := pendingGroups
      latestCompletedGroupId := latest
      isWaiting := info.isWaiting &&
        !decide (sub32 info.nextGroupId info.waitingGroupId ≥ sub32 info.nextGroupId latest) }
  else { info with pendingGroups := pendingGroups }

def completeTx (txUid : Nat) : Except BulkFailure WarpBulkInfo :=
  match info.txToGroup txUid with
  | some groupId =>
    let info := { info with txToGroup := Function.update info.txToGroup txUid none }
    match info.pendingGroups.lookup groupId with
    | some group =>
      let rest := group.containedTxs.erase txUid
      if rest = ∅ then .ok (info.completeGroup groupId)
      else .ok { info with
        pendingGroups := info.pendingGroups.insert groupId { group with containedTxs := rest } }
    | none => .error .groupMissing
  | none => .ok { info with pendingTxs := info.pendingTxs.erase txUid }

def waitGroup (groupNum : Nat) : Except BulkFailure WarpBulkInfo := do
  require (!info.isWaiting) .alreadyWaiting
  let incompleteCount := sub32 (sub32 info.nextGroupId info.latestCompletedGroupId) 1
  if groupNum < incompleteCount then
    return { info with
      waitingGroupId := sub32 (sub32 info.nextGroupId groupNum) 1
      isWaiting := true }
  else return info

end WarpBulkInfo

/-- `m_warp_bulk_info`, by CTA and warp. -/
structure BulkGroupManager where
  warpBulkInfo : Nat × Nat → Option WarpBulkInfo := fun _ => none

namespace BulkGroupManager

variable (mgr : BulkGroupManager)

def put (key : Nat × Nat) (info : WarpBulkInfo) : BulkGroupManager :=
  { mgr with warpBulkInfo := Function.update mgr.warpBulkInfo key (some info) }

/-- The record of a warp, which `operator[]` makes when it is missing. -/
def infoOf (key : Nat × Nat) : WarpBulkInfo := (mgr.warpBulkInfo key).getD {}

def addTx (key : Nat × Nat) (txUid : Nat) : BulkGroupManager :=
  mgr.put key ((mgr.infoOf key).addTx txUid)

def commitBulkGroup (key : Nat × Nat) : Except BulkFailure BulkGroupManager :=
  mgr.put key <$> (mgr.infoOf key).commitGroup

/-- True when the wait is over at once. -/
def waitBulkGroup (key : Nat × Nat) (latestGroupNum : Nat) :
    Except BulkFailure (Bool × BulkGroupManager) :=
  match mgr.warpBulkInfo key with
  | none => .ok (true, mgr)
  | some info => do
    let info ← info.waitGroup latestGroupNum
    return (!info.isWaiting, mgr.put key info)

/-- True when the completion ends a wait. -/
def completeTx (key : Nat × Nat) (txUid : Nat) :
    Except BulkFailure (Bool × BulkGroupManager) :=
  match mgr.warpBulkInfo key with
  | none => .error .noBulkGroups
  | some info => do
    let info' ← info.completeTx txUid
    return (info.isWaiting && !info'.isWaiting, mgr.put key info')

def cleanupCta (ctaId : Nat) : BulkGroupManager :=
  { mgr with
    warpBulkInfo := fun key => if key.1 = ctaId then none else mgr.warpBulkInfo key }

def isWaiting (key : Nat × Nat) : Bool :=
  match mgr.warpBulkInfo key with
  | none => false
  | some info => info.isWaiting

end BulkGroupManager

end FlashGpuSim
