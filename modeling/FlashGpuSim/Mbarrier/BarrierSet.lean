import FlashGpuSim.Mbarrier.Waits
import Mathlib.Data.Finset.SDiff

/-!
`barrier_set_t`: which warps of an SM wait, for what, and who releases them. What the
bulk-group manager, the WGMMA unit and the tensor core decide is a parameter of the
operation that asks for it; the watchdog, the statistics and the traces are left out.
-/

namespace FlashGpuSim

open Lib

structure BarrierConfig where
  maxWarpsPerCore : Nat
  maxCtaPerCore : Nat
  maxBarriersPerCta : Nat
  warpSize : Nat
  barrierReleaseLatency : Nat := 0
  cpAsyncWaitReleaseLatency : Nat := 0
  mbarrierArriveLatency : Nat := 0
  mbarrierTrywaitLatency : Nat := 0
  mbarrierPredicateLatency : Nat := 0
  mbarrierPhaseWakeupLatency : Nat := 0
  coreFreqHz : Nat := 1000000000
  cid : Nat := 0
  /-- `mbar_has_remote_path` -/
  hasRemotePath : Bool := false
  /-- The answers of the cluster to the requests, in their order. -/
  answers : Nat → ClusterAnswer := fun _ => {}

inductive BarrierFailure
  | manager (e : MbarrierFailure)
  | wrongWaitType
  | alreadyWaiting
  | noPendingWait
  | pendingWait
  | unresolvedLane
  | unexpectedRelease
  | mixedRemote
  | missingOperands
  | nonUniform
  | noCta
  | notInCta
  | ctaBusy
  deriving DecidableEq, Repr

def liftManager {α : Type} : Except MbarrierFailure α → Except BarrierFailure α
  | .ok a => .ok a
  | .error e => .error (.manager e)

/-- The last field is a history variable: the warps parked by a remote `try_wait` whose
end was not reported yet. -/
structure BarrierSet where
  config : BarrierConfig
  manager : MbarrierManager := {}
  ctaToWarps : Nat → Option (Finset Nat) := fun _ => none
  barIdToWarps : Nat → Finset Nat := fun _ => ∅
  barIdToCount : Nat × Nat → Nat := fun _ => 0
  warpActive : Finset Nat := ∅
  warpAtBarrier : Finset Nat := ∅
  warpBarrierType : Nat → BarrierWaitType := fun _ => .barSync
  warpNamedBarrierId : Nat → Option Nat := fun _ => none
  pendingWaits : Nat → Option PendingMbarrierWait := fun _ => none
  pendingReleases : List PendingWarpRelease := []
  trywaitInst : Nat → Option (Nat × List Nat) := fun _ => none
  warps : Nat → WarpInfo := fun _ => {}
  requests : List MbarRequest := []
  predicates : List PredicateWrite := []
  remoteParks : Finset Nat := ∅

namespace BarrierSet

variable (u : BarrierSet)

/-- The warps of the core, in their order. -/
def warpIds : List Nat := List.range u.config.maxWarpsPerCore

/-- The condition of `assert_warp_waiting`. -/
def Waiting (warpId : Nat) (expectedType : BarrierWaitType) : Prop :=
  warpId < u.config.maxWarpsPerCore ∧ warpId ∈ u.warpAtBarrier ∧
    u.warpBarrierType warpId = expectedType

instance (warpId : Nat) (expectedType : BarrierWaitType) :
    Decidable (u.Waiting warpId expectedType) := inferInstanceAs (Decidable (_ ∧ _ ∧ _))

def setWaiting (warpId : Nat) (type : BarrierWaitType) (bar : Option Nat) : BarrierSet :=
  { u with
    warpAtBarrier := insert warpId u.warpAtBarrier
    warpBarrierType := Function.update u.warpBarrierType warpId type
    warpNamedBarrierId := Function.update u.warpNamedBarrierId warpId bar }

def dropWaiting (warpId : Nat) : BarrierSet :=
  { u with
    warpAtBarrier := u.warpAtBarrier.erase warpId
    warpNamedBarrierId := Function.update u.warpNamedBarrierId warpId none }

def clearWarpWaiting (warpId : Nat) (expectedType : BarrierWaitType) :
    Except BarrierFailure BarrierSet := do
  require (u.Waiting warpId expectedType) .wrongWaitType
  return u.dropWaiting warpId

/-- A wait whose phase has changed is rechecked by the next cycle. -/
def notified (wait : PendingMbarrierWait) (now : Nat) : PendingMbarrierWait :=
  if wait.resultReadyDelayPending then wait
  else { wait with
    phaseNotificationPending := true
    nextRecheckCycle := mbarrierWakeOnPhaseNotification wait.nextRecheckCycle now }

def notifyMbarrierPhaseChange (notifiedWarps : List Nat) (now : Nat) : BarrierSet :=
  { u with
    pendingWaits := fun warpId =>
      if warpId ∈ notifiedWarps then (u.pendingWaits warpId).map (notified · now)
      else u.pendingWaits warpId }

def releaseWarps (releasedWarps : List Nat) : BarrierSet :=
  if 0 < u.config.mbarrierTrywaitLatency then
    { u with
      pendingReleases := u.pendingReleases ++
        (releasedWarps.filter (fun w => u.Waiting w .mbarrier)).map
          (fun w => PendingWarpRelease.mk u.config.mbarrierTrywaitLatency w .mbarrier) }
  else u

def applyTrywaitPred (warpId : Nat) (phaseComplete : Bool) : BarrierSet :=
  match u.trywaitInst warpId with
  | some (inst, lanes) =>
    { u with
      predicates := u.predicates ++
        lanes.map (fun lane => PredicateWrite.mk warpId lane inst phaseComplete) }
  | none => u

/-- The waits of the lanes are cancelled, and the wait bit is cleared with them. -/
def endWait (warpId : Nat) (wait : PendingMbarrierWait) (clearWaitBit : Bool) :
    Except BarrierFailure BarrierSet := do
  let u := { u with
    manager := wait.lanes.foldl (fun m l => m.cancelWait wait.swCtaId l.addr warpId) u.manager
    pendingWaits := Function.update u.pendingWaits warpId none }
  if clearWaitBit ∧ warpId ∈ u.warpAtBarrier ∧ u.warpBarrierType warpId = .mbarrier then
    u.clearWarpWaiting warpId .mbarrier
  else return u

def finishMbarrierWait (warpId : Nat) : Except BarrierFailure BarrierSet :=
  match u.pendingWaits warpId with
  | none => .error .noPendingWait
  | some wait => do
    require (wait.lanes.all LaneWait.resolved) .unresolvedLane
    let u := { u with
      predicates := u.predicates ++
        wait.lanes.map (fun l : LaneWait => PredicateWrite.mk warpId l.lane wait.staticInst l.result) }
    u.endWait warpId wait true

def cancelMbarrierWait (warpId : Nat) (clearWaitBit : Bool) : Except BarrierFailure BarrierSet :=
  match u.pendingWaits warpId with
  | none => .ok u
  | some wait => u.endWait warpId wait clearWaitBit

/-- The warps whose wait meets a condition, in their order. -/
def waitsWhere (p : PendingMbarrierWait → Bool) : List Nat :=
  u.warpIds.filter fun w => (u.pendingWaits w).any p

def cleanupCtaPendingMbarrierWaits (hwCtaId : Nat) : Except BarrierFailure BarrierSet :=
  (u.waitsWhere (fun wait => wait.hwCtaId == hwCtaId)).foldlM
    (fun u w => u.cancelMbarrierWait w true) u

def holdWarp (warpId latency : Nat) (type : BarrierWaitType) : BarrierSet :=
  if latency = 0 then u
  else
    { u.setWaiting warpId type none with
      pendingReleases := u.pendingReleases ++ [⟨latency, warpId, type⟩] }

/-- The end of a countdown. -/
def expire (r : PendingWarpRelease) : Except BarrierFailure BarrierSet :=
  if r.type = .mbarrier ∧ ((u.pendingWaits r.warpId).isSome ∨ ¬ u.Waiting r.warpId .mbarrier) then
    .ok u
  else do
    require (r.type = .barSync ∨ r.type = .cpAsyncGroup ∨ r.type = .mbarrier ∨
      r.type = .bulkGroup) .unexpectedRelease
    u.clearWarpWaiting r.warpId r.type

def PendingWarpRelease.tick (r : PendingWarpRelease) : PendingWarpRelease :=
  { r with remaining := r.remaining - 1 }

def expireReleases : Except BarrierFailure BarrierSet :=
  let ticked := u.pendingReleases.map PendingWarpRelease.tick
  (ticked.reverse.filter (fun r => r.remaining = 0)).foldlM expire
    { u with pendingReleases := ticked.filter (fun r => r.remaining ≠ 0) }

def recheckLane (t : ThreadIndex) (now : Nat) (l : LaneWait) (m : MbarrierManager) :
    Except MbarrierFailure (LaneWait × MbarrierManager) := do
  if l.resolved then return (l, m)
  let complete ← m.testWait t l.addr l.parity.toInt
  match mbarrierClassifyRecheck complete now l.deadlineCycle with
  | .returnTrue => return ({ l with resolved := true, result := true }, m)
  | .returnFalse => return ({ l with resolved := true, result := false }, m)
  | .keepSleeping =>
    let m ← m.registerWait t l.addr
    return (l, m)

def recheckLanes (t : ThreadIndex) (now : Nat) :
    List LaneWait → MbarrierManager → Except MbarrierFailure (List LaneWait × MbarrierManager)
  | [], m => return ([], m)
  | l :: rest, m => do
    let (l, m) ← recheckLane t now l m
    let (rest, m) ← recheckLanes t now rest m
    return (l :: rest, m)

def setWait (warpId : Nat) (wait : PendingMbarrierWait) : BarrierSet :=
  { u with pendingWaits := Function.update u.pendingWaits warpId (some wait) }

/-- The cycle at which the predicate of a resolved wait is visible. -/
def recheckReleaseCycle (wait : PendingMbarrierWait) (lanes : List LaneWait) (now : Nat) : Nat :=
  let delayPhaseWakeup := mbarrierShouldDelayPhaseWakeup wait.suspended
    wait.phaseNotificationPending (lanes.all LaneWait.result) u.config.mbarrierPhaseWakeupLatency
  mbarrierResultReleaseCycle wait.issueCycle now
    (if wait.hasNoHint then u.config.mbarrierPredicateLatency else 0)
    (if delayPhaseWakeup then u.config.mbarrierPhaseWakeupLatency else 0)

def recheck (warpId now : Nat) : Except BarrierFailure BarrierSet :=
  match u.pendingWaits warpId with
  | none => .ok u
  | some wait =>
    if ¬ (warpId < u.config.maxWarpsPerCore ∧
        (u.warps warpId).dynamicWarpId = wait.dynamicWarpId ∧
        (u.warps warpId).hwCtaId = wait.hwCtaId) then
      u.cancelMbarrierWait warpId false
    else if wait.resultReadyDelayPending then u.finishMbarrierWait warpId
    else do
      let (lanes, m) ← liftManager
        (recheckLanes ⟨wait.hwCtaId, warpId, wait.swCtaId⟩ now wait.lanes u.manager)
      let u := { u with manager := m }
      if lanes.all LaneWait.resolved then
        if u.recheckReleaseCycle wait lanes now > now then
          return u.setWait warpId { wait with
            lanes := lanes
            phaseNotificationPending := false
            resultReadyDelayPending := true
            nextRecheckCycle := u.recheckReleaseCycle wait lanes now }
        else (u.setWait warpId { wait with lanes := lanes }).finishMbarrierWait warpId
      else
        return u.setWait warpId { wait with
          lanes := lanes
          phaseNotificationPending := false
          nextRecheckCycle := nextRecheck lanes }

def cycle (now : Nat) : Except BarrierFailure BarrierSet := do
  let u ← u.expireReleases
  (u.waitsWhere (fun wait => decide (now ≥ wait.nextRecheckCycle))).foldlM
    (fun u w => u.recheck w now) u

/-- `inject_remote_mbar` -/
def injectRemoteMbar (dstCid dstHwCta mbarAddr : Nat) (op : ClusterMbarOp) (count : Nat)
    (reqHwCta reqWarpId : Nat := 0) (parity : Int := 0) : BarrierSet :=
  let answer := u.config.answers u.requests.length
  { u with
    requests := u.requests ++ [
      { srcCid := u.config.cid
        dstCid := dstCid
        dstHwCta := dstHwCta
        gen := answer.gen
        mbarAddr := mbarAddr
        op := op
        count := count
        reqHwCta := reqHwCta
        reqWarpId := reqWarpId
        parity := parity
        queued := !answer.issued }] }

def threadIndex (ctaId warpId : Nat) : ThreadIndex :=
  ⟨ctaId, warpId, (u.warps warpId).swCtaId⟩

/-- The first warp of a CTA stands for it. -/
def pickCtaThreadIndex (ctaId : Nat) : Option ThreadIndex :=
  match u.ctaToWarps ctaId with
  | none => none
  | some warps => (u.warpIds.find? (fun w => w ∈ warps)).map (u.threadIndex ctaId)

/-- The report to a remote waiter. -/
def reportDone (mbarAddr : Nat) (w : RemoteWaiter) : BarrierSet :=
  u.injectRemoteMbar w.srcCid w.srcHwCta mbarAddr .waitDone 1 w.srcHwCta w.srcWarpId 1

def notifyRemoteWaiters (ctaId mbarAddr : Nat) : BarrierSet :=
  match u.pickCtaThreadIndex ctaId with
  | none => u
  | some t =>
    let (waiters, m) := u.manager.takeSatisfiedRemoteWaiters t.swCtaId mbarAddr
    let u := { u with manager := m }
    if u.config.hasRemotePath then
      waiters.foldl (fun u w => u.reportDone mbarAddr w) u
    else u

def completeTx (ctaId warpId mbarAddr completedTxCount now : Nat) : BarrierSet :=
  let (released, m) :=
    u.manager.completeTx (u.threadIndex ctaId warpId) mbarAddr completedTxCount
  notifyMbarrierPhaseChange { u with manager := m } released now

def prepareMbarrierAsyncArrival (ctaId warpId mbarAddr : Nat) (incrementPending : Bool) :
    Except BarrierFailure BarrierSet := do
  let m ← liftManager
    (u.manager.prepareAsyncArrival (u.threadIndex ctaId warpId) mbarAddr incrementPending)
  return { u with manager := m }

def arriveMbarrierAsync (ctaId warpId mbarAddr now : Nat) : BarrierSet :=
  let (released, m) := u.manager.arrive (u.threadIndex ctaId warpId) mbarAddr 1
  notifyMbarrierPhaseChange { u with manager := m } released now

/-- After an operation of a peer. -/
def wakeForPeer (ctaId mbarAddr : Nat) (released : List Nat) (m : MbarrierManager) :
    BarrierSet :=
  (releaseWarps { u with manager := m } released).notifyRemoteWaiters ctaId mbarAddr

def tryCompleteTxIfPending (ctaId mbarAddr completedTxCount : Nat) : BarrierSet :=
  match u.pickCtaThreadIndex ctaId with
  | none => u
  | some t =>
    let (released, m) := u.manager.tryCompleteTxIfPending t mbarAddr completedTxCount
    u.wakeForPeer ctaId mbarAddr released m

def remoteArrive (ctaId mbarAddr arrivalCount : Nat) : BarrierSet :=
  match u.pickCtaThreadIndex ctaId with
  | none => u
  | some t =>
    let (released, m) := u.manager.arrive t mbarAddr arrivalCount
    u.wakeForPeer ctaId mbarAddr released m

def remoteExpectTx (ctaId mbarAddr expectedTxCount : Nat) : Except BarrierFailure BarrierSet :=
  match u.pickCtaThreadIndex ctaId with
  | none => .ok u
  | some t => do
    let m ← liftManager (u.manager.expectTx t mbarAddr expectedTxCount)
    return { u with manager := m }

def registerRemoteWait (ctaId mbarAddr : Nat) (w : RemoteWaiter) : Bool × BarrierSet :=
  match u.pickCtaThreadIndex ctaId with
  | none => (true, u)
  | some t =>
    let (satisfied, m) := u.manager.registerRemoteWait t.swCtaId mbarAddr w
    (satisfied, { u with manager := m })

def releaseRemoteWaiter (warpId : Nat) : Except BarrierFailure BarrierSet :=
  if warpId ≥ u.config.maxWarpsPerCore then .ok u
  else
    let u := { u.applyTrywaitPred warpId true with
      trywaitInst := Function.update u.trywaitInst warpId none
      remoteParks := u.remoteParks.erase warpId }
    if u.config.mbarrierTrywaitLatency = 0 ∧ u.Waiting warpId .mbarrier then
      u.clearWarpWaiting warpId .mbarrier
    else .ok (u.releaseWarps [warpId])

end BarrierSet

end FlashGpuSim
