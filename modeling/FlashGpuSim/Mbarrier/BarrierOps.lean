import FlashGpuSim.Mbarrier.BarrierSet

/-!
The instructions that reach `barrier_set_t`, the life of a CTA, and runs of the whole. A
mixed or split remote `try_wait` stops the program, as any assertion does.
-/

namespace FlashGpuSim

open Lib

/-- The kinds of `mbarrier` instructions. The first one is the `arrive::one` of the tensor
core. -/
inductive MbarrierInst
  | tcgen05ArriveOne
  | init
  | tryWait
  | completeTx
  | arrive (isArrive isExpectTx : Bool)
  | inval
  deriving DecidableEq, Repr

inductive BarrierType
  | sync
  | arrive
  | red
  deriving DecidableEq, Repr

namespace MbarrierInfo

/-- Two lanes name the same remote barrier. -/
def sameRemote (a b : MbarrierInfo) : Bool :=
  a.barId == b.barId && a.barParity == b.barParity && a.remoteCid == b.remoteCid &&
    a.remoteHwCta == b.remoteHwCta

end MbarrierInfo

/-- The active lanes with operands. -/
def validLanes (lanes : List ActiveLane) : List ActiveLane :=
  lanes.filter fun l => l.info.isValid

def remoteLanes (lanes : List ActiveLane) : List ActiveLane :=
  lanes.filter fun l => l.info.isValid && l.info.isRemote

namespace BarrierSet

variable (u : BarrierSet)

/-- `tcgen05` `arrive::one`: one arrival for the warp. -/
def tcgen05ArriveOne (ctaId warpId : Nat) (lanes : List ActiveLane) (now : Nat) : BarrierSet :=
  match validLanes lanes with
  | [] => u
  | l :: _ => u.arriveMbarrierAsync ctaId warpId l.info.barId now

def initLane (ctaId warpId : Nat) (l : ActiveLane) : BarrierSet :=
  { u with manager := u.manager.init (u.threadIndex ctaId warpId) l.info.barId l.info.barCount }

def invalLane (ctaId warpId : Nat) (l : ActiveLane) : Except BarrierFailure BarrierSet := do
  let m ← liftManager (u.manager.inval (u.threadIndex ctaId warpId) l.info.barId)
  return { u with manager := m }

/-- The park of a warp until a remote barrier reports its phase. -/
def parkRemote (ctaId warpId inst : Nat) (lanes : List ActiveLane) (info : MbarrierInfo) :
    BarrierSet :=
  let u := u.injectRemoteMbar info.remoteCid info.remoteHwCta info.barId .waitReg 0 ctaId warpId
    info.barParity.toInt
  { u.setWaiting warpId .mbarrier none with
    trywaitInst := Function.update u.trywaitInst warpId (some (inst, lanes.map ActiveLane.lane))
    remoteParks := insert warpId u.remoteParks }

/-- For how long a lane may be suspended. -/
def suspensionCycles (info : MbarrierInfo) : Nat :=
  if info.barHasTimeHint then mbarrierHintNsToCycles info.barTimeHintNs u.config.coreFreqHz
  else u.config.mbarrierTrywaitLatency

/-- The first query of a lane. -/
def startLane (t : ThreadIndex) (now : Nat) (l : ActiveLane) (m : MbarrierManager) :
    Except BarrierFailure (LaneWait × MbarrierManager) := do
  require l.info.isValid .missingOperands
  let complete ← liftManager (m.testWait t l.info.barId l.info.barParity.toInt)
  let lane : LaneWait :=
    { lane := l.lane
      addr := l.info.barId
      parity := l.info.barParity
      hasTimeHint := l.info.barHasTimeHint
      timeHintNs := l.info.barTimeHintNs }
  if complete || mbarrierLatchesInitialPredicate l.info.barHasTimeHint
      u.config.mbarrierPredicateLatency then
    return ({ lane with resolved := true, result := complete, deadlineCycle := now }, m)
  let lane := { lane with
    deadlineCycle := mbarrierSaturatingAdd now (u.suspensionCycles l.info) }
  if u.suspensionCycles l.info = 0 then return ({ lane with resolved := true }, m)
  let m ← liftManager (m.registerWait t l.info.barId)
  return (lane, m)

def startLanes (t : ThreadIndex) (now : Nat) :
    List ActiveLane → MbarrierManager → Except BarrierFailure (List LaneWait × MbarrierManager)
  | [], m => return ([], m)
  | l :: rest, m => do
    let (lane, m) ← u.startLane t now l m
    let (lanes, m) ← startLanes t now rest m
    return (lane :: lanes, m)

/-- A false result that is latched suspends the wait, one without suspension does not. -/
def latchedFalse (l : LaneWait) : Bool :=
  mbarrierLatchesInitialPredicate l.hasTimeHint u.config.mbarrierPredicateLatency && !l.result

/-- The cycle at which the predicate of a wait without unresolved lanes is visible. -/
def initialReleaseCycle (wait : PendingMbarrierWait) (now : Nat) : Nat :=
  mbarrierResultReleaseCycle now now
    (if wait.hasNoHint then u.config.mbarrierPredicateLatency else 0) 0

def tryWaitLocal (ctaId warpId inst dynamicWarpId now : Nat) (lanes : List ActiveLane) :
    Except BarrierFailure BarrierSet := do
  let t := u.threadIndex ctaId warpId
  let (waits, m) ← u.startLanes t now lanes u.manager
  require (!waits.isEmpty) .missingOperands
  let unresolved := waits.any (fun l => !l.resolved)
  let wait : PendingMbarrierWait :=
    { hwCtaId := ctaId
      swCtaId := t.swCtaId
      dynamicWarpId := dynamicWarpId
      issueCycle := now
      nextRecheckCycle := nextRecheck waits
      hasNoHint := waits.any (fun l => !l.hasTimeHint)
      suspended := unresolved || waits.any u.latchedFalse
      staticInst := inst
      lanes := waits }
  let u := { u with manager := m }
  if unresolved then return (u.setWait warpId wait).setWaiting warpId .mbarrier none
  else
    let releaseCycle := u.initialReleaseCycle wait now
    if releaseCycle = now then (u.setWait warpId wait).finishMbarrierWait warpId
    else
      let delayed : PendingMbarrierWait :=
        { wait with resultReadyDelayPending := true, nextRecheckCycle := releaseCycle }
      return (u.setWait warpId delayed).setWaiting warpId .mbarrier none

def tryWait (ctaId warpId inst dynamicWarpId now : Nat) (lanes : List ActiveLane) :
    Except BarrierFailure BarrierSet := do
  require (u.pendingWaits warpId).isNone .pendingWait
  match remoteLanes lanes, u.config.hasRemotePath with
  | r :: rest, true =>
    require (lanes.all (fun l => l.info.isValid && l.info.isRemote) &&
      rest.all (fun l => l.info.sameRemote r.info)) .mixedRemote
    return u.parkRemote ctaId warpId inst lanes r.info
  | _, _ => u.tryWaitLocal ctaId warpId inst dynamicWarpId now lanes

/-- The barriers and the waiters after an operation that released some warps. -/
def wake (ctaId addr now : Nat) (released : List Nat) (m : MbarrierManager) : BarrierSet :=
  ((notifyMbarrierPhaseChange { u with manager := m } released now).releaseWarps
    released).notifyRemoteWaiters ctaId addr

def completeTxInst (ctaId warpId now : Nat) (lanes : List ActiveLane) :
    Except BarrierFailure BarrierSet :=
  match validLanes lanes with
  | [] => .ok u
  | r :: rest => do
    require (rest.all fun l => l.info == r.info) .nonUniform
    if r.info.isRemote then
      if u.config.hasRemotePath then
        return u.injectRemoteMbar r.info.remoteCid r.info.remoteHwCta r.info.barId .completeTx
          r.info.barCount
      else return u
    else
      let (released, m) :=
        u.manager.completeTx (u.threadIndex ctaId warpId) r.info.barId r.info.barCount
      return u.wake ctaId r.info.barId now released m

def arriveRemoteLane (isArrive isExpectTx : Bool) (info : MbarrierInfo) : BarrierSet :=
  if u.config.hasRemotePath then
    if isExpectTx && isArrive then
      (u.injectRemoteMbar info.remoteCid info.remoteHwCta info.barId .expectTx
        info.barCount).injectRemoteMbar info.remoteCid info.remoteHwCta info.barId .arrive 1
    else if isArrive then
      u.injectRemoteMbar info.remoteCid info.remoteHwCta info.barId .arrive info.barCount
    else
      u.injectRemoteMbar info.remoteCid info.remoteHwCta info.barId .expectTx info.barCount
  else u

def arriveLane (ctaId warpId now : Nat) (isArrive isExpectTx : Bool) (l : ActiveLane) :
    Except BarrierFailure BarrierSet :=
  if l.info.isRemote then .ok (u.arriveRemoteLane isArrive isExpectTx l.info)
  else do
    let t := u.threadIndex ctaId warpId
    if isExpectTx && isArrive then
      let m ← liftManager (u.manager.expectTx t l.info.barId l.info.barCount)
      let (released, m) := m.arrive t l.info.barId 1
      return u.wake ctaId l.info.barId now released m
    else if isArrive then
      let (released, m) := u.manager.arrive t l.info.barId l.info.barCount
      return u.wake ctaId l.info.barId now released m
    else
      let m ← liftManager (u.manager.expectTx t l.info.barId l.info.barCount)
      return { u with manager := m }

/-- The cycles for which an arrival holds its warp. -/
def arriveHold (isArrive isExpectTx : Bool) (lanes : List ActiveLane) : Nat :=
  u.config.mbarrierArriveLatency +
    if isArrive && isExpectTx && (validLanes lanes).any (fun l => l.info.barCount == 0) then 20
    else 0

def arriveInst (ctaId warpId now : Nat) (isArrive isExpectTx : Bool) (lanes : List ActiveLane) :
    Except BarrierFailure BarrierSet := do
  require (isArrive || isExpectTx) .missingOperands
  let hold := u.arriveHold isArrive isExpectTx lanes
  let u ← (validLanes lanes).foldlM
    (fun u l => u.arriveLane ctaId warpId now isArrive isExpectTx l) u
  if isArrive then return u.holdWarp warpId hold .mbarrier
  else return u

def warpReachesMbarrier (ctaId warpId : Nat) (inst : MbarrierInst) (pc : Nat)
    (lanes : List ActiveLane) (dynamicWarpId now : Nat) : Except BarrierFailure BarrierSet :=
  match inst with
  | .tcgen05ArriveOne => .ok (u.tcgen05ArriveOne ctaId warpId lanes now)
  | .init => .ok ((validLanes lanes).foldl (fun u l => u.initLane ctaId warpId l) u)
  | .tryWait => u.tryWait ctaId warpId pc dynamicWarpId now lanes
  | .completeTx => u.completeTxInst ctaId warpId now lanes
  | .arrive isArrive isExpectTx => u.arriveInst ctaId warpId now isArrive isExpectTx lanes
  | .inval => (validLanes lanes).foldlM (fun u l => u.invalLane ctaId warpId l) u

def namedBarrierWaiters (barId : Nat) (participants : Finset Nat) : List Nat :=
  u.warpIds.filter fun w => w ∈ participants ∧ w ∈ u.warpAtBarrier ∧
    u.warpBarrierType w = .barSync ∧ u.warpNamedBarrierId w = some barId

def releaseDelayed (warpId latency : Nat) (type : BarrierWaitType) :
    Except BarrierFailure BarrierSet :=
  if latency = 0 then u.clearWarpWaiting warpId type
  else .ok { u with pendingReleases := u.pendingReleases ++ [⟨latency, warpId, type⟩] }

def clearNamedBarrierWaiters (waiters : List Nat) : Except BarrierFailure BarrierSet :=
  waiters.foldlM (fun u w => u.releaseDelayed w u.config.barrierReleaseLatency .barSync) u

def releaseBarrier (ctaId barId : Nat) (atBarrier : Finset Nat) :
    Except BarrierFailure BarrierSet := do
  let waiters := u.namedBarrierWaiters barId atBarrier
  let u ← clearNamedBarrierWaiters
    { u with barIdToWarps :=
        Function.update u.barIdToWarps barId (u.barIdToWarps barId \ atBarrier) } waiters
  return { u with barIdToCount := Function.update u.barIdToCount (ctaId, barId) 0 }

/-- The arrival of a warp, before any release. -/
def enterBarrier (ctaId warpId : Nat) (barType : BarrierType) (barId : Nat)
    (barCount : Option Nat) : BarrierSet :=
  let u := { u with
    barIdToWarps := Function.update u.barIdToWarps barId (insert warpId (u.barIdToWarps barId))
    barIdToCount :=
      if barCount.isSome then
        Function.update u.barIdToCount (ctaId, barId)
          (u.barIdToCount (ctaId, barId) + u.config.warpSize)
      else u.barIdToCount }
  if barType = .arrive then u else u.setWaiting warpId .barSync (some barId)

/-- All active warps of the CTA, or enough threads, have arrived. -/
def barrierReached (ctaId barId : Nat) (barCount : Option Nat) (warpsInCta : Finset Nat) : Bool :=
  match barCount with
  | none => decide (warpsInCta ∩ u.barIdToWarps barId = warpsInCta ∩ u.warpActive)
  | some count => decide (u.barIdToCount (ctaId, barId) ≥ count)

def warpReachesBarrier (ctaId warpId : Nat) (barType : BarrierType) (barId : Nat)
    (barCount : Option Nat) : Except BarrierFailure BarrierSet :=
  match u.ctaToWarps ctaId with
  | none => .error .noCta
  | some warpsInCta => do
    require (warpId ∈ warpsInCta) .notInCta
    let u := u.enterBarrier ctaId warpId barType barId barCount
    if u.barrierReached ctaId barId barCount warpsInCta then
      u.releaseBarrier ctaId barId (warpsInCta ∩ u.barIdToWarps barId)
    else return u

/-- The waits that only the scheduler looks at. -/
def enterWait (warpId : Nat) (type : BarrierWaitType) : Except BarrierFailure BarrierSet := do
  require (warpId ∉ u.warpAtBarrier) .alreadyWaiting
  return u.setWaiting warpId type none

def waitCpAsyncGroup (warpId : Nat) : Except BarrierFailure BarrierSet :=
  u.enterWait warpId .cpAsyncGroup

def waitTcgen05Warp (warpId : Nat) : Except BarrierFailure BarrierSet :=
  u.enterWait warpId .tcgen05

def waitClusterBarrier (warpId : Nat) : Except BarrierFailure BarrierSet :=
  u.enterWait warpId .cluster

def setWgmmaWaitingWarps (warpIds : List Nat) : Except BarrierFailure BarrierSet :=
  warpIds.foldlM (fun u w => u.enterWait w .wgmmaGroup) u

/-- The answer of the bulk-group manager says whether the wait is over at once. -/
def waitBulkGroup (warpId : Nat) (satisfied : Bool) : Except BarrierFailure BarrierSet :=
  if satisfied then .ok u else u.enterWait warpId .bulkGroup

def releaseTcgen05Warp (warpId : Nat) : Except BarrierFailure BarrierSet :=
  u.clearWarpWaiting warpId .tcgen05

def releaseClusterBarrier (warpId : Nat) : Except BarrierFailure BarrierSet :=
  u.clearWarpWaiting warpId .cluster

def releaseWgmmaWarps (warpIds : List Nat) : Except BarrierFailure BarrierSet :=
  warpIds.foldlM (fun u w => u.clearWarpWaiting w .wgmmaGroup) u

def completeBulkTx (warpId : Nat) (satisfied : Bool) : Except BarrierFailure BarrierSet :=
  if satisfied then u.clearWarpWaiting warpId .bulkGroup else .ok u

def releaseCpAsyncWarp (warpId : Nat) : Except BarrierFailure BarrierSet := do
  require (u.Waiting warpId .cpAsyncGroup) .wrongWaitType
  u.releaseDelayed warpId u.config.cpAsyncWaitReleaseLatency .cpAsyncGroup

/-- The arrivals without those of some warps; the code clears the barriers it has. -/
def clearBarriers (warps : Finset Nat) (bar : Nat) : Finset Nat :=
  if bar < u.config.maxBarriersPerCta then u.barIdToWarps bar \ warps else u.barIdToWarps bar

/-- The warps start with a CTA, which the SM knows under its software name. -/
def allocateBarrier (ctaId : Nat) (warps : Finset Nat) (info : Nat → WarpInfo) :
    Except BarrierFailure BarrierSet := do
  require (decide (ctaId < u.config.maxCtaPerCore) && (u.ctaToWarps ctaId).isNone) .ctaBusy
  return { u with
    ctaToWarps := Function.update u.ctaToWarps ctaId (some warps)
    barIdToWarps := u.clearBarriers warps
    barIdToCount := fun key => if key.1 = ctaId then 0 else u.barIdToCount key
    warpActive := u.warpActive ∪ warps
    warpAtBarrier := u.warpAtBarrier \ warps
    warpNamedBarrierId := fun w => if w ∈ warps then none else u.warpNamedBarrierId w
    warps := fun w => if w ∈ warps then info w else u.warps w
    remoteParks := u.remoteParks \ warps }

def deallocateBarrier (ctaId : Nat) : Except BarrierFailure BarrierSet :=
  match u.ctaToWarps ctaId with
  | none => .ok u
  | some warps => do
    let u ← u.cleanupCtaPendingMbarrierWaits ctaId
    require (warps ∩ u.warpAtBarrier = ∅ ∧ warps ∩ u.warpActive = ∅) .ctaBusy
    return { u with
      ctaToWarps := Function.update u.ctaToWarps ctaId none
      barIdToWarps := u.clearBarriers warps
      barIdToCount := fun key => if key.1 = ctaId then 0 else u.barIdToCount key
      warpNamedBarrierId := fun w => if w ∈ warps then none else u.warpNamedBarrierId w }

def cleanupCtaMbarriers (ctaId : Nat) : Except BarrierFailure BarrierSet := do
  let u ← u.cleanupCtaPendingMbarrierWaits ctaId
  return { u with manager := u.manager.cleanupCta ctaId }

def resetMbarrier : Except BarrierFailure BarrierSet := do
  let u ← (u.waitsWhere (fun _ => true)).foldlM (fun u w => u.cancelMbarrierWait w true) u
  return { u with manager := {} }

/-- The exit of a warp may be the last arrival of a barrier of its CTA, which the code
looks up. -/
def warpExit (ctaId warpId : Nat) : Except BarrierFailure BarrierSet := do
  let u ← u.cancelMbarrierWait warpId true
  let u := { u with
    warpActive := u.warpActive.erase warpId
    warpNamedBarrierId := Function.update u.warpNamedBarrierId warpId none }
  match u.ctaToWarps ctaId with
  | none => .error .noCta
  | some warpsInCta =>
    require (warpId ∈ warpsInCta) .notInCta
    (List.range u.config.maxBarriersPerCta).foldlM (fun u bar =>
      let atBarrier := warpsInCta ∩ u.barIdToWarps bar
      if atBarrier = warpsInCta ∩ u.warpActive then u.releaseBarrier ctaId bar atBarrier
      else .ok u) u

end BarrierSet

/-- The calls of the barrier set. -/
inductive BarrierOp
  | reachMbarrier (ctaId warpId : Nat) (inst : MbarrierInst) (pc : Nat) (lanes : List ActiveLane)
      (dynamicWarpId now : Nat)
  | reachBarrier (ctaId warpId : Nat) (barType : BarrierType) (barId : Nat)
      (barCount : Option Nat)
  | completeTx (ctaId warpId mbarAddr completedTxCount now : Nat)
  | prepareAsyncArrival (ctaId warpId mbarAddr : Nat) (incrementPending : Bool)
  | arriveAsync (ctaId warpId mbarAddr now : Nat)
  | tryCompleteTxIfPending (ctaId mbarAddr completedTxCount : Nat)
  | remoteArrive (ctaId mbarAddr arrivalCount : Nat)
  | remoteExpectTx (ctaId mbarAddr expectedTxCount : Nat)
  | registerRemoteWait (ctaId mbarAddr : Nat) (w : RemoteWaiter)
  | notifyRemoteWaiters (ctaId mbarAddr : Nat)
  | releaseRemoteWaiter (warpId : Nat)
  | cycle (now : Nat)
  | holdWarp (warpId latency : Nat) (type : BarrierWaitType)
  | waitCpAsyncGroup (warpId : Nat)
  | releaseCpAsyncWarp (warpId : Nat)
  | waitTcgen05Warp (warpId : Nat)
  | releaseTcgen05Warp (warpId : Nat)
  | waitClusterBarrier (warpId : Nat)
  | releaseClusterBarrier (warpId : Nat)
  | setWgmmaWaitingWarps (warpIds : List Nat)
  | releaseWgmmaWarps (warpIds : List Nat)
  | waitBulkGroup (warpId : Nat) (satisfied : Bool)
  | completeBulkTx (warpId : Nat) (satisfied : Bool)
  | allocate (ctaId : Nat) (warps : Finset Nat) (info : Nat → WarpInfo)
  | deallocate (ctaId : Nat)
  | cleanupCta (ctaId : Nat)
  | reset
  | warpExit (ctaId warpId : Nat)

namespace BarrierSet

variable (u : BarrierSet)

def step : BarrierOp → Except BarrierFailure BarrierSet
  | .reachMbarrier ctaId warpId inst pc lanes dynamicWarpId now =>
    u.warpReachesMbarrier ctaId warpId inst pc lanes dynamicWarpId now
  | .reachBarrier ctaId warpId barType barId barCount =>
    u.warpReachesBarrier ctaId warpId barType barId barCount
  | .completeTx ctaId warpId mbarAddr completedTxCount now =>
    .ok (u.completeTx ctaId warpId mbarAddr completedTxCount now)
  | .prepareAsyncArrival ctaId warpId mbarAddr incrementPending =>
    u.prepareMbarrierAsyncArrival ctaId warpId mbarAddr incrementPending
  | .arriveAsync ctaId warpId mbarAddr now => .ok (u.arriveMbarrierAsync ctaId warpId mbarAddr now)
  | .tryCompleteTxIfPending ctaId mbarAddr completedTxCount =>
    .ok (u.tryCompleteTxIfPending ctaId mbarAddr completedTxCount)
  | .remoteArrive ctaId mbarAddr arrivalCount => .ok (u.remoteArrive ctaId mbarAddr arrivalCount)
  | .remoteExpectTx ctaId mbarAddr expectedTxCount =>
    u.remoteExpectTx ctaId mbarAddr expectedTxCount
  | .registerRemoteWait ctaId mbarAddr w => .ok (u.registerRemoteWait ctaId mbarAddr w).2
  | .notifyRemoteWaiters ctaId mbarAddr => .ok (u.notifyRemoteWaiters ctaId mbarAddr)
  | .releaseRemoteWaiter warpId => u.releaseRemoteWaiter warpId
  | .cycle now => u.cycle now
  | .holdWarp warpId latency type => .ok (u.holdWarp warpId latency type)
  | .waitCpAsyncGroup warpId => u.waitCpAsyncGroup warpId
  | .releaseCpAsyncWarp warpId => u.releaseCpAsyncWarp warpId
  | .waitTcgen05Warp warpId => u.waitTcgen05Warp warpId
  | .releaseTcgen05Warp warpId => u.releaseTcgen05Warp warpId
  | .waitClusterBarrier warpId => u.waitClusterBarrier warpId
  | .releaseClusterBarrier warpId => u.releaseClusterBarrier warpId
  | .setWgmmaWaitingWarps warpIds => u.setWgmmaWaitingWarps warpIds
  | .releaseWgmmaWarps warpIds => u.releaseWgmmaWarps warpIds
  | .waitBulkGroup warpId satisfied => u.waitBulkGroup warpId satisfied
  | .completeBulkTx warpId satisfied => u.completeBulkTx warpId satisfied
  | .allocate ctaId warps info => u.allocateBarrier ctaId warps info
  | .deallocate ctaId => u.deallocateBarrier ctaId
  | .cleanupCta ctaId => u.cleanupCtaMbarriers ctaId
  | .reset => u.resetMbarrier
  | .warpExit ctaId warpId => u.warpExit ctaId warpId

/-- A warp of a CTA. -/
def InCta (ctaId warpId : Nat) : Prop := ∃ warps, u.ctaToWarps ctaId = some warps ∧ warpId ∈ warps

instance (ctaId warpId : Nat) : Decidable (u.InCta ctaId warpId) :=
  match h : u.ctaToWarps ctaId with
  | none => .isFalse (by rintro ⟨warps, heq, -⟩; rw [h] at heq; cases heq)
  | some warps => decidable_of_iff (warpId ∈ warps)
      ⟨fun hmem => ⟨warps, h, hmem⟩, by
        rintro ⟨warps', heq, hmem⟩
        rw [h] at heq
        cases heq
        exact hmem⟩

/-- What the callers of the barrier set see to: a warp that waits issues nothing, the warps
of a new CTA belong to no other, and only a remote path reports remote waits. -/
def Valid : BarrierOp → Prop
  | .reachMbarrier ctaId warpId _ _ _ _ _ =>
    warpId < u.config.maxWarpsPerCore ∧ u.InCta ctaId warpId ∧ warpId ∉ u.warpAtBarrier
  | .reachBarrier _ warpId barType _ _ => barType ≠ .arrive → warpId ∉ u.warpAtBarrier
  | .registerRemoteWait _ _ _ => u.config.hasRemotePath = true
  | .holdWarp warpId _ _ => warpId ∉ u.warpAtBarrier
  | .allocate _ warps info =>
    (∀ w ∈ warps, w < u.config.maxWarpsPerCore) ∧
      (∀ ctaId < u.config.maxCtaPerCore, ∀ w ∈ warps, ¬ u.InCta ctaId w) ∧
      ∀ w ∈ warps, ∀ w' ∈ warps, (info w).swCtaId = (info w').swCtaId
  | _ => True

instance (op : BarrierOp) : Decidable (u.Valid op) := by
  unfold Valid
  split <;> infer_instance

end BarrierSet

end FlashGpuSim
