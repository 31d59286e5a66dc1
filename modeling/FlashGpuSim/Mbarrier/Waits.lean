import FlashGpuSim.Mbarrier.Manager
import Mathlib.Logic.Function.Basic

/-!
The records of `barrier_set_t`: what keeps a warp waiting, and until when. Cycles are
`uint64_t` numbers; conversions from nanoseconds are exact.
-/

namespace FlashGpuSim

/-- The largest `uint64_t`. -/
def maxCycle : Nat := 2 ^ 64 - 1

def mbarrierSaturatingAdd (cycle delta : Nat) : Nat :=
  if cycle > maxCycle - delta then maxCycle else cycle + delta

def mbarrierHintNsToCycles (hintNs coreFreqHz : Nat) : Nat :=
  (hintNs * coreFreqHz + (1000000000 - 1)) / 1000000000

/-- `mbarrier_recheck_action_t` -/
inductive RecheckAction
  | keepSleeping
  | returnTrue
  | returnFalse
  deriving DecidableEq, Repr

def mbarrierClassifyRecheck (phaseComplete : Bool) (cycle deadlineCycle : Nat) :
    RecheckAction :=
  if phaseComplete then .returnTrue
  else if cycle ≥ deadlineCycle then .returnFalse
  else .keepSleeping

def mbarrierWakeOnPhaseNotification (scheduledWakeCycle notificationCycle : Nat) : Nat :=
  if scheduledWakeCycle < notificationCycle then scheduledWakeCycle else notificationCycle

theorem mbarrierWakeOnPhaseNotification_le (scheduledWakeCycle notificationCycle : Nat) :
    mbarrierWakeOnPhaseNotification scheduledWakeCycle notificationCycle ≤
      notificationCycle := by
  unfold mbarrierWakeOnPhaseNotification
  split <;> omega

def mbarrierShouldDelayPhaseWakeup (suspended phaseNotificationPending allTrue : Bool)
    (latency : Nat) : Bool :=
  suspended && phaseNotificationPending && allTrue && decide (0 < latency)

def mbarrierLatchesInitialPredicate (hasTimeHint : Bool) (predicateLatency : Nat) : Bool :=
  !hasTimeHint && decide (0 < predicateLatency)

def mbarrierResultReleaseCycle (issueCycle resolutionCycle predicateLatency
    phaseWakeupLatency : Nat) : Nat :=
  max (mbarrierSaturatingAdd issueCycle predicateLatency)
    (mbarrierSaturatingAdd resolutionCycle phaseWakeupLatency)

/-- `barrier_wait_type_t` -/
inductive BarrierWaitType
  | barSync
  | mbarrier
  | bulkGroup
  | cpAsyncGroup
  | wgmmaGroup
  | tcgen05
  | cluster
  deriving DecidableEq, Repr

inductive ClusterMbarOp
  | arrive
  | expectTx
  | completeTx
  | tryCompleteTx
  | waitReg
  | waitDone
  deriving DecidableEq, Repr

/-- `mbarrier_info_t`: the operands of one lane. -/
structure MbarrierInfo where
  barId : Nat := 2 ^ 32 - 1
  barCount : Nat := 2 ^ 32 - 1
  barParity : Bool := false
  barHasTimeHint : Bool := false
  barTimeHintNs : Nat := 0
  isRemote : Bool := false
  remoteCid : Nat := 0
  remoteHwCta : Nat := 0
  deriving DecidableEq, Repr

/-- `is_valid_mbarrier_info` -/
def MbarrierInfo.isValid (info : MbarrierInfo) : Bool := info.barId != 2 ^ 32 - 1

/-- An active lane of the instruction, with its operands. -/
structure ActiveLane where
  lane : Nat
  info : MbarrierInfo
  deriving DecidableEq, Repr

/-- `lane_wait_t` of an active lane -/
structure LaneWait where
  lane : Nat
  resolved : Bool := false
  result : Bool := false
  addr : Nat
  parity : Bool
  hasTimeHint : Bool
  timeHintNs : Nat
  deadlineCycle : Nat := 0
  deriving DecidableEq, Repr

/-- `pending_mbarrier_wait_t` -/
structure PendingMbarrierWait where
  hwCtaId : Nat
  swCtaId : Int
  dynamicWarpId : Nat
  issueCycle : Nat
  nextRecheckCycle : Nat
  phaseNotificationPending : Bool := false
  resultReadyDelayPending : Bool := false
  hasNoHint : Bool
  suspended : Bool
  staticInst : Nat
  lanes : List LaneWait
  deriving DecidableEq, Repr

/-- The earliest deadline of the lanes that still wait. -/
def nextRecheck (lanes : List LaneWait) : Nat :=
  ((lanes.filter (fun l => !l.resolved)).map LaneWait.deadlineCycle).foldl min maxCycle

/-- `pending_warp_release_t` -/
structure PendingWarpRelease where
  remaining : Nat
  warpId : Nat
  type : BarrierWaitType
  deriving DecidableEq, Repr

/-- What the SM knows of the warp in a slot. -/
structure WarpInfo where
  hwCtaId : Nat := 0
  swCtaId : Int := -1
  dynamicWarpId : Nat := 0
  deriving DecidableEq, Repr

/-- A request handed to the cluster, which injects it or queues it for a retry. -/
structure MbarRequest where
  srcCid : Nat
  dstCid : Nat
  dstHwCta : Nat
  gen : Nat
  mbarAddr : Nat
  op : ClusterMbarOp
  count : Nat
  reqHwCta : Nat := 0
  reqWarpId : Nat := 0
  parity : Int := 0
  queued : Bool := false
  deriving DecidableEq, Repr

/-- The answer of the cluster to a request: the generation of the target CTA, and
whether the request is issued at once. -/
structure ClusterAnswer where
  gen : Nat := 0
  issued : Bool := true
  deriving DecidableEq, Repr

/-- The destination predicate of a wait, in one lane. -/
structure PredicateWrite where
  warpId : Nat
  lane : Nat
  inst : Nat
  value : Bool
  deriving DecidableEq, Repr

end FlashGpuSim
