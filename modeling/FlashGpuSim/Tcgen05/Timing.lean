import FlashGpuSim.Lib.Outcome
import Mathlib.Logic.Function.Basic

/-!
`tcgen05_unit_t`: when the asynchronous tensor-core operations of an SM complete, and the
commits and waits that depend on them. Statistics are left out, and with them the stall
cycles that `can_enqueue` counts. A history records the calls, for the proofs only; the
operations and controls that are under way carry the place of their call in it.
-/

namespace FlashGpuSim

open Lib

/-- `tcgen05_op_kind_t` -/
inductive TimingOpKind
  | mma
  | cp
  | shift
  | ld
  | st
  deriving DecidableEq, Repr

structure ThreadStreamKey where
  hwCtaId : Nat := 0
  warpId : Nat := 0
  laneId : Nat := 0
  ctaGroup : Nat := 1
  deriving DecidableEq, Repr

structure WarpStreamKey where
  hwCtaId : Nat := 0
  warpId : Nat := 0
  deriving DecidableEq, Repr

/-- The stream of an operation: that of a thread, or the loads or stores of a warp. -/
inductive TimingStream
  | thread (stream : ThreadStreamKey)
  | warp (stream : WarpStreamKey) (kind : TimingOpKind)
  deriving DecidableEq, Repr

def TimingStream.hwCtaId : TimingStream → Nat
  | .thread stream => stream.hwCtaId
  | .warp stream _ => stream.hwCtaId

/-- `tcgen05_timing_config_t`; the proof fields are the assertions of the constructor. -/
structure TimingConfig where
  mmaIssueInterval : Nat := 1
  mmaCompletionTailLatency : Nat := 0
  mmaF16FlopsPerCycle : Nat := 1
  asyncQueueDepth : Nat := 0
  interval_pos : 0 < mmaIssueInterval := by decide
  flops_pos : 0 < mmaF16FlopsPerCycle := by decide

/-- `tcgen05_op_t` -/
structure TimingOp where
  kind : TimingOpKind := .mma
  work : Nat := 0
  completionLatency : Nat := 1
  initiationInterval : Nat := 1
  deriving DecidableEq, Repr

inductive CompletionKind
  | mbarrierArrival
  | releaseLdWait
  | releaseStWait
  deriving DecidableEq, Repr

/-- `tcgen05_completion_event_t`. The last field is a history variable: the call that the
event belongs to. -/
structure CompletionEvent where
  kind : CompletionKind
  hwCtaId : Nat
  warpId : Nat
  mbarrierAddr : Nat := 0
  serial : Nat := 0
  deriving DecidableEq, Repr

/-- `pending_op_t` -/
structure PendingOp where
  stream : TimingStream
  kind : TimingOpKind
  sequence : Nat
  backendDoneCycle : Nat
  completionCycle : Nat
  serial : Nat := 0
  deriving DecidableEq, Repr

structure PendingCommit where
  stream : ThreadStreamKey
  cutoff : Nat
  mbarrierAddr : Nat
  serial : Nat := 0
  deriving DecidableEq, Repr

structure PendingWait where
  stream : WarpStreamKey
  kind : TimingOpKind
  cutoff : Nat
  serial : Nat := 0
  deriving DecidableEq, Repr

/-- A call that has an effect on the operations and the controls. -/
inductive TimingEvent
  | enqueued (stream : TimingStream) (completionCycle : Nat)
  | committed (stream : ThreadStreamKey) (mbarrierAddr : Nat)
  | waited (stream : WarpStreamKey) (kind : TimingOpKind)
  | cycled (cycle : Nat)
  | cleaned (hwCtaId : Nat)
  deriving DecidableEq, Repr

/-- The assertions of the unit. -/
inductive TimingFailure
  | opKind
  | cannotEnqueue
  | noWork
  | latency
  deriving DecidableEq, Repr

/-- Addition of `uint64_t` numbers. -/
def add64 (a b : Nat) : Nat := (a + b) % 2 ^ 64

/-- The state of the unit. The three maps of sequence numbers are one map by stream, in
which a missing entry is zero. -/
structure Tcgen05Unit where
  config : TimingConfig
  pendingOps : List PendingOp := []
  pendingCommits : List PendingCommit := []
  pendingWaits : List PendingWait := []
  completionEvents : List CompletionEvent := []
  nextSequence : TimingStream → Nat := fun _ => 0
  nextIssueCycle : TimingOpKind → Nat := fun _ => 0
  mmaBackendAvailableCycle : Nat := 0
  mmaBusyPeriodStartCycle : Nat := 0
  mmaBusyPeriodWork : Nat := 0
  history : List TimingEvent := []

def PendingCommit.event (c : PendingCommit) : CompletionEvent where
  kind := .mbarrierArrival
  hwCtaId := c.stream.hwCtaId
  warpId := c.stream.warpId
  mbarrierAddr := c.mbarrierAddr
  serial := c.serial

def PendingWait.event (w : PendingWait) : CompletionEvent where
  kind := if w.kind = .ld then .releaseLdWait else .releaseStWait
  hwCtaId := w.stream.hwCtaId
  warpId := w.stream.warpId
  serial := w.serial

namespace Tcgen05Unit

variable (u : Tcgen05Unit)

def canEnqueue (kind : TimingOpKind) (cycle : Nat) : Bool :=
  !(u.config.asyncQueueDepth != 0 && decide (u.pendingOps.length ≥ u.config.asyncQueueDepth)) &&
    decide (u.nextIssueCycle kind ≤ cycle)

def record (e : TimingEvent) : Tcgen05Unit := { u with history := u.history ++ [e] }

/-- The operation goes to the end of the queue, with the next number of its stream. -/
def pushOp (stream : TimingStream) (kind : TimingOpKind) (backendDoneCycle completionCycle : Nat) :
    Tcgen05Unit :=
  { u with
    pendingOps := u.pendingOps ++ [
      { stream := stream
        kind := kind
        sequence := u.nextSequence stream + 1
        backendDoneCycle := backendDoneCycle
        completionCycle := completionCycle
        serial := u.history.length }]
    nextSequence := Function.update u.nextSequence stream (u.nextSequence stream + 1)
    history := u.history ++ [.enqueued stream completionCycle] }

/-- The start and the work of the busy period that an MMA operation extends or opens. -/
def busyPeriod (work cycle : Nat) : Nat × Nat :=
  if cycle ≥ u.mmaBackendAvailableCycle then (cycle, work)
  else (u.mmaBusyPeriodStartCycle, add64 u.mmaBusyPeriodWork work)

def enqueueMma (stream : ThreadStreamKey) (work cycle : Nat) : Tcgen05Unit :=
  let (start, total) := u.busyPeriod work cycle
  let computeCycles := max 1
    ((add64 total u.config.mmaF16FlopsPerCycle + 2 ^ 64 - 1) % 2 ^ 64 /
      u.config.mmaF16FlopsPerCycle)
  let done := add64 start computeCycles
  { u.pushOp (.thread stream) .mma done (add64 done u.config.mmaCompletionTailLatency) with
    mmaBusyPeriodStartCycle := start
    mmaBusyPeriodWork := total
    mmaBackendAvailableCycle := done
    nextIssueCycle :=
      Function.update u.nextIssueCycle .mma (add64 cycle u.config.mmaIssueInterval) }

/-- An operation that takes its latency. -/
def enqueueFixed (stream : TimingStream) (op : TimingOp) (cycle : Nat) : Tcgen05Unit :=
  let done := add64 cycle op.completionLatency
  { u.pushOp stream op.kind done done with
    nextIssueCycle :=
      Function.update u.nextIssueCycle op.kind (add64 cycle op.initiationInterval) }

def enqueueThreadOp (stream : ThreadStreamKey) (op : TimingOp) (cycle : Nat) :
    Except TimingFailure Tcgen05Unit := do
  require (op.kind = .mma ∨ op.kind = .cp ∨ op.kind = .shift) .opKind
  require (u.canEnqueue op.kind cycle) .cannotEnqueue
  if op.kind = .mma then
    require (0 < op.work) .noWork
    return u.enqueueMma stream op.work cycle
  else
    require (0 < op.completionLatency ∧ 0 < op.initiationInterval) .latency
    return u.enqueueFixed (.thread stream) op cycle

def enqueueWarpMemOp (stream : WarpStreamKey) (op : TimingOp) (cycle : Nat) :
    Except TimingFailure Tcgen05Unit := do
  require (op.kind = .ld ∨ op.kind = .st) .opKind
  require (0 < op.completionLatency ∧ 0 < op.initiationInterval) .latency
  require (u.canEnqueue op.kind cycle) .cannotEnqueue
  return u.enqueueFixed (.warp stream op.kind) op cycle

/-- `thread_cutoff_satisfied` and `warp_cutoff_satisfied` -/
def cutoffSatisfied (stream : TimingStream) (cutoff : Nat) : Bool :=
  u.pendingOps.all fun op => !(op.stream == stream && decide (op.sequence ≤ cutoff))

def commitSatisfied (c : PendingCommit) : Bool := u.cutoffSatisfied (.thread c.stream) c.cutoff

def waitSatisfied (w : PendingWait) : Bool := u.cutoffSatisfied (.warp w.stream w.kind) w.cutoff

def resolveControls : Tcgen05Unit :=
  { u with
    completionEvents := u.completionEvents ++
      ((u.pendingCommits.filter u.commitSatisfied).map PendingCommit.event ++
        (u.pendingWaits.filter u.waitSatisfied).map PendingWait.event)
    pendingCommits := u.pendingCommits.filter (fun c => !u.commitSatisfied c)
    pendingWaits := u.pendingWaits.filter (fun w => !u.waitSatisfied w) }

def commit (stream : ThreadStreamKey) (mbarrierAddr : Nat) : Tcgen05Unit :=
  resolveControls { u with
    pendingCommits := u.pendingCommits ++ [
      { stream := stream
        cutoff := u.nextSequence (.thread stream)
        mbarrierAddr := mbarrierAddr
        serial := u.history.length }]
    history := u.history ++ [.committed stream mbarrierAddr] }

/-- `wait_ld` and `wait_st`: true when there is nothing to wait for. -/
def wait (stream : WarpStreamKey) (kind : TimingOpKind) : Bool × Tcgen05Unit :=
  let cutoff := u.nextSequence (.warp stream kind)
  if u.cutoffSatisfied (.warp stream kind) cutoff then (true, u)
  else (false, { u with
    pendingWaits := u.pendingWaits ++ [
      { stream := stream
        kind := kind
        cutoff := cutoff
        serial := u.history.length }]
    history := u.history ++ [.waited stream kind] })

def waitLd (stream : WarpStreamKey) : Bool × Tcgen05Unit := u.wait stream .ld

def waitSt (stream : WarpStreamKey) : Bool × Tcgen05Unit := u.wait stream .st

def cycle (now : Nat) : Tcgen05Unit :=
  resolveControls { u with
    pendingOps := u.pendingOps.filter (fun op => decide (now < op.completionCycle))
    history := u.history ++ [.cycled now] }

def takeCompletionEvents : List CompletionEvent × Tcgen05Unit :=
  (u.completionEvents, { u with completionEvents := [] })

/-- The events that were not taken yet stay. -/
def cleanupCta (hwCtaId : Nat) : Tcgen05Unit :=
  { u with
    pendingOps := u.pendingOps.filter (fun op => op.stream.hwCtaId != hwCtaId)
    pendingCommits := u.pendingCommits.filter (fun c => c.stream.hwCtaId != hwCtaId)
    pendingWaits := u.pendingWaits.filter (fun w => w.stream.hwCtaId != hwCtaId)
    nextSequence := fun stream => if stream.hwCtaId = hwCtaId then 0 else u.nextSequence stream
    history := u.history ++ [.cleaned hwCtaId] }

end Tcgen05Unit

end FlashGpuSim
