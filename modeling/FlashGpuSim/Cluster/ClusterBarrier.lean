import FlashGpuSim.Lib.Reach
import Mathlib.Data.Finset.SDiff

/-!
The cluster barrier of `simt_core_cluster`. Each warp counts the phases at which it has arrived
and those it has left; a waiter leaves a phase when all live warps of its group have arrived at
it. The counters have 32 bits.
-/

namespace FlashGpuSim

open Lib

structure ClusterBarPhase where
  arrived : Nat := 0
  completed : Nat := 0
  deriving DecidableEq, Repr

structure ClusterBarrierWaiter where
  localSm : Nat
  cta : Nat
  warp : Nat
  deriving DecidableEq, Repr

/-- `cluster_bar_key` -/
abbrev ClusterBarKey := Nat × Nat

def ClusterBarrierWaiter.key (w : ClusterBarrierWaiter) : ClusterBarKey := (w.localSm, w.warp)

inductive ClusterBarFailure
  | inactive
  | alreadyWaiting
  | notWaiting
  deriving DecidableEq, Repr

inductive ClusterBarEvent
  | arrived (key : ClusterBarKey)
  | waited (key : ClusterBarKey)
  | released (key : ClusterBarKey)
  | exited (key : ClusterBarKey)
  deriving DecidableEq, Repr

/-- The CTAs of the cluster and their places. -/
structure ClusterLayout where
  numCores : Nat
  maxCtaPerShader : Nat
  maxWarpsPerShader : Nat
  /-- `m_cta_tb_cluster_group` of an SM and a slot. -/
  ctaGroup : Nat → Nat → Nat
  /-- `m_cta_to_warps` of an SM. -/
  ctaWarps : Nat → Nat → Finset Nat
  /-- `m_tb_cluster_group_sizes` -/
  groupSizes : Nat → Option Nat
  /-- `m_tb_cluster_group_issued` -/
  groupIssued : Nat → Option Nat

/-- `groups` are the keys of `m_cluster_barrier_waiters`, in the order in which a loop meets
them; the last field is a history. -/
structure ClusterBarriers where
  layout : ClusterLayout
  ctaActive : Nat → Nat → Bool
  warpActive : Nat → Finset Nat
  /-- The warps that wait at the cluster barrier. -/
  atBarrier : Finset ClusterBarKey := ∅
  phases : ClusterBarKey → Option ClusterBarPhase := fun _ => none
  groups : List Nat := []
  waiters : Nat → List ClusterBarrierWaiter := fun _ => []
  dsmBusy : Nat → Nat → Bool := fun _ _ => false
  log : List ClusterBarEvent := []

namespace ClusterBarriers

variable (c : ClusterBarriers)

def activeWarpMask (sm slot : Nat) : Finset Nat := c.layout.ctaWarps sm slot ∩ c.warpActive sm

/-- The active slots of a group. -/
def groupSlots (group : Nat) : List (Nat × Nat) :=
  (List.range c.layout.numCores).flatMap fun sm =>
    ((List.range c.layout.maxCtaPerShader).filter fun slot =>
      c.ctaActive sm slot && c.layout.ctaGroup sm slot == group).map fun slot => (sm, slot)

def liveWarps (group : Nat) : List ClusterBarKey :=
  (c.groupSlots group).flatMap fun (sm, slot) =>
    ((List.range c.layout.maxWarpsPerShader).filter fun w => w ∈ c.activeWarpMask sm slot).map
      fun w => (sm, w)

/-- How many warps have to arrive; CTAs that are not issued yet count as well. -/
def expected (group : Nat) (waiters : List ClusterBarrierWaiter) : Nat :=
  let live := (c.liveWarps group).length
  match c.layout.groupSizes group, waiters with
  | some size, front :: _ =>
    let issued := (c.layout.groupIssued group).getD (c.groupSlots group).length
    if issued < size then
      live + (size - issued) * (c.activeWarpMask front.localSm front.cta).card
    else live
  | _, _ => live

/-- The phase that a waiter is to leave. -/
def required (key : ClusterBarKey) : Nat :=
  (((c.phases key).getD {}).completed + 1) % 2 ^ 32

def arrivedAt (phase : Nat) (key : ClusterBarKey) : Bool :=
  (c.phases key).any fun p => decide (phase ≤ p.arrived)

/-- The waiters of a group that may leave, with the phases that they leave. -/
def readyWaiters (group : Nat) : List (ClusterBarrierWaiter × Nat) :=
  let waiters := c.waiters group
  let expected := c.expected group waiters
  if expected ≠ 0 ∧ waiters.all (fun w => !c.dsmBusy w.localSm w.cta) then
    (waiters.map fun w => (w, c.required w.key)).filter fun (_, phase) =>
      decide (expected ≤ (c.liveWarps group).countP (c.arrivedAt phase))
  else []

/-- Only the warp that leaves a phase advances. -/
def completePhase (key : ClusterBarKey) (phase : Nat) : ClusterBarriers :=
  match c.phases key with
  | some p =>
    if phase ≤ p.arrived ∧ p.completed < phase then
      { c with phases := Function.update c.phases key (some { p with completed := phase }) }
    else c
  | none => c

/-- `release_from_cluster_barrier`, after the phase is complete. -/
def releaseWaiter (ready : ClusterBarrierWaiter × Nat) : Except ClusterBarFailure ClusterBarriers := do
  let c := c.completePhase ready.1.key ready.2
  require (decide (ready.1.key ∈ c.atBarrier)) .notWaiting
  return { c with
    atBarrier := c.atBarrier.erase ready.1.key
    log := c.log ++ [.released ready.1.key] }

/-- One iteration of `release_ready_cluster_barriers`. -/
def releaseGroup (group : Nat) : Except ClusterBarFailure ClusterBarriers := do
  let ready := c.readyWaiters group
  let c ← ready.foldlM releaseWaiter c
  let keep := (c.waiters group).filter fun w => !(ready.map fun r => r.1.key).contains w.key
  return { c with
    waiters := Function.update c.waiters group keep
    groups := if keep = [] then c.groups.erase group else c.groups }

def releaseReadyClusterBarriers : Except ClusterBarFailure ClusterBarriers :=
  c.groups.foldlM releaseGroup c

/-- A second arrival before the wait of its phase is complete does not count. -/
def clusterBarrierArrive (localSm warp : Nat) : Except ClusterBarFailure ClusterBarriers :=
  let phase := (c.phases (localSm, warp)).getD {}
  let phase :=
    if phase.arrived = phase.completed then
      { phase with arrived := (phase.completed + 1) % 2 ^ 32 }
    else phase
  releaseReadyClusterBarriers { c with
    phases := Function.update c.phases (localSm, warp) (some phase)
    log := c.log ++ [.arrived (localSm, warp)] }

def clusterBarrierWait (localSm cta warp : Nat) : Except ClusterBarFailure ClusterBarriers := do
  require (c.ctaActive localSm cta) .inactive
  let group := c.layout.ctaGroup localSm cta
  if (c.waiters group).any fun w => w.localSm == localSm && w.warp == warp then return c
  else
    require (decide ((localSm, warp) ∉ c.atBarrier)) .alreadyWaiting
    releaseReadyClusterBarriers { c with
      atBarrier := insert (localSm, warp) c.atBarrier
      waiters := Function.update c.waiters group (c.waiters group ++ [⟨localSm, cta, warp⟩])
      groups := if group ∈ c.groups then c.groups else c.groups ++ [group]
      log := c.log ++ [.waited (localSm, warp)] }

/-- The warp leaves the live mask, and then the cluster barrier. -/
def clusterBarrierWarpExit (localSm warp : Nat) : Except ClusterBarFailure ClusterBarriers :=
  let keep (ws : List ClusterBarrierWaiter) :=
    ws.filter fun w => !(w.localSm == localSm && w.warp == warp)
  releaseReadyClusterBarriers { c with
    warpActive := Function.update c.warpActive localSm ((c.warpActive localSm).erase warp)
    phases := Function.update c.phases (localSm, warp) none
    waiters := fun group => keep (c.waiters group)
    groups := c.groups.filter fun group => keep (c.waiters group) ≠ []
    log := c.log ++ [.exited (localSm, warp)] }

end ClusterBarriers

/-- Warps arrive, wait and exit, the last thread of a CTA is gone, and DSM operations start and
complete, with a new look at the barriers or without one. A hash table may be reordered. -/
inductive ClusterBarOp
  | arrive (localSm cta warp : Nat)
  | wait (localSm cta warp : Nat)
  | exit (localSm warp : Nat)
  | finish (localSm slot : Nat)
  | dsm (busy : Nat → Nat → Bool) (recheck : Bool)
  | rehash (groups : List Nat)

namespace ClusterBarriers

variable (c : ClusterBarriers)

def step : ClusterBarOp → Except ClusterBarFailure ClusterBarriers
  | .arrive localSm _ warp => c.clusterBarrierArrive localSm warp
  | .wait localSm cta warp => c.clusterBarrierWait localSm cta warp
  | .exit localSm warp => c.clusterBarrierWarpExit localSm warp
  | .finish localSm slot => releaseReadyClusterBarriers { c with
      ctaActive := Function.update c.ctaActive localSm
        (Function.update (c.ctaActive localSm) slot false) }
  | .dsm busy recheck =>
    if recheck then releaseReadyClusterBarriers { c with dsmBusy := busy }
    else .ok { c with dsmBusy := busy }
  | .rehash groups => .ok { c with groups := groups }

/-- A live warp of a CTA that does not wait issues the instructions of the barrier. -/
def Issues (localSm cta warp : Nat) : Prop :=
  localSm < c.layout.numCores ∧ cta < c.layout.maxCtaPerShader ∧
    warp < c.layout.maxWarpsPerShader ∧ c.ctaActive localSm cta = true ∧
      warp ∈ c.activeWarpMask localSm cta ∧ (localSm, warp) ∉ c.atBarrier

instance (localSm cta warp : Nat) : Decidable (c.Issues localSm cta warp) :=
  inferInstanceAs (Decidable (_ ∧ _ ∧ _ ∧ _ ∧ _ ∧ _))

/-- A CTA is finished when its warps have left the live mask. -/
def allowed : ClusterBarOp → Prop
  | .arrive localSm cta warp | .wait localSm cta warp => c.Issues localSm cta warp
  | .exit localSm warp => warp ∈ c.warpActive localSm
  | .finish localSm slot => c.activeWarpMask localSm slot = ∅
  | .dsm _ _ => True
  | .rehash groups => groups.Perm c.groups

instance : (o : ClusterBarOp) → Decidable (c.allowed o)
  | .arrive localSm cta warp | .wait localSm cta warp =>
    inferInstanceAs (Decidable (c.Issues localSm cta warp))
  | .exit localSm warp => inferInstanceAs (Decidable (warp ∈ c.warpActive localSm))
  | .finish localSm slot => inferInstanceAs (Decidable (c.activeWarpMask localSm slot = ∅))
  | .dsm _ _ => .isTrue trivial
  | .rehash groups => inferInstanceAs (Decidable (groups.Perm c.groups))

/-- The operations after which the barriers have been looked at. -/
def rechecks : ClusterBarOp → Bool
  | .arrive _ _ _ | .wait _ _ _ | .exit _ _ | .finish _ _ => true
  | .dsm _ recheck => recheck
  | .rehash _ => false

/-- All CTAs of the groups are issued, each warp belongs to one, and none has used the
barrier. -/
structure Start : Prop where
  fresh : c.atBarrier = ∅ ∧ c.phases = (fun _ => none) ∧ c.groups = [] ∧
    c.waiters = (fun _ => []) ∧ c.log = []
  issued : ∀ group size, c.layout.groupSizes group = some size →
    ∃ issued, c.layout.groupIssued group = some issued ∧ size ≤ issued
  disjoint : ∀ sm slot slot' w, w ∈ c.layout.ctaWarps sm slot → w ∈ c.layout.ctaWarps sm slot' →
    slot = slot'

end ClusterBarriers

/-! ### What the operations mean -/

/-- How many phases a warp has arrived at and left, and whether it waits. -/
structure ClusterProgress where
  arrivals : Nat := 0
  releases : Nat := 0
  waiting : Bool := false
  deriving DecidableEq, Repr

/-- A repeated arrival does not count, a wait starts and ends once, and an exit ends it as
well. -/
def ClusterProgress.next (key : ClusterBarKey) (p : ClusterProgress) :
    ClusterBarEvent → Option ClusterProgress
  | .arrived k =>
    if k = key ∧ p.arrivals = p.releases then some { p with arrivals := p.releases + 1 } else some p
  | .waited k =>
    if k = key then if p.waiting then none else some { p with waiting := true } else some p
  | .released k =>
    if k = key then
      if p.waiting then some { p with releases := p.releases + 1, waiting := false } else none
    else some p
  | .exited k => if k = key then some { p with waiting := false } else some p

def clusterProgress (log : List ClusterBarEvent) (key : ClusterBarKey) : Option ClusterProgress :=
  log.foldlM (ClusterProgress.next key) {}

end FlashGpuSim
