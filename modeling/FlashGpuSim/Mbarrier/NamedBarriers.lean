import FlashGpuSim.Lib.Reach
import FlashGpuSim.Mbarrier.BarrierOps

/-!
Named barriers as the SM uses them. An arrival that does not wait may become visible later
than it was issued; until then its warp issues no other barrier instruction and does not
exit. A history, which the code does not keep, says which arrivals make up a generation of
a barrier and which of its warps have been released and have resumed.
-/

namespace FlashGpuSim

open Lib

/-- An arrival at a barrier. -/
structure Arrival where
  warpId : Nat
  barType : BarrierType
  barId : Nat
  barCount : Option Nat
  deriving DecidableEq

/-- An arrival that is not visible yet: an entry of `m_named_arrivals`. -/
structure NamedArrival where
  readyCycle : Nat
  ctaId : Nat
  warpId : Nat
  barId : Nat
  barCount : Option Nat

inductive ReleaseCause
  | arrival (a : Arrival)
  | exit (warpId : Nat)
  deriving DecidableEq

/-- `released` names the waiters and the warps to which a reduction is broadcast. -/
inductive NamedEvent
  | allocated (ctaId : Nat) (warps : Finset Nat)
  | arrived (ctaId : Nat) (a : Arrival)
  | exited (ctaId warpId : Nat)
  | released (ctaId barId : Nat) (cause : ReleaseCause) (waiters : List Nat)
      (broadcast : Finset Nat)
  | resumed (warpId : Nat)
  deriving DecidableEq

inductive NamedFailure
  | barrier (e : BarrierFailure)
  | noPendingArrival

def liftBarrier {α : Type} : Except BarrierFailure α → Except NamedFailure α
  | .ok a => .ok a
  | .error e => .error (.barrier e)

namespace BarrierSet

variable (u : BarrierSet)

/-- A warp waits at a named barrier. -/
def NamedAt (w id : Nat) : Prop := u.Waiting w .barSync ∧ u.warpNamedBarrierId w = some id

def NamedWaiting (w : Nat) : Prop := u.Waiting w .barSync ∧ (u.warpNamedBarrierId w).isSome = true

instance (w : Nat) : Decidable (u.NamedWaiting w) :=
  inferInstanceAs (Decidable (u.Waiting w .barSync ∧ (u.warpNamedBarrierId w).isSome = true))

/-- The warps whose wait has ended in between. -/
def ended (after : BarrierSet) : List Nat :=
  u.warpIds.filter fun w => u.NamedWaiting w ∧ ¬ after.NamedWaiting w

/-- A warp that has exited. -/
def markExited (warpId : Nat) : BarrierSet :=
  { u with
    warpActive := u.warpActive.erase warpId
    warpNamedBarrierId := Function.update u.warpNamedBarrierId warpId none }

end BarrierSet

structure NamedCore where
  set : BarrierSet
  arriveVisibilityLatency : Nat
  namedArrivals : List NamedArrival := []
  pendingArrivals : Nat → Nat := fun _ => 0
  log : List NamedEvent := []

namespace NamedCore

variable (c : NamedCore)

def record (set : BarrierSet) (events : List NamedEvent) : NamedCore :=
  { c with set := set, log := c.log ++ events }

/-- A change of the barriers, and the waits that it ends. -/
def resume (set : BarrierSet) : NamedCore :=
  c.record set ((c.set.ended set).map .resumed)

/-- `releaseBarrier`, with its history. -/
def releaseBarrier (ctaId barId : Nat) (cause : ReleaseCause) (atBarrier broadcast : Finset Nat) :
    Except NamedFailure NamedCore := do
  let set ← liftBarrier (c.set.releaseBarrier ctaId barId atBarrier)
  let waiters := c.set.namedBarrierWaiters barId atBarrier
  pure ((c.record c.set [.released ctaId barId cause waiters broadcast]).resume set)

/-- `warp_reaches_barrier`, with its history. -/
def reachBarrier (ctaId : Nat) (a : Arrival) : Except NamedFailure NamedCore :=
  match c.set.ctaToWarps ctaId with
  | none => .error (.barrier .noCta)
  | some warpsInCta => do
    require (decide (a.warpId ∈ warpsInCta)) (.barrier .notInCta)
    let entered := c.record (c.set.enterBarrier ctaId a.warpId a.barType a.barId a.barCount)
      [.arrived ctaId a]
    if entered.set.barrierReached ctaId a.barId a.barCount warpsInCta then
      let atBarrier := warpsInCta ∩ entered.set.barIdToWarps a.barId
      entered.releaseBarrier ctaId a.barId (.arrival a) atBarrier
        (if a.barType = .red then atBarrier else ∅)
    else pure entered

/-- The release of a barrier at which all warps that are left have arrived. -/
def releaseOnExit (ctaId warpId : Nat) (warpsInCta : Finset Nat) (bar : Nat) :
    Except NamedFailure NamedCore :=
  let atBarrier := warpsInCta ∩ c.set.barIdToWarps bar
  if atBarrier = warpsInCta ∩ c.set.warpActive then
    c.releaseBarrier ctaId bar (.exit warpId) atBarrier ∅
  else .ok c

/-- `barrier_set_t::warp_exit`, with its history. -/
def warpExit (ctaId warpId : Nat) : Except NamedFailure NamedCore := do
  let set ← liftBarrier (c.set.cancelMbarrierWait warpId true)
  let exited := c.record (set.markExited warpId) [.exited ctaId warpId]
  match set.ctaToWarps ctaId with
  | none => .error (.barrier .noCta)
  | some warpsInCta => do
    require (decide (warpId ∈ warpsInCta)) (.barrier .notInCta)
    (List.range set.config.maxBarriersPerCta).foldlM
      (fun c bar => c.releaseOnExit ctaId warpId warpsInCta bar) exited

/-- `emplace` keeps the arrivals in the order of their cycles. -/
def insertArrival (e : NamedArrival) : List NamedArrival → List NamedArrival
  | [] => [e]
  | x :: rest =>
    if x.readyCycle ≤ e.readyCycle then x :: insertArrival e rest else e :: x :: rest

/-- `issue_named_arrival` -/
def issueNamedArrival (ctaId : Nat) (a : Arrival) (now : Nat) : Except NamedFailure NamedCore :=
  if c.arriveVisibilityLatency = 0 then c.reachBarrier ctaId a
  else
    let e : NamedArrival :=
      ⟨now + c.arriveVisibilityLatency, ctaId, a.warpId, a.barId, a.barCount⟩
    .ok { c with
      namedArrivals := insertArrival e c.namedArrivals
      pendingArrivals :=
        Function.update c.pendingArrivals a.warpId (c.pendingArrivals a.warpId + 1) }

def issueBarrier (ctaId : Nat) (a : Arrival) (now : Nat) : Except NamedFailure NamedCore :=
  match a.barType with
  | .arrive => c.issueNamedArrival ctaId a now
  | .sync | .red => c.reachBarrier ctaId a

def NamedArrival.arrival (e : NamedArrival) : Arrival := ⟨e.warpId, .arrive, e.barId, e.barCount⟩

/-- One turn of the loop of `process_named_arrivals`; the exit of a warp that is done comes
after its last arrival. -/
def deliver (cycle : Nat) : Except NamedFailure NamedCore :=
  match c.namedArrivals with
  | [] => .ok c
  | e :: rest =>
    if e.readyCycle ≤ cycle then do
      require (decide (0 < c.pendingArrivals e.warpId)) .noPendingArrival
      { c with
        namedArrivals := rest
        pendingArrivals :=
          Function.update c.pendingArrivals e.warpId (c.pendingArrivals e.warpId - 1)
      }.reachBarrier e.ctaId (NamedArrival.arrival e)
    else .ok c

/-- A countdown that has ended. -/
def expire (r : PendingWarpRelease) : Except NamedFailure NamedCore := do
  let set ← liftBarrier (c.set.expire r)
  pure (c.resume set)

/-- `barrier_set_t::cycle`, with its history. -/
def cycle (now : Nat) : Except NamedFailure NamedCore := do
  let ticked := c.set.pendingReleases.map BarrierSet.PendingWarpRelease.tick
  let c ← (ticked.reverse.filter (fun r => r.remaining = 0)).foldlM expire
    { c with set := { c.set with pendingReleases := ticked.filter (fun r => r.remaining ≠ 0) } }
  let set ← liftBarrier
    ((c.set.waitsWhere (fun wait => decide (now ≥ wait.nextRecheckCycle))).foldlM
      (fun u w => u.recheck w now) c.set)
  pure { c with set := set }

/-- The other operations of the barrier set. -/
def operate (op : BarrierOp) : Except NamedFailure NamedCore :=
  match op with
  | .cycle now => c.cycle now
  | .allocate ctaId warps info => do
    let set ← liftBarrier (c.set.allocateBarrier ctaId warps info)
    pure (c.record set [.allocated ctaId warps])
  | op => do
    let set ← liftBarrier (c.set.step op)
    pure { c with set := set }

end NamedCore

/-- What the SM does with its barriers. A warp issues a barrier instruction, a delayed
arrival becomes visible, a warp exits, and everything else. -/
inductive NamedOp
  | issue (ctaId : Nat) (a : Arrival) (now : Nat)
  | deliver (cycle : Nat)
  | exit (ctaId warpId : Nat)
  | operate (op : BarrierOp)

namespace NamedCore

variable (c : NamedCore)

def step : NamedOp → Except NamedFailure NamedCore
  | .issue ctaId a now => c.issueBarrier ctaId a now
  | .deliver cycle => c.deliver cycle
  | .exit ctaId warpId => c.warpExit ctaId warpId
  | .operate op => c.operate op

/-- The operations that reach the barriers in no other way, and hold no warp as if it waited at
a barrier. -/
def direct : BarrierOp → Bool
  | .reachBarrier _ _ _ _ _ | .warpExit _ _ => false
  | .holdWarp _ _ type => decide (type ≠ .barSync)
  | _ => true

/-- What the SM sees to. A warp of the CTA issues a barrier instruction once its earlier arrivals
are visible, which is what `named_barrier_issue_ready` waits for, and so does the exit. -/
def allowed : NamedOp → Prop
  | .issue ctaId a _ => c.set.InCta ctaId a.warpId ∧ a.warpId ∈ c.set.warpActive ∧
      a.warpId ∉ c.set.warpAtBarrier ∧ c.pendingArrivals a.warpId = 0
  | .deliver _ => True
  | .exit _ warpId => ¬ c.set.Waiting warpId .barSync ∧ c.pendingArrivals warpId = 0
  | .operate op => c.set.Valid op ∧ direct op = true

instance : (o : NamedOp) → Decidable (c.allowed o)
  | .issue ctaId a _ => inferInstanceAs (Decidable (c.set.InCta ctaId a.warpId ∧
      a.warpId ∈ c.set.warpActive ∧ a.warpId ∉ c.set.warpAtBarrier ∧
      c.pendingArrivals a.warpId = 0))
  | .deliver _ => .isTrue trivial
  | .exit _ warpId => inferInstanceAs (Decidable (¬ c.set.Waiting warpId .barSync ∧
      c.pendingArrivals warpId = 0))
  | .operate op => inferInstanceAs (Decidable (c.set.Valid op ∧ direct op = true))

end NamedCore

/-! ### Histories -/

section History

variable (log : List NamedEvent) (ctaId barId w : Nat)

/-- The arrivals of the current generation of a barrier. -/
def Arrival.next (ctaId barId : Nat) (arrivals : List Arrival) : NamedEvent → List Arrival
  | .allocated cta _ => if cta = ctaId then [] else arrivals
  | .arrived cta a => if cta = ctaId ∧ a.barId = barId then arrivals ++ [a] else arrivals
  | .released cta id _ _ _ => if cta = ctaId ∧ id = barId then [] else arrivals
  | .exited _ _ | .resumed _ => arrivals

def generation : List Arrival := log.foldl (Arrival.next ctaId barId) []

/-- The warps of a CTA that have not exited. -/
def remainingWarps (ctaId : Nat) (warps : Finset Nat) : NamedEvent → Finset Nat
  | .allocated cta new => if cta = ctaId then new else warps
  | .exited cta w => if cta = ctaId then warps.erase w else warps
  | .arrived _ _ | .released _ _ _ _ _ | .resumed _ => warps

def nonExited : Finset Nat := log.foldl (remainingWarps ctaId) ∅

inductive WaitState
  | idle
  | waiting
  | released
  deriving DecidableEq

/-- A wait is entered once, released once and resumed from once. -/
def WaitState.next (w : Nat) (s : WaitState) : NamedEvent → Option WaitState
  | .arrived _ a =>
    if a.warpId = w ∧ a.barType ≠ .arrive then if s = .idle then some .waiting else none
    else some s
  | .released _ _ _ waiters _ =>
    if w ∈ waiters then if s = .waiting then some .released else none else some s
  | .resumed w' => if w' = w then if s = .released then some .idle else none else some s
  | .allocated _ _ | .exited _ _ => some s

def waitState : Option WaitState := log.foldlM (WaitState.next w) .idle

end History

namespace NamedCore

variable (c : NamedCore)

/-- No arrival bit of a CTA at a barrier is older than the current generation. -/
def Fresh (ctaId barId : Nat) (warps : Finset Nat) : Prop :=
  ∀ w ∈ warps, w ∈ c.set.barIdToWarps barId → ∃ a ∈ generation c.log ctaId barId, a.warpId = w

end NamedCore

end FlashGpuSim
