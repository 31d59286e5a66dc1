import FlashGpuSim.Lib.Reach
import Mathlib.Data.List.Sort

/-!
`mbarrier_manager_t`: the shared-memory barriers of an SM. A barrier belongs to a
software CTA and an address; `assert` stops the program. Traces are left out, and with
them the identifiers that only they read.
-/

namespace FlashGpuSim

open Lib

/-- `mbarrier_manager_t::thread_index_t` -/
structure ThreadIndex where
  hwCtaId : Nat
  hwWarpId : Nat
  swCtaId : Int
  deriving DecidableEq, Repr

structure RemoteWaiter where
  srcCid : Nat
  srcHwCta : Nat
  srcWarpId : Nat
  parity : Int
  deriving DecidableEq, Repr

/-- The warps of a `std::set<int>`, in increasing order. -/
def insertWarp (warp : Nat) (warps : List Nat) : List Nat :=
  if warp ∈ warps then warps else warps.orderedInsert (· ≤ ·) warp

structure Mbarrier where
  hwCtaId : Nat
  expectedCount : Int
  pendingArrivalCount : Int
  txCount : Int := 0
  phase : Nat := 0
  waitingWarps : List Nat := []
  remoteWaiters : List RemoteWaiter := []
  deriving DecidableEq, Repr

namespace Mbarrier

/-- `m_phase & 1` -/
def parity (b : Mbarrier) : Int := (b.phase % 2 : Nat)

/-- Both counts of the phase are zero. -/
def Complete (b : Mbarrier) : Prop := b.pendingArrivalCount = 0 ∧ b.txCount = 0

instance (b : Mbarrier) : Decidable b.Complete :=
  inferInstanceAs (Decidable (_ ∧ _))

/-- The next phase of a barrier. -/
def advance (b : Mbarrier) : Mbarrier :=
  { b with
    waitingWarps := []
    pendingArrivalCount := b.expectedCount
    phase := b.phase + 1 }

/-- The barrier and the warps that it releases. -/
def tryAdvance (b : Mbarrier) : Mbarrier × List Nat :=
  if b.Complete then (b.advance, b.waitingWarps) else (b, [])

def countArrival (b : Mbarrier) (arrivalCount : Int) : Mbarrier :=
  { b with
    pendingArrivalCount :=
      if arrivalCount ≥ b.pendingArrivalCount then 0
      else b.pendingArrivalCount - arrivalCount }

def completeTx (b : Mbarrier) (completedTxCount : Int) : Mbarrier :=
  { b with txCount := b.txCount - completedTxCount }

def expectTx (b : Mbarrier) (expectedTxCount : Int) : Mbarrier :=
  { b with txCount := b.txCount + expectedTxCount }

def registerWait (b : Mbarrier) (warp : Nat) : Mbarrier :=
  { b with waitingWarps := insertWarp warp b.waitingWarps }

def cancelWait (b : Mbarrier) (warp : Nat) : Mbarrier :=
  { b with waitingWarps := b.waitingWarps.erase warp }

theorem tryAdvance_of_complete {b : Mbarrier} (h : b.Complete) :
    b.tryAdvance = (b.advance, b.waitingWarps) := if_pos h

theorem tryAdvance_of_not {b : Mbarrier} (h : ¬ b.Complete) : b.tryAdvance = (b, []) :=
  if_neg h

end Mbarrier

/-- The assertions of the manager. -/
inductive MbarrierFailure
  | invalMissing
  | waitMissing
  | asyncMissing
  | pendingLimit
  | expectMissing
  deriving DecidableEq, Repr

structure MbarrierManager where
  barriers : Int × Nat → Option Mbarrier := fun _ => none

namespace MbarrierManager

variable (m : MbarrierManager)

/-- `get_mbarrier` -/
def getMbarrier (swCtaId : Int) (addr : Nat) : Option Mbarrier := m.barriers (swCtaId, addr)

def put (swCtaId : Int) (addr : Nat) (b : Mbarrier) : MbarrierManager :=
  { m with barriers := Function.update m.barriers (swCtaId, addr) (some b) }

@[simp] theorem put_at (swCtaId : Int) (addr : Nat) (b : Mbarrier) :
    (m.put swCtaId addr b).barriers (swCtaId, addr) = some b := by
  unfold put
  exact Function.update_self _ _ _

def init (t : ThreadIndex) (addr : Nat) (expectedCount : Int) : MbarrierManager :=
  match m.getMbarrier t.swCtaId addr with
  | some b =>
    m.put t.swCtaId addr
      { b with
        expectedCount := expectedCount
        pendingArrivalCount := expectedCount
        txCount := 0
        phase := 0
        waitingWarps := []
        remoteWaiters := [] }
  | none =>
    m.put t.swCtaId addr
      { hwCtaId := t.hwCtaId
        expectedCount := expectedCount
        pendingArrivalCount := expectedCount }

def inval (t : ThreadIndex) (addr : Nat) : Except MbarrierFailure MbarrierManager :=
  match m.getMbarrier t.swCtaId addr with
  | some _ => .ok { m with barriers := Function.update m.barriers (t.swCtaId, addr) none }
  | none => .error .invalMissing

/-- `cancel_wait` of a warp at every barrier. -/
def cancelWaits (warp : Nat) : MbarrierManager :=
  { m with barriers := fun key => (m.barriers key).map (fun b => b.cancelWait warp) }

/-- `cancel_wait` of a warp at one barrier. -/
def cancelWait (swCtaId : Int) (addr warp : Nat) : MbarrierManager :=
  match m.getMbarrier swCtaId addr with
  | some b => m.put swCtaId addr (b.cancelWait warp)
  | none => m

def cleanupCta (hwCtaId : Nat) : MbarrierManager :=
  { m with barriers := fun key => (m.barriers key).filter (fun b => b.hwCtaId != hwCtaId) }

def testWait (t : ThreadIndex) (addr : Nat) (parity : Int) : Except MbarrierFailure Bool :=
  match m.getMbarrier t.swCtaId addr with
  | some b => .ok (parity != b.parity)
  | none => .error .waitMissing

def registerWait (t : ThreadIndex) (addr : Nat) : Except MbarrierFailure MbarrierManager :=
  match m.getMbarrier t.swCtaId addr with
  | some b => .ok (m.put t.swCtaId addr (b.registerWait t.hwWarpId))
  | none => .error .waitMissing

/-- The answer, the warps released by an advance, and the manager. -/
def tryWait (t : ThreadIndex) (addr : Nat) (parity : Int) :
    Except MbarrierFailure (Bool × List Nat × MbarrierManager) := do
  if ← m.testWait t addr parity then
    return (true, [], m)
  match m.getMbarrier t.swCtaId addr with
  | some b =>
    if b.Complete ∧ b.parity = parity then
      return (true, b.tryAdvance.2, m.put t.swCtaId addr b.tryAdvance.1)
    else return (false, [], m)
  | none => return (false, [], m)

def enqueueWait (t : ThreadIndex) (addr : Nat) : MbarrierManager :=
  match m.getMbarrier t.swCtaId addr with
  | some b => m.put t.swCtaId addr (b.registerWait t.hwWarpId)
  | none => m

/-- The answer is true when there is nothing to wait for. -/
def registerRemoteWait (swCtaId : Int) (addr : Nat) (w : RemoteWaiter) :
    Bool × MbarrierManager :=
  match m.getMbarrier swCtaId addr with
  | some b =>
    if w.parity ≠ b.parity then (true, m)
    else (false, m.put swCtaId addr { b with remoteWaiters := b.remoteWaiters ++ [w] })
  | none => (true, m)

def takeSatisfiedRemoteWaiters (swCtaId : Int) (addr : Nat) :
    List RemoteWaiter × MbarrierManager :=
  match m.getMbarrier swCtaId addr with
  | some b =>
    (b.remoteWaiters.filter (fun w => w.parity ≠ b.parity),
      m.put swCtaId addr
        { b with remoteWaiters := b.remoteWaiters.filter (fun w => w.parity = b.parity) })
  | none => ([], m)

def arrive (t : ThreadIndex) (addr : Nat) (arrivalCount : Int) :
    List Nat × MbarrierManager :=
  match m.getMbarrier t.swCtaId addr with
  | some b =>
    ((b.countArrival arrivalCount).tryAdvance.2,
      m.put t.swCtaId addr (b.countArrival arrivalCount).tryAdvance.1)
  | none => ([], m)

/-- The default form reserves one pending arrival, `.noinc` only looks the barrier up. -/
def prepareAsyncArrival (t : ThreadIndex) (addr : Nat) (incrementPending : Bool) :
    Except MbarrierFailure MbarrierManager :=
  match m.getMbarrier t.swCtaId addr with
  | some b =>
    if incrementPending then
      if b.pendingArrivalCount < 2 ^ 20 - 1 then
        .ok (m.put t.swCtaId addr { b with pendingArrivalCount := b.pendingArrivalCount + 1 })
      else .error .pendingLimit
    else .ok m
  | none => .error .asyncMissing

def completeTx (t : ThreadIndex) (addr : Nat) (completedTxCount : Int) :
    List Nat × MbarrierManager :=
  match m.getMbarrier t.swCtaId addr with
  | some b =>
    ((b.completeTx completedTxCount).tryAdvance.2,
      m.put t.swCtaId addr (b.completeTx completedTxCount).tryAdvance.1)
  | none => ([], m)

def tryCompleteTxIfPending (t : ThreadIndex) (addr : Nat) (completedTxCount : Int) :
    List Nat × MbarrierManager :=
  match m.getMbarrier t.swCtaId addr with
  | some _ => m.completeTx t addr completedTxCount
  | none => ([], m)

/-- The counts may both become zero here, but the phase stays. -/
def expectTx (t : ThreadIndex) (addr : Nat) (expectedTxCount : Int) :
    Except MbarrierFailure MbarrierManager :=
  match m.getMbarrier t.swCtaId addr with
  | some b => .ok (m.put t.swCtaId addr (b.expectTx expectedTxCount))
  | none => .error .expectMissing

end MbarrierManager

end FlashGpuSim
