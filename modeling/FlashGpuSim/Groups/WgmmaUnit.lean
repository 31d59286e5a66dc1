import FlashGpuSim.Groups.BulkGroup
import FlashGpuSim.Lib.Reach
import FlashGpuSim.Mbarrier.BarrierOps

/-!
`wgmma_unit_t`: the groups of asynchronous matrix operations of each warpgroup. The operations
of an SM compute one after the other, and each completes after a tail of its own and when its
register-file traffic is drained. The issue chain and the traces are left out.
-/

namespace FlashGpuSim

open Lib

inductive WgmmaFailure
  | alreadyWaiting
  | groupMissing
  | barriers (e : BarrierFailure)
  deriving DecidableEq, Repr

def liftBarriers {α : Type} : Except BarrierFailure α → Except WgmmaFailure α
  | .ok a => .ok a
  | .error e => .error (.barriers e)

/-- `warpgroup_info_t` -/
structure WarpgroupInfo where
  nextGroupId : Nat := 1
  pendingOps : Finset Nat := ∅
  opToGroup : Nat → Option Nat := fun _ => none
  pendingGroups : Table (Finset Nat) := ∅
  isWaiting : Bool := false
  waitAllowance : Nat := 0
  waitingWarps : List Nat := []

namespace WarpgroupInfo

variable (info : WarpgroupInfo)

def addOp (opUid : Nat) : WarpgroupInfo :=
  { info with pendingOps := insert opUid info.pendingOps }

def commitGroup : WarpgroupInfo :=
  if info.pendingOps = ∅ then { info with nextGroupId := inc32 info.nextGroupId }
  else { info with
    opToGroup := fun opUid =>
      if opUid ∈ info.pendingOps then some info.nextGroupId else info.opToGroup opUid
    pendingGroups := info.pendingGroups.insert info.nextGroupId info.pendingOps
    pendingOps := ∅
    nextGroupId := inc32 info.nextGroupId }

def waitSatisfied : Bool := decide (info.pendingGroups.size ≤ info.waitAllowance)

/-- The warps that are released. -/
def releaseIfSatisfied : List Nat × WarpgroupInfo :=
  if info.isWaiting && info.waitSatisfied then
    (info.waitingWarps, { info with waitingWarps := [], isWaiting := false })
  else ([], info)

/-- True when there is nothing to wait for. -/
def waitGroup (maxPendingGroups : Nat) (warpIds : List Nat) :
    Except WgmmaFailure (Bool × WarpgroupInfo) := do
  require (!info.isWaiting) .alreadyWaiting
  let info := { info with waitAllowance := maxPendingGroups }
  if info.waitSatisfied then return (true, info)
  else return (false, { info with isWaiting := true, waitingWarps := warpIds })

/-- `complete_op` before it looks at the wait. -/
def removeOp (opUid : Nat) : Except WgmmaFailure WarpgroupInfo :=
  if opUid ∈ info.pendingOps then .ok { info with pendingOps := info.pendingOps.erase opUid }
  else
    match info.opToGroup opUid with
    | none => .ok info
    | some groupId =>
      match info.pendingGroups.lookup groupId with
      | none => .error .groupMissing
      | some opUids => .ok { info with
          opToGroup := Function.update info.opToGroup opUid none
          pendingGroups :=
            if opUids.erase opUid = ∅ then info.pendingGroups.erase groupId
            else info.pendingGroups.insert groupId (opUids.erase opUid) }

def completeOp (opUid : Nat) : Except WgmmaFailure (List Nat × WarpgroupInfo) := do
  return (← info.removeOp opUid).releaseIfSatisfied

end WarpgroupInfo

/-- `wgmma_group_manager_t`, by CTA and warpgroup. -/
abbrev WgmmaGroups := Nat × Nat → Option WarpgroupInfo

namespace WgmmaGroups

variable (groups : WgmmaGroups)

def infoOf (key : Nat × Nat) : WarpgroupInfo := (groups key).getD {}

def put (key : Nat × Nat) (info : WarpgroupInfo) : WgmmaGroups :=
  Function.update groups key (some info)

/-- The warps that are released. -/
def completeOp (key : Nat × Nat) (opUid : Nat) : Except WgmmaFailure (List Nat × WgmmaGroups) :=
  match groups key with
  | none => .ok ([], groups)
  | some info => do
    let (released, info) ← info.completeOp opUid
    return (released, groups.put key info)

end WgmmaGroups

/-- `pending_completion_t`. The last fields are a history: the operation computes from the cycle
`start` to the cycle `stop`. -/
structure PendingCompletion where
  key : Nat × Nat
  opUid : Nat
  computeRemaining : Nat
  remaining : Nat
  rfTrafficRemaining : Nat
  start : Nat
  stop : Nat
  deriving DecidableEq, Repr

namespace PendingCompletion

def tick (p : PendingCompletion) : PendingCompletion :=
  { p with computeRemaining := p.computeRemaining - 1, remaining := p.remaining - 1 }

def finished (p : PendingCompletion) : Bool :=
  decide (p.remaining = 0 ∧ p.rfTrafficRemaining = 0)

end PendingCompletion

/-- The last field is a history: the number of cycles. -/
structure WgmmaUnit where
  barriers : BarrierSet
  groups : WgmmaGroups := fun _ => none
  pendingCompletions : List PendingCompletion := []
  now : Nat := 0

namespace WgmmaUnit

variable (u : WgmmaUnit)

/-- `compute_tail_remaining` -/
def computeTail : Nat := (u.pendingCompletions.map (·.computeRemaining)).foldl max 0

def addOp (key : Nat × Nat) (opUid computeLatency completionTailLatency rfTrafficTokens : Nat) :
    WgmmaUnit :=
  let computeLatency := max 1 computeLatency
  let computeDone := (u.computeTail + computeLatency) % 2 ^ 32
  { u with
    groups := u.groups.put key ((u.groups.infoOf key).addOp opUid)
    pendingCompletions := u.pendingCompletions ++ [{
      key := key
      opUid := opUid
      computeRemaining := computeDone
      remaining := (computeDone + completionTailLatency) % 2 ^ 32
      rfTrafficRemaining := rfTrafficTokens
      start := u.now + u.computeTail
      stop := u.now + u.computeTail + computeLatency }] }

/-- The oldest operations take the bytes first. -/
def drain : Nat → List PendingCompletion → Nat × List PendingCompletion
  | _, [] => (0, [])
  | bytes, p :: rest =>
    let take := min bytes p.rfTrafficRemaining
    let (drained, rest) := drain (bytes - take) rest
    (take + drained, { p with rfTrafficRemaining := p.rfTrafficRemaining - take } :: rest)

/-- How many bytes are drained. -/
def drainRfTraffic (bytes : Nat) : Nat × WgmmaUnit :=
  let (drained, pendingCompletions) := drain bytes u.pendingCompletions
  (drained, { u with pendingCompletions := pendingCompletions })

def commitGroup (key : Nat × Nat) : WgmmaUnit :=
  { u with groups := u.groups.put key (u.groups.infoOf key).commitGroup }

/-- True when there is nothing to wait for. -/
def waitGroup (key : Nat × Nat) (maxPendingGroups : Nat) (warpIds : List Nat) :
    Except WgmmaFailure (Bool × WgmmaUnit) := do
  let (satisfied, info) ← (u.groups.infoOf key).waitGroup maxPendingGroups warpIds
  let u := { u with groups := u.groups.put key info }
  if satisfied then return (true, u)
  else
    let barriers ← liftBarriers (u.barriers.setWgmmaWaitingWarps warpIds)
    return (false, { u with barriers := barriers })

/-- The operations that complete in the next cycle, the newest first. -/
def completing : List PendingCompletion :=
  ((u.pendingCompletions.map (·.tick)).filter (·.finished)).reverse

/-- One completion of `cycle`. -/
def complete (s : List Nat × WgmmaGroups) (p : PendingCompletion) :
    Except WgmmaFailure (List Nat × WgmmaGroups) := do
  let (released, groups) ← s.2.completeOp p.key p.opUid
  return (s.1 ++ released, groups)

/-- The warps that are released. -/
def cycle : Except WgmmaFailure (List Nat × WgmmaUnit) := do
  let (released, groups) ← u.completing.foldlM complete ([], u.groups)
  let barriers ← liftBarriers (u.barriers.releaseWgmmaWarps released)
  return (released, { u with
    barriers := barriers
    groups := groups
    pendingCompletions := (u.pendingCompletions.map (·.tick)).filter fun p => !p.finished
    now := u.now + 1 })

def cleanupCta (ctaId : Nat) : WgmmaUnit :=
  { u with
    pendingCompletions := u.pendingCompletions.filter fun p => decide (p.key.1 ≠ ctaId)
    groups := fun key => if key.1 = ctaId then none else u.groups key }

end WgmmaUnit

inductive WgmmaOp
  | addOp (key : Nat × Nat)
      (opUid computeLatency completionTailLatency rfTrafficTokens : Nat)
  | commitGroup (key : Nat × Nat)
  | waitGroup (key : Nat × Nat) (maxPendingGroups : Nat) (warpIds : List Nat)
  | drainRfTraffic (bytes : Nat)
  | cycle
  | cleanupCta (ctaId : Nat)

/-- What a call tells: whether a wait is over at once, and which warps a cycle releases. -/
structure WgmmaAnswer where
  satisfied : Bool := true
  released : List Nat := []
  deriving DecidableEq, Repr

def WgmmaUnit.call (u : WgmmaUnit) : WgmmaOp → Except WgmmaFailure (WgmmaAnswer × WgmmaUnit)
  | .addOp key opUid computeLatency completionTailLatency rfTrafficTokens =>
    .ok ({}, u.addOp key opUid computeLatency completionTailLatency rfTrafficTokens)
  | .commitGroup key => .ok ({}, u.commitGroup key)
  | .waitGroup key maxPendingGroups warpIds => do
    let (satisfied, u) ← u.waitGroup key maxPendingGroups warpIds
    return ({ satisfied := satisfied }, u)
  | .drainRfTraffic bytes => .ok ({}, (u.drainRfTraffic bytes).2)
  | .cycle => do
    let (released, u) ← u.cycle
    return ({ released := released }, u)
  | .cleanupCta ctaId => .ok ({}, u.cleanupCta ctaId)

/-! ### What the calls mean -/

/-- What the warpgroups asked for: the groups that they committed, with the operations that are
not complete, and the waits that are not over, each with its allowance and its warps. -/
structure WgmmaAsked where
  logs : Nat × Nat → CommitLog Nat := fun _ => {}
  waits : Nat × Nat → Option (Nat × List Nat) := fun _ => none

namespace WgmmaAsked

variable (a : WgmmaAsked)

/-- Operations complete. -/
def finish (ops : List PendingCompletion) : Nat × Nat → CommitLog Nat :=
  ops.foldl (fun logs p => Function.update logs p.key ((logs p.key).finish p.opUid).2) a.logs

/-- The waits that are over: all groups but the most recent ones are complete. -/
def isOver (logs : Nat × Nat → CommitLog Nat) (key : Nat × Nat) : Bool :=
  (a.waits key).any fun wait => decide (DoneExcept (logs key).groups wait.1)

def next (u : WgmmaUnit) : WgmmaOp → WgmmaAsked
  | .addOp key opUid _ _ _ =>
    { a with logs := Function.update a.logs key ((a.logs key).add opUid) }
  | .commitGroup key => { a with logs := Function.update a.logs key (a.logs key).commit }
  | .waitGroup key n warpIds =>
    if DoneExcept (a.logs key).groups n then a
    else { a with waits := Function.update a.waits key (some (n, warpIds)) }
  | .drainRfTraffic _ => a
  | .cycle =>
    let logs := a.finish u.completing
    { logs := logs
      waits := fun key => if a.isOver logs key then none else a.waits key }
  | .cleanupCta ctaId =>
    { logs := fun key => if key.1 = ctaId then {} else a.logs key
      waits := fun key => if key.1 = ctaId then none else a.waits key }

end WgmmaAsked

end FlashGpuSim
