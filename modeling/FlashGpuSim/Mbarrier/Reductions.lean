import FlashGpuSim.Mbarrier.NamedGenerations
import FlashGpuSim.Warp.ThreadRegs

/-!
The reductions of `bar.red`. Each slot of an SM has one accumulator for each barrier, which the
three operations share, and nothing ever sets it back.
-/

namespace FlashGpuSim

open Lib

/-- `MAX_CTA_PER_SHADER` -/
def reductionRows : Nat := 32

/-- `MAX_BARRIERS_PER_CTA` -/
def reductionColumns : Nat := 16

inductive RedOp
  | popc
  | and
  | or
  deriving DecidableEq, Repr

namespace RedOp

/-- `popc_reduction`, `and_reduction` and `or_reduction`; a `bool` counts as 0 or 1. -/
def accumulate (op : RedOp) (acc : BitVec 32) (value : Bool) : BitVec 32 :=
  let bit := if value then 1#32 else 0#32
  match op with
  | .popc => acc + bit
  | .and => acc &&& bit
  | .or => acc ||| bit

/-- The value is the reduction of the predicates. -/
def Reduces (op : RedOp) (preds : List Bool) (value : BitVec 32) : Prop :=
  match op with
  | .popc => value = BitVec.ofNat 32 (preds.count true)
  | .and => predTrue value = preds.all id
  | .or => predTrue value = preds.any id

end RedOp

/-- A `bar.red` of a warp: the lanes that execute it, with their predicate operands. -/
structure RedInst where
  pc : Nat
  op : RedOp
  lanes : List (Nat × BitVec 4)
  deriving DecidableEq

def RedInst.preds (inst : RedInst) : List Bool := inst.lanes.map fun l => predTrue l.2

/-- What `bar_callback` writes to the destination of a thread. -/
structure Delivery where
  warpId : Nat
  lane : Nat
  value : BitVec 32
  deriving DecidableEq

/-- A generation of a barrier that has ended: what its warps contributed and what was delivered. -/
structure Reduction where
  ctaId : Nat
  barId : Nat
  contributions : List (Nat × RedInst)
  delivered : List Delivery
  deriving DecidableEq

/-- The predicates that warps contribute. -/
def contributedPreds (contributions : List (Nat × RedInst)) : List Bool :=
  contributions.flatMap fun p => p.2.preds

/-- Every thread that took part gets the reduction of its own generation, and no other thread
gets a value. -/
structure Reduction.Right (r : Reduction) : Prop where
  everyone : ∀ p ∈ r.contributions, ∀ l ∈ p.2.lanes, ∃ d ∈ r.delivered,
    d.warpId = p.1 ∧ d.lane = l.1
  values : ∀ d ∈ r.delivered, ∃ p ∈ r.contributions, p.1 = d.warpId ∧
    d.lane ∈ p.2.lanes.map Prod.fst ∧ p.2.op.Reduces (contributedPreds r.contributions) d.value

inductive ReductionFailure
  | named (e : NamedFailure)
  | outOfRange

/-- The named barriers of an SM with their accumulators. The instructions at a barrier are the
copies that the warps keep, and the ids are those of the instructions that all warps share. What
was contributed to the current generations and the reductions that have ended are a history. -/
structure ReductionCore where
  shaders : Nat
  sid : Nat
  sid_lt : sid < shaders
  core : NamedCore
  storage : Nat → Nat → BitVec 32 := fun _ _ => 0#32
  barIds : Nat → Nat := fun _ => 0
  instAtBarrier : Nat → Option RedInst := fun _ => none
  contributed : Nat → Nat → List (Nat × RedInst) := fun _ _ => []
  reductions : List Reduction := []

namespace ReductionCore

variable (s : ReductionCore)

/-- `get_cta_uid` is the index of the CTA among those of all SMs. -/
def row (ctaId : Nat) : Nat := ctaId * s.shaders + s.sid

/-- The part of `reduction_storage` that there is. -/
def InRange (ctaId barId : Nat) : Prop := s.row ctaId < reductionRows ∧ barId < reductionColumns

instance (ctaId barId : Nat) : Decidable (s.InRange ctaId barId) :=
  inferInstanceAs (Decidable (_ ∧ _))

def accumulator (ctaId barId : Nat) : BitVec 32 := s.storage (s.row ctaId) barId

/-- `get_reduction_value` -/
def getReductionValue (ctaId barId : Nat) : Except ReductionFailure (BitVec 32) :=
  if s.InRange ctaId barId then .ok (s.accumulator ctaId barId) else .error .outOfRange

def setAccumulator (ctaId barId : Nat) (value : BitVec 32) : ReductionCore :=
  { s with
    storage := Function.update s.storage (s.row ctaId)
      (Function.update (s.storage (s.row ctaId)) barId value) }

/-- `bar_impl` of one lane -/
def barImpl (ctaId barId : Nat) (op : RedOp) (s : ReductionCore) (lane : Nat × BitVec 4) :
    Except ReductionFailure ReductionCore :=
  if s.InRange ctaId barId then
    .ok (s.setAccumulator ctaId barId
      (op.accumulate (s.accumulator ctaId barId) (predTrue lane.2)))
  else .error .outOfRange

/-- `bar_callback` of the lanes of a warp. The id is read from the instruction that all warps
share. -/
def barCallback (ctaId warpId : Nat) : Except ReductionFailure (List Delivery) :=
  match s.instAtBarrier warpId with
  | none => .ok []
  | some inst => inst.lanes.mapM fun lane => do
    let value ← s.getReductionValue ctaId (s.barIds inst.pc)
    pure ⟨warpId, lane.1, value⟩

/-- `broadcast_barrier_reduction` -/
def broadcastBarrierReduction (ctaId : Nat) (warps : Finset Nat) :
    Except ReductionFailure (List Delivery) := do
  let delivered ← (s.core.set.warpIds.filter (· ∈ warps)).mapM (s.barCallback ctaId)
  pure delivered.flatten

/-- What a release delivers, and what it ends. -/
def settle (s : ReductionCore) : NamedEvent → Except ReductionFailure ReductionCore
  | .released ctaId barId _ _ broadcast => do
    let delivered ← s.broadcastBarrierReduction ctaId broadcast
    pure { s with
      contributed := Function.update s.contributed ctaId
        (Function.update (s.contributed ctaId) barId [])
      reductions := s.reductions ++ [⟨ctaId, barId, s.contributed ctaId barId, delivered⟩] }
  | .allocated ctaId _ =>
    pure { s with contributed := Function.update s.contributed ctaId fun _ => [] }
  | .arrived _ _ | .exited _ _ | .resumed _ => pure s

/-- A step of the barriers, and what its events deliver. -/
def advance (core : NamedCore) : Except ReductionFailure ReductionCore :=
  (core.log.drop s.core.log.length).foldlM settle { s with core := core }

def liftNamed {α : Type} : Except NamedFailure α → Except ReductionFailure α
  | .ok a => .ok a
  | .error e => .error (.named e)

/-- `store_info_of_last_inst_at_barrier` -/
def storeInst (warpId : Nat) (inst : Option RedInst) : ReductionCore :=
  { s with instAtBarrier := Function.update s.instAtBarrier warpId inst }

def contribute (ctaId barId warpId : Nat) (inst : RedInst) : ReductionCore :=
  { s with
    contributed := Function.update s.contributed ctaId
      (Function.update (s.contributed ctaId) barId
        (s.contributed ctaId barId ++ [(warpId, inst)])) }

/-- The lanes run before the warp reaches the barrier. A warp none of whose lanes is left does
not reach it. -/
def issueRed (ctaId warpId : Nat) (inst : RedInst) (barId barCount now : Nat) :
    Except ReductionFailure ReductionCore :=
  if inst.lanes = [] then .ok (s.storeInst warpId (some inst))
  else do
    let ran ← inst.lanes.foldlM (barImpl ctaId barId inst.op) s
    let core ← liftNamed (s.core.issueBarrier ctaId ⟨warpId, .red, barId, some barCount⟩ now)
    let entered := (ran.storeInst warpId (some inst)).contribute ctaId barId warpId inst
    { entered with barIds := Function.update entered.barIds inst.pc barId }.advance core

/-- The other instructions that are kept for a waiting warp. -/
def storing : NamedOp → Option Nat
  | .issue _ a _ => some a.warpId
  | .operate (.reachMbarrier _ warpId _ _ _ _ _) => some warpId
  | .operate (.waitBulkGroup warpId _) => some warpId
  | .operate (.waitCpAsyncGroup warpId) => some warpId
  | _ => none

def stepNamed (o : NamedOp) : Except ReductionFailure ReductionCore := do
  let core ← liftNamed (s.core.step o)
  match storing o with
  | none => s.advance core
  | some warpId => (s.storeInst warpId none).advance core

end ReductionCore

/-- A warp runs a `bar.red`, any other operation of the barriers, and another SM runs an
instruction with a barrier id. -/
inductive ReductionOp
  | red (ctaId warpId : Nat) (inst : RedInst) (barId barCount now : Nat)
  | named (o : NamedOp)
  | otherSm (pc barId : Nat)

namespace ReductionCore

variable (s : ReductionCore)

def step : ReductionOp → Except ReductionFailure ReductionCore
  | .red ctaId warpId inst barId barCount now => s.issueRed ctaId warpId inst barId barCount now
  | .named o => s.stepNamed o
  | .otherSm pc barId => .ok { s with barIds := Function.update s.barIds pc barId }

def isRed : NamedOp → Bool
  | .issue _ a _ => decide (a.barType = .red)
  | _ => false

/-- A warp that waits issues nothing. -/
def allowed : ReductionOp → Prop
  | .red ctaId warpId _ barId barCount now =>
    s.core.allowed (.issue ctaId ⟨warpId, .red, barId, some barCount⟩ now)
  | .named o => s.core.allowed o ∧ isRed o = false ∧ ∀ w ∈ storing o, w ∉ s.core.set.warpAtBarrier
  | .otherSm _ _ => True

instance : (o : ReductionOp) → Decidable (s.allowed o)
  | .red ctaId warpId _ barId barCount now =>
    inferInstanceAs (Decidable (s.core.allowed (.issue ctaId ⟨warpId, .red, barId, some barCount⟩ now)))
  | .named o => inferInstanceAs (Decidable (s.core.allowed o ∧ isRed o = false ∧
      ∀ w ∈ storing o, w ∉ s.core.set.warpAtBarrier))
  | .otherSm _ _ => .isTrue trivial

def init (shaders sid : Nat) (sid_lt : sid < shaders) (config : BarrierConfig) (latency : Nat) :
    ReductionCore where
  shaders := shaders
  sid := sid
  sid_lt := sid_lt
  core := NamedCore.init config latency

/-! ### Where the reductions are right -/

/-- The accumulator from which an operation gives a right answer. -/
def Neutral (op : RedOp) (acc : BitVec 32) : Prop :=
  match op with
  | .popc => acc = 0#32
  | .and => acc.getLsbD 0 = false
  | .or => acc.getLsbD 0 = true

/-- The only predicate for which the answer of `and` and of `or` is right. -/
def Fits (op : RedOp) (pred : Bool) : Prop :=
  match op with
  | .popc => True
  | .and => pred = true
  | .or => pred = false

/-- The accumulator is right for a new generation, the warps that wait at the barrier run the same
operation, and when the barrier completes its arrivals are those of `bar.red` and their
instructions still have its id. -/
structure CoveredRed (ctaId : Nat) (a : Arrival) (inst : RedInst) : Prop where
  inRange : s.InRange ctaId a.barId
  start : s.contributed ctaId a.barId = [] → Neutral inst.op (s.accumulator ctaId a.barId)
  fits : ∀ pred ∈ inst.preds, Fits inst.op pred
  same : ∀ p ∈ s.contributed ctaId a.barId, p.2.op = inst.op
  completes : ∀ warps ∈ s.core.set.ctaToWarps ctaId, s.core.Completes ctaId a warps →
    s.core.Fresh ctaId a.barId warps ∧
      (∀ b ∈ generation s.core.log ctaId a.barId, b.barType = .red) ∧
      ∀ p ∈ s.contributed ctaId a.barId, p.2.pc = inst.pc ∨ s.barIds p.2.pc = a.barId

instance (op : RedOp) (acc : BitVec 32) : Decidable (Neutral op acc) :=
  match op with
  | .popc => inferInstanceAs (Decidable (acc = 0#32))
  | .and => inferInstanceAs (Decidable (acc.getLsbD 0 = false))
  | .or => inferInstanceAs (Decidable (acc.getLsbD 0 = true))

instance (op : RedOp) (pred : Bool) : Decidable (Fits op pred) :=
  match op with
  | .popc => .isTrue trivial
  | .and => inferInstanceAs (Decidable (pred = true))
  | .or => inferInstanceAs (Decidable (pred = false))

instance (ctaId : Nat) (a : Arrival) (inst : RedInst) : Decidable (s.CoveredRed ctaId a inst) :=
  decidable_of_iff (s.InRange ctaId a.barId ∧
      (s.contributed ctaId a.barId = [] → Neutral inst.op (s.accumulator ctaId a.barId)) ∧
      (∀ pred ∈ inst.preds, Fits inst.op pred) ∧
      (∀ p ∈ s.contributed ctaId a.barId, p.2.op = inst.op) ∧
      ∀ warps ∈ s.core.set.ctaToWarps ctaId, s.core.Completes ctaId a warps →
        s.core.Fresh ctaId a.barId warps ∧
          (∀ b ∈ generation s.core.log ctaId a.barId, b.barType = .red) ∧
          ∀ p ∈ s.contributed ctaId a.barId, p.2.pc = inst.pc ∨ s.barIds p.2.pc = a.barId)
    ⟨fun h => ⟨h.1, h.2.1, h.2.2.1, h.2.2.2.1, h.2.2.2.2⟩,
    fun h => ⟨h.inRange, h.start, h.fits, h.same, h.completes⟩⟩

def Covered : ReductionOp → Prop
  | .red ctaId warpId inst barId barCount _ =>
    inst.lanes ≠ [] → s.CoveredRed ctaId ⟨warpId, .red, barId, some barCount⟩ inst
  | .named o => s.core.Covered o
  | .otherSm _ _ => True

instance : (o : ReductionOp) → Decidable (s.Covered o)
  | .red ctaId warpId inst barId barCount _ => inferInstanceAs (Decidable (inst.lanes ≠ [] →
      s.CoveredRed ctaId ⟨warpId, .red, barId, some barCount⟩ inst))
  | .named o => inferInstanceAs (Decidable (s.core.Covered o))
  | .otherSm _ _ => .isTrue trivial

/-- The reductions that have ended are right, and what may happen next leaves the accumulators
that there are. -/
structure ReducesSoundly : Prop where
  reductions : ∀ r ∈ s.reductions, r.Right
  inRange : ∀ o, s.allowed o → s.Covered o → s.step o ≠ .error .outOfRange

end ReductionCore

end FlashGpuSim
