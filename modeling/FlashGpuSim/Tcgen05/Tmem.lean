import FlashGpuSim.Lib.Reach
import Mathlib.Logic.Function.Basic

/-!
`tcgen05_tmem_manager_t`: the tensor memory of the CTAs. A scope has its column allocations, the
retired ones among them, and the words by their encoded addresses. Words are 32-bit vectors,
addresses and counts are natural numbers.
-/

namespace FlashGpuSim

open Lib

/-- `kTcgen05TmemColumnMask` and `kTcgen05TmemLaneMask` -/
def tmemFieldMask : Nat := 0xffff

/-- `kTcgen05TmemColumnCount` -/
def tmemColumnCount : Nat := tmemFieldMask + 1

/-- `kTcgen05TmemMinAllocColumns` -/
def tmemMinAllocColumns : Nat := 32

/-- `kTcgen05TmemMaxAllocColumns` -/
def tmemMaxAllocColumns : Nat := 512

inductive TmemFailure
  | laneField
  | columnField
  | permitRelinquished
  | ncolsRange
  | powerOfTwo
  | ncolsIncrease
  | addressOverflow
  | baseExists
  | unknownBase
  | sizeMismatch
  | noWords
  | shapeMismatch
  | unknownScope
  | outsideAllocation
  deriving DecidableEq, Repr

structure TmemAddress where
  lane : Nat
  column : Nat
  deriving DecidableEq, Repr

/-- `tcgen05_decode_tmem_address` -/
def decodeTmemAddress (address : Nat) : TmemAddress where
  lane := address >>> 16
  column := address &&& tmemFieldMask

/-- The address of a lane and a column that fit their fields. -/
def tmemAddress (lane column : Nat) : Nat := lane <<< 16 ||| column

/-- `tcgen05_encode_tmem_address` -/
def encodeTmemAddress (lane column : Nat) : Except TmemFailure Nat := do
  require (decide (lane ≤ tmemFieldMask)) .laneField
  require (decide (column ≤ tmemFieldMask)) .columnField
  return tmemAddress lane column

/-- `tcgen05_tmem_scope_t` -/
structure TmemScope where
  smId : Nat
  ctaId : Nat
  ctaGroup : Nat
  deriving DecidableEq, Repr

structure TmemAllocation where
  base : Nat
  ncols : Nat
  deriving DecidableEq, Repr

/-- `allocation_t` holds the columns from `first` to `first + nwords - 1`. -/
def TmemAllocation.contains (a : TmemAllocation) (first nwords : Nat) : Bool :=
  decide (a.base ≤ first) && decide (first + nwords ≤ a.base + a.ncols)

/-- `scope_state_t`. The maps of allocations are lists of their entries. -/
structure TmemScopeState where
  nextBase : Nat := 0
  lastAllocationNcols : Nat := 0
  permitRelinquished : Bool := false
  allocations : List TmemAllocation := []
  retiredAllocations : List TmemAllocation := []
  words : Nat → Option (BitVec 32) := fun _ => none

namespace TmemScopeState

/-- `is_power_of_two` -/
def isPowerOfTwo (value : Nat) : Bool := value != 0 && value &&& (value - 1) == 0

variable (st : TmemScopeState)

/-- The search of `find_allocation_containing` in one of the two maps. -/
def findIn (entries : List TmemAllocation) (address nwords : Nat) : Option TmemAllocation :=
  let first := (decodeTmemAddress address).column
  if nwords = 0 ∨ tmemColumnCount < first + nwords then none
  else entries.find? fun a => a.contains first nwords

/-- `find_accessible_allocation_containing` -/
def findAccessible (address nwords : Nat) : Option TmemAllocation :=
  (findIn st.allocations address nwords).or (findIn st.retiredAllocations address nwords)

def alloc (ncols : Nat) : Except TmemFailure (Nat × TmemScopeState) := do
  require (!st.permitRelinquished) .permitRelinquished
  require (decide (tmemMinAllocColumns ≤ ncols ∧ ncols ≤ tmemMaxAllocColumns)) .ncolsRange
  require (isPowerOfTwo ncols) .powerOfTwo
  require (decide (st.lastAllocationNcols = 0 ∨ ncols ≤ st.lastAllocationNcols)) .ncolsIncrease
  require (decide (st.nextBase ≤ tmemColumnCount - ncols)) .addressOverflow
  require (!(st.allocations.any fun a => a.base = st.nextBase)) .baseExists
  return (st.nextBase, { st with
    nextBase := st.nextBase + ncols
    lastAllocationNcols := ncols
    allocations := st.allocations ++ [⟨st.nextBase, ncols⟩] })

def dealloc (base ncols : Nat) : Except TmemFailure TmemScopeState := do
  require (decide (tmemMinAllocColumns ≤ ncols ∧ ncols ≤ tmemMaxAllocColumns)) .ncolsRange
  require (isPowerOfTwo ncols) .powerOfTwo
  let column := (decodeTmemAddress base).column
  match st.allocations.find? fun a => a.base = column with
  | none => .error .unknownBase
  | some a => do
    require (decide (a.ncols = ncols)) .sizeMismatch
    return { st with
      allocations := st.allocations.eraseP fun a => a.base = column
      retiredAllocations :=
        (st.retiredAllocations.filter fun a => a.base ≠ column) ++ [a] }

/-- The words of some lanes and columns, one after the other. -/
def writeCells (cells : List ((Nat × Nat) × BitVec 32)) : Except TmemFailure TmemScopeState :=
  cells.foldlM (fun st ((lane, column), value) => do
    let address ← encodeTmemAddress lane column
    return { st with words := Function.update st.words address (some value) }) st

def readCells (cells : List (Nat × Nat)) : Except TmemFailure (List (BitVec 32)) :=
  cells.mapM fun (lane, column) => do
    let address ← encodeTmemAddress lane column
    return (st.words address).getD 0

end TmemScopeState

/-- The cells of `nwords` columns of a lane. -/
def rowCells (address nwords : Nat) : List (Nat × Nat) :=
  let decoded := decodeTmemAddress address
  (List.range nwords).map fun i => (decoded.lane, decoded.column + i)

/-- The cells of a matrix, row by row. -/
def matrixCells (address rows columns : Nat) : List (Nat × Nat) :=
  let decoded := decodeTmemAddress address
  (List.range (rows * columns)).map fun k =>
    (decoded.lane + k / columns, decoded.column + k % columns)

/-- The low half at an even column, the high half at an odd one. -/
def halfWord (word : BitVec 32) (column : Nat) : BitVec 16 :=
  if column % 2 = 1 then (word >>> 16).truncate 16 else word.truncate 16

inductive TmemCall
  | alloc (scope : TmemScope) (ncols : Nat)
  | dealloc (scope : TmemScope) (base ncols : Nat)
  | relinquishAllocPermit (scope : TmemScope)
  | writeWords (scope : TmemScope) (address : Nat) (values : List (BitVec 32))
  | readWords (scope : TmemScope) (address nwords : Nat)
  | writeMatrixWords (scope : TmemScope) (address : Nat) (values : List (BitVec 32))
    (rows columns : Nat)
  | readMatrixWords (scope : TmemScope) (address rows columns : Nat)
  | readMatrixPackedU16 (scope : TmemScope) (address rows columns : Nat)
  | clearCta (smId ctaId : Nat)
  deriving DecidableEq, Repr

inductive TmemResult
  | done
  | base (address : Nat)
  | words (values : List (BitVec 32))
  | halves (values : List (BitVec 16))
  deriving DecidableEq, Repr

/-- The scopes, and the calls so far, for the proofs only. -/
structure TmemManager where
  scopes : TmemScope → Option TmemScopeState := fun _ => none
  log : List TmemCall := []

namespace TmemManager

variable (m : TmemManager)

/-- `get_or_create_scope` -/
def getOrCreateScope (scope : TmemScope) : TmemScopeState := (m.scopes scope).getD {}

def setScope (scope : TmemScope) (st : TmemScopeState) : TmemManager :=
  { m with scopes := Function.update m.scopes scope (some st) }

/-- `find_scope`, which the reads assert. -/
def findScope (scope : TmemScope) : Except TmemFailure TmemScopeState :=
  match m.scopes scope with
  | some st => .ok st
  | none => .error .unknownScope

def writeWords (scope : TmemScope) (address : Nat) (values : List (BitVec 32)) :
    Except TmemFailure TmemManager := do
  require (!values.isEmpty) .noWords
  let st := m.getOrCreateScope scope
  require (st.findAccessible address (values.length % 2 ^ 32)).isSome .outsideAllocation
  let st ← st.writeCells ((rowCells address values.length).zip values)
  return m.setScope scope st

def readWords (scope : TmemScope) (address nwords : Nat) :
    Except TmemFailure (List (BitVec 32)) := do
  require (decide (0 < nwords)) .noWords
  let st ← m.findScope scope
  require (st.findAccessible address nwords).isSome .outsideAllocation
  st.readCells (rowCells address nwords)

def writeMatrixWords (scope : TmemScope) (address : Nat) (values : List (BitVec 32))
    (rows columns : Nat) : Except TmemFailure TmemManager := do
  require (decide (0 < rows ∧ 0 < columns)) .noWords
  require (decide (values.length = rows * columns)) .shapeMismatch
  let st := m.getOrCreateScope scope
  require (st.findAccessible address columns).isSome .outsideAllocation
  let st ← st.writeCells ((matrixCells address rows columns).zip values)
  return m.setScope scope st

def readMatrixWords (scope : TmemScope) (address rows columns : Nat) :
    Except TmemFailure (List (BitVec 32)) := do
  require (decide (0 < rows ∧ 0 < columns)) .noWords
  let st ← m.findScope scope
  require (st.findAccessible address columns).isSome .outsideAllocation
  st.readCells (matrixCells address rows columns)

def readMatrixPackedU16 (scope : TmemScope) (address rows columns : Nat) :
    Except TmemFailure (List (BitVec 16)) := do
  require (decide (0 < rows ∧ 0 < columns)) .noWords
  -- For the largest 32-bit count the sum wraps to zero; no allocation has so many columns either.
  let wordColumns := (columns + 1) / 2
  let st ← m.findScope scope
  require (st.findAccessible address wordColumns).isSome .outsideAllocation
  let words ← st.readCells (matrixCells address rows wordColumns)
  return (List.range (rows * columns)).map fun k =>
    halfWord (words.getD (k / columns * wordColumns + k % columns / 2) 0) (k % columns)

def clearCta (smId ctaId : Nat) : TmemManager :=
  { m with scopes := fun scope =>
      if scope.smId = smId ∧ scope.ctaId = ctaId then none else m.scopes scope }

/-- A call, without the history. -/
def perform : TmemCall → Except TmemFailure (TmemResult × TmemManager)
  | .alloc scope ncols => do
    let (base, st) ← (m.getOrCreateScope scope).alloc ncols
    return (.base base, m.setScope scope st)
  | .dealloc scope base ncols => do
    let st ← (m.getOrCreateScope scope).dealloc base ncols
    return (.done, m.setScope scope st)
  | .relinquishAllocPermit scope =>
    .ok (.done, m.setScope scope { m.getOrCreateScope scope with permitRelinquished := true })
  | .writeWords scope address values => do
    let m ← m.writeWords scope address values
    return (.done, m)
  | .readWords scope address nwords => do
    let values ← m.readWords scope address nwords
    return (.words values, m)
  | .writeMatrixWords scope address values rows columns => do
    let m ← m.writeMatrixWords scope address values rows columns
    return (.done, m)
  | .readMatrixWords scope address rows columns => do
    let values ← m.readMatrixWords scope address rows columns
    return (.words values, m)
  | .readMatrixPackedU16 scope address rows columns => do
    let values ← m.readMatrixPackedU16 scope address rows columns
    return (.halves values, m)
  | .clearCta smId ctaId => .ok (.done, m.clearCta smId ctaId)

/-- The state after a call. -/
def step (call : TmemCall) : Except TmemFailure TmemManager := do
  let (_, after) ← m.perform call
  return { after with log := m.log ++ [call] }

end TmemManager

end FlashGpuSim
