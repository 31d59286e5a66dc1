import FlashGpuSim.Ptx.Instruction
import Mathlib.Data.Finset.Dedup

/-!
`create_basic_blocks` and `connect_basic_blocks`. Instructions are known by their places in
the function's list. The labels of a function have one scope, and the edges that
`connect_break_targets` changes afterwards are left out.
-/

namespace FlashGpuSim

open Lib

namespace FunctionInfo

/-- `find_next_real_instruction` -/
def findNextRealInstruction (is : List PtxInstruction) (pos : Nat) : Nat :=
  pos + ((is.drop pos).takeWhile (·.isLabel)).length

/-- Whether the instruction behind `i` starts a block. -/
def endsBlock (i : PtxInstruction) : Bool :=
  match i.opcode with
  | some .braOp | some .retOp | some .exitOp | some .retpOp | some .breakOp => true
  | some .callOp | some .callpOp => i.hasPred
  | _ => false

/-- The leaders from `pos` on. -/
def leadersFrom (is : List PtxInstruction) : (fuel : Nat) → Nat → List Nat
  | 0, _ => []
  | fuel + 1, pos =>
    match is[pos]? with
    | none => []
    | some i =>
      if i.isLabel then pos :: leadersFrom is fuel (findNextRealInstruction is (pos + 1))
      else if endsBlock i then
        let rest := leadersFrom is fuel (findNextRealInstruction is (pos + 1))
        if pos + 1 < is.length then (pos + 1) :: rest else rest
      else leadersFrom is fuel (pos + 1)

/-- The first instruction is a leader. -/
def leaders (is : List PtxInstruction) : List Nat := 0 :: leadersFrom is is.length 1

/-- The second loop of `create_basic_blocks`: the finished blocks, the block under way,
the last instruction seen and the leaders to come; `blockOf` has the block of every
instruction passed. -/
structure BlockScan where
  finished : List BasicBlock := []
  current : BasicBlock
  lastRealInst : Nat
  leaders : List Nat
  blockOf : List Nat := []

def BlockScan.close (s : BlockScan) : BasicBlock :=
  { s.current with ptxEnd := some s.lastRealInst }

/-- The start of the next block, unless only labels follow. -/
def BlockScan.meetLeader (s : BlockScan) (is : List PtxInstruction) (pos : Nat) : BlockScan :=
  let next := findNextRealInstruction is pos
  if next < is.length then
    { s with
      finished := s.finished ++ [s.close]
      current :=
        { bbId := s.finished.length + 1, ptxBegin := some next, ptxEnd := none }
      lastRealInst := next
      leaders := s.leaders.tail }
  else { s with current := s.close, leaders := s.leaders.tail }

def BlockScan.visit (s : BlockScan) (is : List PtxInstruction) (pos : Nat) : BlockScan :=
  let s := if s.leaders.head? = some pos then s.meetLeader is pos else s
  { s with
    blockOf := s.blockOf ++ [s.finished.length]
    lastRealInst := if is[pos]?.any (·.isLabel) then s.lastRealInst else pos }

def scanBlocks (is : List PtxInstruction) : BlockScan :=
  (List.range is.length).foldl (fun s pos => s.visit is pos)
    { current :=
        { bbId := 0, ptxBegin := some (findNextRealInstruction is 0), ptxEnd := none
          isEntry := true }
      lastRealInst := 0
      leaders := (leaders is).tail }

/-- `create_basic_blocks` -/
def createBasicBlocks (f : FunctionInfo) : FunctionInfo :=
  let s := scanBlocks f.instructions
  { f with
    basicBlocks := s.finished ++ [s.close,
      { bbId := s.finished.length + 1, ptxBegin := none, ptxEnd := none, isExit := true }] }

/-- `get_bb` -/
def getBb (f : FunctionInfo) (pos : Nat) : Option Nat :=
  (scanBlocks f.instructions).blockOf[pos]?

/-- `instr_mem_at`: the first instruction at `index` of `m_instr_mem` or behind it. -/
def instrMemAt (f : FunctionInfo) (index : Nat) : Option Nat :=
  (List.range f.instructions.length).find? fun pos =>
    decide (index ≤ f.instrMemIndex pos) && !f.instructions[pos]?.any (·.isLabel)

/-- `find_label`; without the label the program aborts. -/
def findLabel (f : FunctionInfo) (name : String) : Option Nat :=
  ((List.range f.instructions.length).find? fun pos =>
    (f.instructions[pos]?.bind (·.label)).any fun l => (f.symbols l).name == name).map
    f.instrMemIndex

/-- The block of the instruction at `index`, or the exit block. -/
def blockAt (f : FunctionInfo) (exitBb index : Nat) : Nat :=
  ((f.instrMemAt index).bind f.getBb).getD exitBb

/-- The successors of a block that ends with the instruction `i` at `pos`. -/
def successorsOf (f : FunctionInfo) (exitBb pos : Nat) (i : PtxInstruction) :
    Option (Finset Nat) := do
  let nextAddr := f.instrMemIndex pos + i.instSize
  match i.opcode with
  | some .retpOp | some .retOp | some .exitOp =>
    match (f.instrMemAt nextAddr).bind f.getBb with
    | some nextBb => return if i.hasPred then {exitBb, nextBb} else {exitBb}
    | none => return {exitBb}
  | some .braOp =>
    let target ← i.operands.head?.bind (·.symbolic)
    let addr ← f.findLabel (f.symbols target).name
    let targetBb := f.blockAt exitBb addr
    return if i.hasPred then {targetBb, f.blockAt exitBb nextAddr} else {targetBb}
  | _ => return {f.blockAt exitBb nextAddr}

/-- The edges out of one block. -/
def connectBlock (f : FunctionInfo) (bb : BasicBlock) : Option BasicBlock :=
  if bb.isExit then some bb
  else do
    let pos ← bb.ptxEnd
    let i ← f.instructions[pos]?
    let successors ← f.successorsOf (f.basicBlocks.length - 1) pos i
    return { bb with successorIds := successors }

/-- `connect_basic_blocks`; `none` when a branch names no label. -/
def connectBasicBlocks (f : FunctionInfo) : Option FunctionInfo := do
  let blocks ← f.basicBlocks.mapM f.connectBlock
  return { f with
    basicBlocks := blocks.map fun bb =>
      { bb with
        predecessorIds :=
          (blocks.filter fun b => decide (bb.bbId ∈ b.successorIds)).map (·.bbId)
            |>.toFinset } }

end FunctionInfo

end FlashGpuSim
