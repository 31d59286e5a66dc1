import FlashGpuSim.Lib.Tables
import Mathlib.Data.Finset.Basic

/-!
The PTX instructions of a function and their operands, as far as the register analyses
read them. A symbol is known by its `uid`; `symbols` of a function says what it is.
-/

namespace FlashGpuSim

open Lib

/-- The opcodes of `opcodes.def`; a label has none. -/
inductive Opcode
  | absOp | addOp | addpOp | addcOp | andOp | andnOp | atomOp | barOp | bfeOp | bfiOp
  | bfindOp | braOp | brxOp | brevOp | brkptOp | mmaOp | mmaLdOp | mmaStOp | tensorMmaOp
  | tensorMmaLdOp | tensorMmaStOp | wgmmaMmaAsyncOp | wgmmaMmaAsyncSpOp | wgmmaFenceOp
  | wgmmaCommitGroupOp | wgmmaWaitGroupOp | setmaxnregOp | callOp | callpOp | clzOp | cnotOp
  | cosOp | cvtOp | cvtaOp | divOp | dp4aOp | ex2Op | exitOp | fmaOp | isspacepOp | ldOp | lduOp
  | lg2Op | mad24Op | madOp | madcOp | madpOp | mapaOp | maxOp | membarOp | minOp | movOp
  | mul24Op | mulOp | negOp | nandnOp | nornOp | notOp | orOp | ornOp | pmeventOp | popcOp
  | prefetchOp | prefetchuOp | prmtOp | rcpOp | redOp | remOp | retOp | retpOp | rsqrtOp | sadOp
  | selpOp | setpOp | setOp | shflOp | shfOp | shlOp | shrOp | sinOp | slctOp | sqrtOp | sstOp
  | ssyOp | stOp | subOp | subcOp | suldOp | suredOp | sustOp | suqOp | tanhOp | texOp
  | trapOp | vabsdiffOp | vaddOp | vmadOp | vmaxOp | vminOp | vsetOp | vshlOp | vshrOp | vsubOp
  | voteOp | activemaskOp | xorOp | mbarOp | tmaOp | tmaPrefetchOp | cpAsyncOp
  | cpAsyncMbarrierArriveOp | cpAsyncCommitOp | cpAsyncWaitOp | nopOp | breakOp | breakaddrOp
  | tensormapOp | fenceOp | griddepcontrolOp | electOp | ldmatrixOp | stmatrixOp
  | tcgen05AllocOp | tcgen05DeallocOp | tcgen05RelinquishAllocPermitOp | tcgen05MmaOp
  | tcgen05CommitOp | tcgen05LdOp | tcgen05StOp | tcgen05WaitOp | tcgen05CpOp | tcgen05ShiftOp
  | tcgen05FenceOp
  deriving DecidableEq, Repr

/-- The opcodes whose first operand `opcodes.def` calls a destination. -/
def ptxOpcodeHasDst : Option Opcode → Bool
  | none => false
  | some opcode =>
    match opcode with
    | .braOp | .brxOp | .mmaStOp | .tensorMmaStOp | .wgmmaFenceOp | .wgmmaCommitGroupOp
    | .wgmmaWaitGroupOp | .setmaxnregOp | .retOp | .retpOp | .ssyOp | .stOp | .vabsdiffOp
    | .vaddOp | .vmadOp | .vmaxOp | .vminOp | .vsetOp | .vshlOp | .vshrOp | .vsubOp
    | .tmaPrefetchOp | .cpAsyncMbarrierArriveOp | .cpAsyncCommitOp | .cpAsyncWaitOp | .nopOp
    | .breakOp | .breakaddrOp | .fenceOp | .griddepcontrolOp | .stmatrixOp | .tcgen05AllocOp
    | .tcgen05DeallocOp | .tcgen05RelinquishAllocPermitOp | .tcgen05MmaOp | .tcgen05CommitOp
    | .tcgen05StOp | .tcgen05WaitOp | .tcgen05CpOp | .tcgen05ShiftOp | .tcgen05FenceOp => false
    | _ => true

/-- `operand_type` -/
inductive OperandType
  | reg
  | vector
  | builtin
  | address
  | memory
  | float
  | double
  | int
  | unsigned
  | symbolic
  | label
  | undef
  deriving DecidableEq, Repr

/-- What `type_info_key` says of a symbol. -/
structure TypeInfo where
  isReg : Bool := true
  isNonArchReg : Bool := false
  scalarType : Int := 0
  deriving DecidableEq, Repr

structure Symbol where
  name : String
  type : Option TypeInfo := some {}
  sizeInBytes : Nat := 4
  deriving DecidableEq, Repr

def Symbol.isReg (s : Symbol) : Bool :=
  match s.type with
  | none => false
  | some type => type.isReg

def Symbol.isNonArchReg (s : Symbol) : Bool :=
  match s.type with
  | none => false
  | some type => type.isNonArchReg

/-- An operand; `vector` has the components of a vector operand, none of them for a
literal. -/
structure OperandInfo where
  type : OperandType := .reg
  vector : Option (List (Option Nat)) := none
  symbolic : Option Nat := none
  hasAddrSpace : Bool := false
  lohi : Int := 0
  doubleOperandType : Int := 0
  deriving DecidableEq, Repr

structure PtxInstruction where
  opcode : Option Opcode
  label : Option Nat := none
  pred : Option Nat := none
  operands : List OperandInfo := []
  instSize : Nat := 8
  deriving DecidableEq, Repr

namespace PtxInstruction

def isLabel (i : PtxInstruction) : Bool := i.label.isSome

def hasPred (i : PtxInstruction) : Bool := i.pred.isSome

end PtxInstruction

/-- `basic_block_t`, with the places of its first and last instruction in the function's
list. -/
structure BasicBlock where
  bbId : Nat
  ptxBegin : Option Nat
  ptxEnd : Option Nat
  isEntry : Bool := false
  isExit : Bool := false
  successorIds : Finset Nat := ∅
  predecessorIds : Finset Nat := ∅

/-- `function_info`, as far as the control flow and the registers go. -/
structure FunctionInfo where
  symbols : Nat → Symbol
  instructions : List PtxInstruction
  compilerRegisterViews : Table (Nat × Nat) := ∅
  compilerRegisterPacks : Table (Nat × Nat) := ∅
  basicBlocks : List BasicBlock := []
  regAllocAliases : Table Nat := ∅

namespace FunctionInfo

/-- The slots an instruction takes in `m_instr_mem`. A label takes none. -/
def slots (i : PtxInstruction) : List (Option PtxInstruction) :=
  if i.isLabel then [] else (some i :: List.replicate (i.instSize - 1) none).take i.instSize

/-- `m_instr_mem`, as `ptx_assemble` fills it. -/
def instrMem (f : FunctionInfo) : List (Option PtxInstruction) :=
  f.instructions.flatMap slots

/-- `get_m_instr_mem_index` of the instruction at `pos` of the list. -/
def instrMemIndex (f : FunctionInfo) (pos : Nat) : Nat :=
  ((f.instructions.take pos).flatMap slots).length

def canonicalizeRegister (f : FunctionInfo) (reg : Nat) : Nat :=
  (f.regAllocAliases.lookup reg).getD reg

/-- The walk through `m_compiler_register_views`, at most `depth` steps long. -/
def viewSource (f : FunctionInfo) : (depth : Nat) → Nat → Option Nat
  | 0, _ => none
  | depth + 1, current =>
    match f.compilerRegisterViews.lookup current with
    | none => some current
    | some (source, _) => f.viewSource depth source

def canonicalizeCompilerRegisterView (f : FunctionInfo) (reg : Nat) : Nat :=
  (f.viewSource (f.compilerRegisterViews.size + 1) reg).getD reg

def getCompilerRegisterPack (f : FunctionInfo) (reg : Nat) : Option (Nat × Nat) :=
  f.compilerRegisterPacks.lookup reg

def expandCompilerRegisterPack (f : FunctionInfo) (reg : Nat) : Option (Nat × Nat) :=
  (f.getCompilerRegisterPack (f.canonicalizeCompilerRegisterView reg)).map fun (low, high) =>
    (f.canonicalizeCompilerRegisterView low, f.canonicalizeCompilerRegisterView high)

end FunctionInfo

end FlashGpuSim
