import FlashGpuSim.Ptx.BasicBlocks
import Mathlib.Data.List.Sort

/-!
`run_ptx_register_allocation`: liveness of the registers over the basic blocks, linear live
intervals, and the aliases of registers that share a slot. A `std::set` of registers is a
list without duplicates; nothing depends on the order of its walk. Statistics are left out.
-/

namespace FlashGpuSim

open Lib

/-- A `reg_symbol_set`. -/
abbrev RegSymbolSet := List Nat

/-- `bb_live_info` -/
structure BbLiveInfo where
  use : RegSymbolSet := []
  defs : RegSymbolSet := []
  liveIn : RegSymbolSet := []
  liveOut : RegSymbolSet := []
  deriving DecidableEq, Repr

def BbLiveInfo.addUse (bb : BbLiveInfo) (sym : Nat) : BbLiveInfo :=
  if bb.defs.contains sym then bb else { bb with use := bb.use.insert sym }

def BbLiveInfo.addDef (bb : BbLiveInfo) (sym : Nat) : BbLiveInfo :=
  { bb with defs := bb.defs.insert sym }

/-- A valid `live_interval`. -/
structure LiveInterval where
  start : Nat
  stop : Nat
  group : Int
  deriving DecidableEq, Repr

structure SortedInterval where
  sym : Nat
  start : Nat
  stop : Nat
  group : Int
  deriving DecidableEq, Repr

structure PhysicalSlot where
  representative : Nat
  stop : Nat
  deriving DecidableEq, Repr

namespace RegSymbolSet

def insertAll (s t : RegSymbolSet) : RegSymbolSet := t.foldl (fun s r => s.insert r) s

def without (s t : RegSymbolSet) : RegSymbolSet := s.filter fun r => !t.contains r

/-- Equality of the sets. -/
def same (s t : RegSymbolSet) : Bool := s.all (t.contains ·) && t.all (s.contains ·)

end RegSymbolSet

namespace FunctionInfo

variable (f : FunctionInfo)

/-- `operand_info::is_reg` -/
def operandIsReg (op : OperandInfo) : Bool :=
  match op.type with
  | .reg => true
  | .symbolic => op.symbolic.any fun s => (f.symbols s).isReg
  | _ => false

def addLivenessReg (regs : RegSymbolSet) : Option Nat → RegSymbolSet
  | none => regs
  | some sym =>
    if !(f.symbols sym).isReg || (f.symbols sym).isNonArchReg then regs
    else if (f.symbols sym).name == "_" then regs
    else regs.insert sym

def collectOperandLivenessRegs (op : OperandInfo) (regs : RegSymbolSet) : RegSymbolSet :=
  match op.vector with
  | some elements => elements.foldl f.addLivenessReg regs
  | none =>
    if f.operandIsReg op || op.type == .address || op.type == .memory then
      f.addLivenessReg regs op.symbolic
    else regs

/-- `get_pred` -/
def predOperand (pred : Nat) : OperandInfo :=
  { type := if (f.symbols pred).isReg then .reg else .symbolic, symbolic := some pred }

def dstIsAccumulator (opcode : Option Opcode) : Bool :=
  opcode == some .mmaOp || opcode == some .tensorMmaOp || opcode == some .wgmmaMmaAsyncOp ||
    opcode == some .wgmmaMmaAsyncSpOp

/-- The registers of one operand; `isDst` says that it is the first one of an opcode with a
destination. -/
def collectOperand (inst : PtxInstruction) (isDst : Bool) (op : OperandInfo)
    (regs : RegSymbolSet × RegSymbolSet) : RegSymbolSet × RegSymbolSet :=
  let (uses, defs) := regs
  if isDst then
    let defs := f.collectOperandLivenessRegs op defs
    if dstIsAccumulator inst.opcode || op.lohi != 0 || op.doubleOperandType != 0 then
      (f.collectOperandLivenessRegs op uses, defs)
    else (uses, defs)
  else
    let uses := f.collectOperandLivenessRegs op uses
    -- Some PTXPlus memory address forms update the address register.
    if op.hasAddrSpace && (op.doubleOperandType == 2 || op.doubleOperandType == 3) then
      (uses, f.collectOperandLivenessRegs op defs)
    else (uses, defs)

/-- The uses and the definitions of an instruction. -/
def collectInstLivenessRegs (inst : PtxInstruction) : RegSymbolSet × RegSymbolSet :=
  if inst.isLabel then ([], [])
  else
    let uses :=
      match inst.pred with
      | some pred => f.collectOperandLivenessRegs (f.predOperand pred) []
      | none => []
    match inst.operands with
    | [] => (uses, [])
    | op :: rest =>
      rest.foldl (fun regs op => f.collectOperand inst false op regs)
        (f.collectOperand inst (ptxOpcodeHasDst inst.opcode) op (uses, []))

def canonicalizeCompilerViewRegs (regs : RegSymbolSet) : RegSymbolSet :=
  regs.foldl (fun canonical reg =>
    match f.expandCompilerRegisterPack reg with
    | some (low, high) =>
      (canonical.insert (f.canonicalizeCompilerRegisterView low)).insert
        (f.canonicalizeCompilerRegisterView high)
    | none => canonical.insert (f.canonicalizeCompilerRegisterView reg)) []

def instUses (inst : PtxInstruction) : RegSymbolSet :=
  f.canonicalizeCompilerViewRegs (f.collectInstLivenessRegs inst).1

def instDefs (inst : PtxInstruction) : RegSymbolSet :=
  f.canonicalizeCompilerViewRegs (f.collectInstLivenessRegs inst).2

/-- The instructions of `m_instr_mem` from `pc` to `last`. -/
def walkInstrMem (mem : List (Option PtxInstruction)) (last : Nat) :
    (fuel : Nat) → (pc : Nat) → List (Nat × PtxInstruction)
  | 0, _ => []
  | fuel + 1, pc =>
    if last < pc then []
    else
      match mem[pc]?.join with
      | none => walkInstrMem mem last fuel (pc + 1)
      | some inst =>
        (pc, inst) ::
          walkInstrMem mem last fuel (pc + if inst.instSize = 0 then 1 else inst.instSize)

/-- The first and the last place of a block in `m_instr_mem`. -/
def blockRange (bb : BasicBlock) : Option (Nat × Nat) :=
  if bb.isExit then none
  else
    match bb.ptxBegin, bb.ptxEnd with
    | some first, some last => some (f.instrMemIndex first, f.instrMemIndex last)
    | _, _ => none

def blockInsts (bb : BasicBlock) : List (Nat × PtxInstruction) :=
  match f.blockRange bb with
  | some (first, last) => walkInstrMem f.instrMem last (last + 1 - first) first
  | none => []

def regAllocGroup (sym : Nat) : Int :=
  match (f.symbols sym).type with
  | none => -1
  | some type => (f.symbols sym).sizeInBytes * 4096 + type.scalarType

def recordInterval (pc : Nat) (intervals : Table LiveInterval) (sym : Nat) :
    Table LiveInterval :=
  match intervals.lookup sym with
  | none => intervals.insert sym { start := pc, stop := pc, group := f.regAllocGroup sym }
  | some range =>
    intervals.insert sym { range with start := min range.start pc, stop := max range.stop pc }

/-- What the first loop of `run_ptx_register_allocation` fills; `bb` belongs to the block
under way. -/
structure LiveScan where
  bb : BbLiveInfo := {}
  bbLive : List BbLiveInfo := []
  intervals : Table LiveInterval := ∅
  allRegs : RegSymbolSet := []
  linearDefined : RegSymbolSet := []
  linearReadBeforeDef : RegSymbolSet := []

def LiveScan.use (s : LiveScan) (pc sym : Nat) : LiveScan :=
  { s with
    allRegs := s.allRegs.insert sym
    bb := s.bb.addUse sym
    linearReadBeforeDef :=
      if s.linearDefined.contains sym then s.linearReadBeforeDef
      else s.linearReadBeforeDef.insert sym
    intervals := f.recordInterval pc s.intervals sym }

def LiveScan.define (s : LiveScan) (pc sym : Nat) : LiveScan :=
  { s with
    allRegs := s.allRegs.insert sym
    bb := s.bb.addDef sym
    linearDefined := s.linearDefined.insert sym
    intervals := f.recordInterval pc s.intervals sym }

def scanInst (s : LiveScan) (at_ : Nat × PtxInstruction) : LiveScan :=
  let s := (f.instUses at_.2).foldl (fun s sym => LiveScan.use f s at_.1 sym) s
  (f.instDefs at_.2).foldl (fun s sym => LiveScan.define f s at_.1 sym) s

def scanBlock (s : LiveScan) (bb : BasicBlock) : LiveScan :=
  let s := (f.blockInsts bb).foldl f.scanInst { s with bb := {} }
  { s with bbLive := s.bbLive ++ [s.bb] }

def scan : LiveScan := f.basicBlocks.foldl f.scanBlock {}

/-- The edges out of block `id` that stay inside the function. -/
def successorsOfBlock (id : Nat) : List Nat :=
  (List.range f.basicBlocks.length).filter fun s =>
    f.basicBlocks[id]?.any fun bb => decide (s ∈ bb.successorIds)

def newLiveOut (live : List BbLiveInfo) (id : Nat) : RegSymbolSet :=
  (f.successorsOfBlock id).foldl
    (fun out s => RegSymbolSet.insertAll out (live[s]?.getD {}).liveIn) []

def newLiveIn (info : BbLiveInfo) (out : RegSymbolSet) : RegSymbolSet :=
  RegSymbolSet.insertAll info.use (RegSymbolSet.without out info.defs)

/-- One block of the backward pass; the flag is `changed`. -/
def refreshBlock (s : List BbLiveInfo × Bool) (id : Nat) : List BbLiveInfo × Bool :=
  let info := s.1[id]?.getD {}
  let out := f.newLiveOut s.1 id
  let live := newLiveIn info out
  if RegSymbolSet.same live info.liveIn && RegSymbolSet.same out info.liveOut then s
  else (s.1.set id { info with liveIn := live, liveOut := out }, true)

def refreshPass (live : List BbLiveInfo) : List BbLiveInfo × Bool :=
  (List.range f.basicBlocks.length).reverse.foldl f.refreshBlock (live, false)

/-- `while (changed)`, for at most `fuel` passes. -/
def refreshLoop : (fuel : Nat) → List BbLiveInfo → List BbLiveInfo
  | 0, live => live
  | fuel + 1, live =>
    let (live', changed) := f.refreshPass live
    if changed then refreshLoop fuel live' else live'

/-- Every pass but the last one adds a register to a set of some block. -/
def passes : Nat := 2 * f.basicBlocks.length * f.scan.allRegs.length + 1

def bbLive : List BbLiveInfo := f.refreshLoop f.passes f.scan.bbLive

/-- The registers live into and out of a block cover its first and last instruction. -/
def extendBlock (live : BbLiveInfo) (bb : BasicBlock) (intervals : Table LiveInterval) :
    Table LiveInterval :=
  match bb.ptxBegin with
  | none => intervals
  | some first =>
    let first := f.instrMemIndex first
    let last := bb.ptxEnd.elim first f.instrMemIndex
    live.liveOut.foldl (f.recordInterval last) (live.liveIn.foldl (f.recordInterval first) intervals)

def intervals : Table LiveInterval :=
  (f.bbLive.zip f.basicBlocks).foldl (fun intervals (live, bb) => f.extendBlock live bb intervals)
    f.scan.intervals

/-- The order of `sort_intervals`. -/
def intervalBefore (a b : SortedInterval) : Bool :=
  if a.group ≠ b.group then a.group < b.group
  else if a.start ≠ b.start then a.start < b.start
  else if a.stop ≠ b.stop then a.stop < b.stop
  else a.sym < b.sym

def sortIntervals (intervals : Table LiveInterval) : List SortedInterval :=
  (intervals.entries.map fun e =>
    { sym := e.1, start := e.2.start, stop := e.2.stop, group := e.2.group }).insertionSort
    fun a b => !intervalBefore b a

/-- The slots of the group under way and the aliases so far. -/
structure AllocState where
  group : Option Int := none
  active : List PhysicalSlot := []
  aliases : Table Nat := ∅

/-- The first slot whose registers end before `interval` starts, taken over by it. -/
def reuseSlot (interval : SortedInterval) : List PhysicalSlot → Option (Nat × List PhysicalSlot)
  | [] => none
  | slot :: rest =>
    if slot.stop < interval.start then
      some (slot.representative, { slot with stop := interval.stop } :: rest)
    else
      (reuseSlot interval rest).map fun (representative, rest) => (representative, slot :: rest)

def allocateInterval (pinned : RegSymbolSet) (s : AllocState) (interval : SortedInterval) :
    AllocState :=
  let active := if s.group = some interval.group then s.active else []
  let s := { s with group := some interval.group, active := active }
  if pinned.contains interval.sym then s
  else
    match reuseSlot interval active with
    | some (representative, active) =>
      { s with
        active := active
        aliases :=
          if representative ≠ interval.sym then s.aliases.insert interval.sym representative
          else s.aliases }
    | none =>
      { s with
        active := active ++ [{ representative := interval.sym, stop := interval.stop }] }

/-- `allocate_intervals` with the pinned registers and the aliases. -/
def allocateIntervals (sorted : List SortedInterval) (pinned : RegSymbolSet) : Table Nat :=
  (sorted.foldl (allocateInterval pinned) {}).aliases

/-- `run_ptx_register_allocation`; `enable` is the option of the allocator. -/
def runPtxRegisterAllocation (enable : Bool) : FunctionInfo :=
  { f with
    regAllocAliases :=
      if enable then allocateIntervals (sortIntervals f.intervals) f.scan.linearReadBeforeDef
      else ∅ }

end FunctionInfo

end FlashGpuSim
