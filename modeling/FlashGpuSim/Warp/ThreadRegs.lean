import Mathlib.Data.BitVec

/-!
The registers of a lane, and the guard of an instruction.
-/

namespace FlashGpuSim

/-- The lowest bit of a predicate register is its zero flag, which guards and `selp` read. -/
def predTrue {n : Nat} (pred : BitVec n) : Bool := !pred.getLsbD 0

/-- How the instructions write a predicate: 0 for true, 1 for false. -/
def predOf (value : Bool) : BitVec 4 := if value then 0#4 else 1#4

@[simp] theorem predTrue_predOf (value : Bool) : predTrue (predOf value) = value := by
  cases value <;> rfl

/-- Registers by their number after allocation: those of 32 bits and those of predicates. -/
structure ThreadRegs where
  words : Nat → BitVec 32
  preds : Nat → BitVec 4

namespace ThreadRegs

variable (r : ThreadRegs)

def setWord (d : Nat) (value : BitVec 32) : ThreadRegs :=
  { r with words := Function.update r.words d value }

def setPred (p : Nat) (value : BitVec 4) : ThreadRegs :=
  { r with preds := Function.update r.preds p value }

end ThreadRegs

/-- The predicate of an instruction, `@p` or `@!p`. -/
structure Guard where
  pred : Nat
  neg : Bool

/-- The lane executes the instruction; the zero flag is inverted. -/
def guardTrue (guard : Option Guard) (r : ThreadRegs) : Bool :=
  match guard with
  | none => true
  | some g => !((r.preds g.pred).getLsbD 0 ^^ g.neg)

end FlashGpuSim
