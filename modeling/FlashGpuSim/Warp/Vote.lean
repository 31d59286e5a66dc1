import FlashGpuSim.Lib.MaskedLoops
import FlashGpuSim.Warp.ThreadRegs

/-!
`vote`, whose lanes collect their predicates in variables that outlive the instruction. The lane
that is on and has the highest number ends the vote, if it comes to it.
-/

namespace FlashGpuSim

open Lib

inductive VoteMode
  | ballot
  | any
  | all
  | uni
  deriving DecidableEq, Repr

/-- A thread of an SM. -/
structure WarpThread where
  sm : Nat
  hwTid : Nat
  deriving DecidableEq

/-- A `vote` of a warp. The destination is a word for `ballot` and a predicate otherwise. -/
structure Vote where
  sm : Nat
  warpId : Nat
  active : Fin 32 → Bool
  mode : VoteMode
  guard : Option Guard
  dst : Nat
  src1 : Nat
  neg : Bool

/-- The `static thread_local` variables of `vote_impl`. -/
structure VoteStatics where
  firstInWarp : Bool := true
  andAll : Bool := false
  orAll : Bool := false
  ballotResult : BitVec 32 := 0#32
  threadsInWarp : List WarpThread := []
  lastTid : Nat := 0

/-- What a host thread works on: its variables and the registers of all threads. -/
structure VoteState where
  statics : VoteStatics := {}
  regs : WarpThread → ThreadRegs

namespace Vote

variable (v : Vote)

def thread (lane : Fin 32) : WarpThread := ⟨v.sm, v.warpId * 32 + lane⟩

/-- The loop down to the highest lane that is on. -/
def highestActive (active : Fin 32 → Bool) : Nat → Nat
  | 0 => 0
  | offset + 1 =>
    if h : offset < 32 then
      if active ⟨offset, h⟩ then offset else highestActive active offset
    else highestActive active offset

/-- The variables when the first lane of a warp comes to the vote. -/
def start (active : Fin 32 → Bool) (lane : Fin 32) (statics : VoteStatics) : VoteStatics :=
  if statics.firstInWarp then
    { firstInWarp := false
      andAll := true
      orAll := false
      ballotResult := 0#32
      threadsInWarp := []
      lastTid := (v.thread lane).hwTid - (v.thread lane).hwTid % 32 + highestActive active 32 }
  else statics

/-- The predicate of a lane, inverted by the operand. -/
def value (regs : ThreadRegs) : Bool := v.neg ^^ predTrue (regs.preds v.src1)

def collect (lane : Fin 32) (value : Bool) (statics : VoteStatics) : VoteStatics :=
  { statics with
    andAll := statics.andAll && value
    orAll := statics.orAll || value
    ballotResult :=
      if value then statics.ballotResult ||| (1#32 <<< ((v.thread lane).hwTid % 32))
      else statics.ballotResult
    threadsInWarp := statics.threadsInWarp ++ [v.thread lane] }

/-- The result of a vote for predicates. -/
def result (statics : VoteStatics) : Bool :=
  match v.mode with
  | .any => statics.orAll
  | .all => statics.andAll
  | .uni => statics.orAll ^^ statics.andAll
  | .ballot => false

def writeThread (statics : VoteStatics) (r : ThreadRegs) : ThreadRegs :=
  match v.mode with
  | .ballot => r.setWord v.dst statics.ballotResult
  | .any | .all | .uni => r.setPred v.dst (predOf (v.result statics))

/-- The writes at the end, to all threads that have voted. -/
def writeAll (statics : VoteStatics) (regs : WarpThread → ThreadRegs) : WarpThread → ThreadRegs :=
  statics.threadsInWarp.foldl
    (fun regs t => Function.update regs t (v.writeThread statics (regs t))) regs

/-- `vote_impl` of one lane -/
def voteImpl (active : Fin 32 → Bool) (lane : Fin 32) (s : VoteState) : VoteState :=
  let statics := v.collect lane (v.value (s.regs (v.thread lane))) (v.start active lane s.statics)
  if (v.thread lane).hwTid = statics.lastTid then
    { statics := { statics with firstInWarp := true }
      regs := v.writeAll statics s.regs }
  else { s with statics := statics }

/-- A warp executes the instruction. -/
def execute (s : VoteState) : VoteState :=
  (Masked.run (fun s lane => !guardTrue v.guard (s.regs (v.thread lane)))
    (fun active lane s => v.voteImpl active lane s) ⟨v.active, s⟩ 32).state

/-! ### What the instruction is for -/

variable (s : VoteState)

def executes (lane : Fin 32) : Bool := v.active lane && guardTrue v.guard (s.regs (v.thread lane))

/-- The predicate with which a lane votes. -/
def ballots (lane : Fin 32) : Bool := v.value (s.regs (v.thread lane))

/-- What a lane holds after a vote. -/
def Holds (after : ThreadRegs) : Prop :=
  match v.mode with
  | .ballot => ∀ lane : Fin 32,
      (after.words v.dst).getLsbD lane = (v.executes s lane && v.ballots s lane)
  | .any => predTrue (after.preds v.dst) =
      decide (∃ lane, v.executes s lane = true ∧ v.ballots s lane = true)
  | .all => predTrue (after.preds v.dst) =
      decide (∀ lane, v.executes s lane = true → v.ballots s lane = true)
  | .uni => predTrue (after.preds v.dst) =
      decide (∀ lane lane', v.executes s lane = true → v.executes s lane' = true →
        v.ballots s lane = v.ballots s lane')

/-- Every lane that executes holds the result, and nothing is left for a later vote. -/
def Right : Prop :=
  (∀ lane, v.executes s lane = true → v.Holds s ((v.execute s).regs (v.thread lane))) ∧
    (v.execute s).statics.firstInWarp = true

/-! ### Where the code is right -/

/-- A lane that is on and has no lane above it that is on. -/
def Highest (lane : Fin 32) : Prop := v.active lane = true ∧ ∀ j, v.active j = true → j ≤ lane

/-- Nobody votes, or the highest lane that is on votes, and the vote is none of `uni`. -/
def Defined : Prop :=
  (∀ lane, v.executes s lane = false) ∨
    v.mode ≠ .uni ∧ ∃ lane, v.Highest lane ∧ v.executes s lane = true

end Vote

/-- Votes of any warps, one after the other. -/
def VotesRight (s : VoteState) : List Vote → Prop
  | [] => True
  | v :: rest => v.Right s ∧ VotesRight (v.execute s) rest

def VotesDefined (s : VoteState) : List Vote → Prop
  | [] => True
  | v :: rest => v.Defined s ∧ VotesDefined (v.execute s) rest

end FlashGpuSim
