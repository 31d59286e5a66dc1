import FlashGpuSim.Lib.MaskedLoops
import FlashGpuSim.Warp.ThreadRegs

/-!
`shfl`, which the lanes of a warp execute one after the other. A lane whose destination is the
source register has overwritten it when a later lane reads it, and a lane that is off gives zero.
-/

namespace FlashGpuSim

open Lib

inductive ShflOp
  | up
  | down
  | bfly
  | idx
  deriving DecidableEq, Repr

/-- A register or an immediate value. -/
inductive WordOperand
  | reg (r : Nat)
  | imm (value : BitVec 32)
  deriving DecidableEq

def WordOperand.value (o : WordOperand) (r : ThreadRegs) : BitVec 32 :=
  match o with
  | .reg a => r.words a
  | .imm value => value

/-- `dst` and, with `|`, a predicate. -/
structure ShflInst where
  op : ShflOp
  guard : Option Guard
  dst : Nat
  pred : Option Nat
  src1 : WordOperand
  src2 : WordOperand
  src3 : WordOperand

/-- The lane that `shfl_impl` copies from, before the range test, and the test. -/
def shflSource (op : ShflOp) (lane b c : BitVec 32) : BitVec 32 × Bool :=
  let mask := c.sshiftRight 8
  let bval := b &&& 0x1F#32
  let cval := c &&& 0x1F#32
  let maxLane := (lane &&& mask) ||| (cval &&& ~~~mask)
  let minLane := lane &&& mask
  match op with
  | .up =>
    let srcIdx := lane - bval
    (srcIdx, maxLane.sle srcIdx)
  | .down =>
    let srcIdx := lane + bval
    (srcIdx, srcIdx.sle maxLane)
  | .bfly =>
    let srcIdx := lane ^^^ bval
    (srcIdx, srcIdx.sle maxLane)
  | .idx =>
    let srcIdx := minLane ||| (bval &&& ~~~mask)
    (srcIdx, srcIdx.sle maxLane)

def laneWord (lane : Fin 32) : BitVec 32 := BitVec.ofNat 32 lane

/-- The writes of a lane to its destinations. -/
def shflWrite (i : ShflInst) (own : ThreadRegs) (data : BitVec 32) (p : Bool) : ThreadRegs :=
  match i.pred with
  | none => own.setWord i.dst data
  | some pred => (own.setWord i.dst data).setPred pred (predOf p)

/-- `shfl_impl` of one lane. Where the test fails, the lane copies from itself. -/
def shflImpl (i : ShflInst) (active : Fin 32 → Bool) (lane : Fin 32) (regs : Fin 32 → ThreadRegs) :
    ThreadRegs :=
  let own := regs lane
  let (srcIdx, p) := shflSource i.op (laneWord lane) (i.src2.value own) (i.src3.value own)
  let source := if p then srcIdx.toNat else lane.val
  let data :=
    if h : source < 32 then
      if active ⟨source, h⟩ then i.src1.value (regs ⟨source, h⟩) else 0#32
    else 0#32
  shflWrite i own data p

/-- A warp executes the instruction. -/
def executeShfl (i : ShflInst) (w : Masked 32 (Fin 32 → ThreadRegs)) :
    Masked 32 (Fin 32 → ThreadRegs) :=
  w.runOwn (guardTrue i.guard) (shflImpl i) 32

/-! ### What the instruction is for -/

/-- The lane that the formula selects, and whether it is in range. The lane, its segment and the
operands have five bits. -/
def shflFormula (op : ShflOp) (lane : Fin 32) (b c : BitVec 32) : Int × Bool :=
  let lane := BitVec.ofNat 5 lane
  let bval := b.setWidth 5
  let cval := c.setWidth 5
  let mask := c.extractLsb' 8 5
  let maxLane := (lane &&& mask) ||| (cval &&& ~~~mask)
  let minLane := lane &&& mask
  match op with
  | .up =>
    let j : Int := lane.toNat - bval.toNat
    (j, decide (j ≥ maxLane.toNat))
  | .down =>
    let j : Int := lane.toNat + bval.toNat
    (j, decide (j ≤ maxLane.toNat))
  | .bfly =>
    let j : Int := (lane ^^^ bval).toNat
    (j, decide (j ≤ maxLane.toNat))
  | .idx =>
    let j : Int := (minLane ||| (bval &&& ~~~mask)).toNat
    (j, decide (j ≤ maxLane.toNat))

variable (i : ShflInst) (w : Masked 32 (Fin 32 → ThreadRegs))

/-- The formula for a lane with its operands before the instruction. -/
def shflChoice (lane : Fin 32) : Int × Bool :=
  shflFormula i.op lane (i.src2.value (w.state lane)) (i.src3.value (w.state lane))

/-- The lane that a lane gets its value from. -/
def shflLane (lane : Fin 32) : Fin 32 :=
  if (shflChoice i w lane).2 then Fin.ofNat 32 (shflChoice i w lane).1.toNat else lane

/-- The value that a lane holds of the source before the instruction. -/
def heldBefore (lane : Fin 32) : BitVec 32 := i.src1.value (w.state lane)

/-- Each lane that executes ends with what the selected lane held before, and the predicate tells
whether that lane was in range. -/
def ShflRight : Prop :=
  ∀ lane, w.executes (guardTrue i.guard) lane = true →
    ((executeShfl i w).state lane).words i.dst = heldBefore i w (shflLane i w lane) ∧
    ∀ p ∈ i.pred, predTrue (((executeShfl i w).state lane).preds p) = (shflChoice i w lane).2

/-! ### Where the code is right -/

/-- A selected lane that is off holds zero, and a lane that has overwritten its source holds there
what it has selected itself. -/
def ShflDefined : Prop :=
  ∀ lane, w.executes (guardTrue i.guard) lane = true →
    let source := shflLane i w lane
    if w.onAt (guardTrue i.guard) lane source then
      source < lane → i.src1 = .reg i.dst →
        heldBefore i w (shflLane i w source) = heldBefore i w source
    else heldBefore i w source = 0#32

/-! ### Five bits -/

theorem setWidth_and_word (x : BitVec 5) (y : BitVec 32) :
    x.setWidth 32 &&& y = (x &&& y.setWidth 5).setWidth 32 := by
  ext k hk
  simp only [BitVec.getElem_and, BitVec.getElem_setWidth, BitVec.getLsbD_and,
    BitVec.getLsbD_setWidth]
  rcases Nat.lt_or_ge k 5 with h | h
  · simp [h, hk]
  · simp [BitVec.getLsbD_of_ge x k h]

theorem laneWord_eq (lane : Fin 32) : laneWord lane = (BitVec.ofNat 5 lane).setWidth 32 := by
  apply BitVec.eq_of_toNat_eq
  unfold laneWord
  have hlt := lane.isLt
  rw [BitVec.toNat_setWidth, BitVec.toNat_ofNat, BitVec.toNat_ofNat]
  omega

theorem and_low (b : BitVec 32) : b &&& 0x1F#32 = (b.setWidth 5).setWidth 32 := by
  have hones : (0x1F#32 : BitVec 32) = (BitVec.allOnes 5).setWidth 32 := by decide
  rw [BitVec.and_comm, hones, setWidth_and_word, BitVec.allOnes_and]

theorem setWidth_mask (c : BitVec 32) : (c.sshiftRight 8).setWidth 5 = c.extractLsb' 8 5 := by
  ext k hk
  simp only [BitVec.getElem_setWidth, BitVec.getLsbD_sshiftRight, BitVec.getElem_extractLsb']
  have h1 : ¬ 32 ≤ k := by omega
  have h2 : 8 + k < 32 := by omega
  simp [h1, h2]

theorem setWidth_not_mask (c : BitVec 32) :
    (~~~(c.sshiftRight 8)).setWidth 5 = ~~~(c.extractLsb' 8 5) := by
  rw [BitVec.setWidth_not (by decide), setWidth_mask]

theorem toInt_five (x : BitVec 5) : (x.setWidth 32).toInt = x.toNat := by
  have hlt := x.isLt
  rw [BitVec.toInt_eq_toNat_of_lt]
  · rw [BitVec.toNat_setWidth, Nat.mod_eq_of_lt (by omega)]
  · rw [BitVec.toNat_setWidth, Nat.mod_eq_of_lt (by omega)]
    omega

theorem toInt_sub_five (x y : BitVec 5) :
    (x.setWidth 32 - y.setWidth 32).toInt = (x.toNat : Int) - y.toNat := by
  have hx := x.isLt
  have hy := y.isLt
  rw [BitVec.toInt_sub, toInt_five, toInt_five, Int.bmod_eq_of_le (by omega) (by omega)]

theorem toInt_add_five (x y : BitVec 5) :
    (x.setWidth 32 + y.setWidth 32).toInt = (x.toNat : Int) + y.toNat := by
  have hx := x.isLt
  have hy := y.isLt
  rw [BitVec.toInt_add, toInt_five, toInt_five, Int.bmod_eq_of_le (by omega) (by omega)]

/-- The code computes the formula with 32 bits. -/
theorem shflSource_formula (op : ShflOp) (lane : Fin 32) (b c : BitVec 32) :
    (shflSource op (laneWord lane) b c).1.toInt = (shflFormula op lane b c).1 ∧
      (shflSource op (laneWord lane) b c).2 = (shflFormula op lane b c).2 := by
  have hmax : (laneWord lane &&& c.sshiftRight 8) ||| ((c &&& 0x1F#32) &&& ~~~(c.sshiftRight 8)) =
      ((BitVec.ofNat 5 lane &&& c.extractLsb' 8 5) |||
        (c.setWidth 5 &&& ~~~(c.extractLsb' 8 5))).setWidth 32 := by
    rw [laneWord_eq, and_low, setWidth_and_word, setWidth_and_word, setWidth_mask,
      setWidth_not_mask, ← BitVec.setWidth_or]
  have hidx : (laneWord lane &&& c.sshiftRight 8) ||| ((b &&& 0x1F#32) &&& ~~~(c.sshiftRight 8)) =
      ((BitVec.ofNat 5 lane &&& c.extractLsb' 8 5) |||
        (b.setWidth 5 &&& ~~~(c.extractLsb' 8 5))).setWidth 32 := by
    rw [laneWord_eq, and_low, setWidth_and_word, setWidth_and_word, setWidth_mask,
      setWidth_not_mask, ← BitVec.setWidth_or]
  cases op with
  | up =>
    have hsub : (laneWord lane - (b &&& 0x1F#32)).toInt =
        ((BitVec.ofNat 5 lane).toNat : Int) - (b.setWidth 5).toNat := by
      rw [laneWord_eq, and_low, toInt_sub_five]
    refine ⟨hsub, ?_⟩
    show BitVec.sle _ _ = decide _
    rw [hmax, BitVec.sle, hsub, toInt_five]
  | down =>
    have hadd : (laneWord lane + (b &&& 0x1F#32)).toInt =
        ((BitVec.ofNat 5 lane).toNat : Int) + (b.setWidth 5).toNat := by
      rw [laneWord_eq, and_low, toInt_add_five]
    refine ⟨hadd, ?_⟩
    show BitVec.sle _ _ = decide _
    rw [hmax, BitVec.sle, hadd, toInt_five]
  | bfly =>
    have hxor : (laneWord lane ^^^ (b &&& 0x1F#32)).toInt =
        ((BitVec.ofNat 5 lane ^^^ b.setWidth 5).toNat : Int) := by
      rw [laneWord_eq, and_low, ← BitVec.setWidth_xor, toInt_five]
    refine ⟨hxor, ?_⟩
    show BitVec.sle _ _ = decide _
    rw [hmax, BitVec.sle, hxor, toInt_five]
  | idx =>
    refine ⟨(congrArg BitVec.toInt hidx).trans (toInt_five _), ?_⟩
    show BitVec.sle _ _ = decide _
    rw [hmax, hidx, BitVec.sle, toInt_five, toInt_five]

/-- A lane that is in range is one of the warp. -/
theorem shflFormula_range {op : ShflOp} {lane : Fin 32} {b c : BitVec 32}
    (h : (shflFormula op lane b c).2 = true) :
    0 ≤ (shflFormula op lane b c).1 ∧ (shflFormula op lane b c).1 < 32 := by
  unfold shflFormula at h ⊢
  dsimp only at h ⊢
  generalize hmax : (BitVec.ofNat 5 lane &&& c.extractLsb' 8 5) |||
    (c.setWidth 5 &&& ~~~(c.extractLsb' 8 5)) = maxLane at h
  have hmaxlt := maxLane.isLt
  have hlane := (BitVec.ofNat 5 lane.val).isLt
  cases op with
  | up =>
    have hge := of_decide_eq_true h
    dsimp only at hge ⊢
    omega
  | down =>
    have hle := of_decide_eq_true h
    dsimp only at hle ⊢
    omega
  | bfly =>
    have hle := of_decide_eq_true h
    dsimp only at hle ⊢
    omega
  | idx =>
    have hle := of_decide_eq_true h
    dsimp only at hle ⊢
    omega

/-! ### The warp -/

section Warp

variable {i : ShflInst} {w : Masked 32 (Fin 32 → ThreadRegs)} {lane : Fin 32}

/-- The lane whose register `shfl_impl` reads. -/
theorem source_shflLane {regs : Fin 32 → ThreadRegs} (hown : regs lane = w.state lane) :
    (if (shflSource i.op (laneWord lane) (i.src2.value (regs lane)) (i.src3.value (regs lane))).2 then
      (shflSource i.op (laneWord lane) (i.src2.value (regs lane))
        (i.src3.value (regs lane))).1.toNat
      else lane.val) = (shflLane i w lane).val := by
  rw [hown]
  obtain ⟨hidx, hp⟩ := shflSource_formula i.op lane (i.src2.value (w.state lane))
    (i.src3.value (w.state lane))
  unfold shflLane shflChoice
  rw [hp]
  split
  · rename_i hrange
    obtain ⟨hge, hlt⟩ := shflFormula_range hrange
    rw [← hidx] at hge hlt ⊢
    rw [Fin.val_ofNat, Nat.mod_eq_of_lt (by omega)]
    have hnat := BitVec.toInt_eq_toNat_cond (shflSource i.op (laneWord lane)
      (i.src2.value (w.state lane)) (i.src3.value (w.state lane))).1
    split at hnat
    · omega
    · omega
  · rfl

/-- What a lane copies. -/
def copied (i : ShflInst) (w : Masked 32 (Fin 32 → ThreadRegs)) (lane : Fin 32)
    (regs : Fin 32 → ThreadRegs) : BitVec 32 :=
  if w.onAt (guardTrue i.guard) lane (shflLane i w lane) then
    i.src1.value (regs (shflLane i w lane))
  else 0#32

theorem shflImpl_eq {regs : Fin 32 → ThreadRegs} (hown : regs lane = w.state lane) :
    shflImpl i (w.onAt (guardTrue i.guard) lane) lane regs =
      shflWrite i (w.state lane) (copied i w lane regs) (shflChoice i w lane).2 := by
  have hsource := source_shflLane (i := i) hown
  have hp : (shflSource i.op (laneWord lane) (i.src2.value (regs lane))
      (i.src3.value (regs lane))).2 = (shflChoice i w lane).2 := by
    rw [hown]
    exact (shflSource_formula _ _ _ _).2
  unfold shflImpl copied
  dsimp only
  rw [hsource, hp, dif_pos (shflLane i w lane).isLt, hown]

theorem words_shflWrite {own : ThreadRegs} {data : BitVec 32} {p : Bool} (a : Nat) :
    (shflWrite i own data p).words a = if a = i.dst then data else own.words a := by
  have hset : (own.setWord i.dst data).words a = if a = i.dst then data else own.words a := by
    show Function.update own.words i.dst data a = _
    rcases eq_or_ne a i.dst with rfl | hne
    · rw [Function.update_self, if_pos rfl]
    · rw [Function.update_of_ne hne, if_neg hne]
  unfold shflWrite
  cases i.pred with
  | none => exact hset
  | some pred => exact hset

theorem pred_shflWrite {own : ThreadRegs} {data : BitVec 32} {p : Bool} :
    ∀ pred ∈ i.pred, predTrue ((shflWrite i own data p).preds pred) = p := by
  intro pred hpred
  unfold shflWrite
  rw [Option.mem_def.mp hpred]
  show predTrue (Function.update (own.setWord i.dst data).preds pred (predOf p) pred) = p
  rw [Function.update_self, predTrue_predOf]

/-- What a lane sees of the others: those before it have run. -/
def seenBy (i : ShflInst) (w : Masked 32 (Fin 32 → ThreadRegs)) (lane j : Fin 32) : ThreadRegs :=
  if j < lane then (executeShfl i w).state j else w.state j

theorem executeShfl_state (hlane : w.executes (guardTrue i.guard) lane = true) :
    (executeShfl i w).state lane =
      shflWrite i (w.state lane) (copied i w lane (seenBy i w lane)) (shflChoice i w lane).2 := by
  have hstate : (w.runOwn (guardTrue i.guard) (shflImpl i) 32).state lane = _ :=
    Masked.runOwn_state lane
  rw [if_pos hlane] at hstate
  have hown : seenBy i w lane lane = w.state lane := if_neg (lt_irrefl lane)
  rw [← shflImpl_eq hown]
  exact hstate

theorem word_executeShfl (hlane : w.executes (guardTrue i.guard) lane = true) :
    ((executeShfl i w).state lane).words i.dst = copied i w lane (seenBy i w lane) := by
  rw [executeShfl_state hlane, words_shflWrite, if_pos rfl]

/-- A lane before another one runs, if it is still on when the loop comes to the other. -/
theorem executes_of_onAt {j : Fin 32} (hon : w.onAt (guardTrue i.guard) lane j = true)
    (hlt : j < lane) : w.executes (guardTrue i.guard) j = true := by
  unfold Masked.onAt at hon
  unfold Masked.executes
  rw [decide_eq_false (not_le.mpr hlt), Bool.false_or] at hon
  exact hon

/-- The source in a lane that has run. -/
theorem value_seenBy {j : Fin 32} (hon : w.onAt (guardTrue i.guard) lane j = true) :
    i.src1.value (seenBy i w lane j) =
      if j < lane ∧ i.src1 = .reg i.dst then ((executeShfl i w).state j).words i.dst
      else heldBefore i w j := by
  unfold seenBy heldBefore
  by_cases hlt : j < lane
  · rw [if_pos hlt]
    have hj := executes_of_onAt hon hlt
    cases hsrc : i.src1 with
    | imm value => simp [WordOperand.value]
    | reg a =>
      show ((executeShfl i w).state j).words a = _
      rcases eq_or_ne a i.dst with rfl | hne
      · rw [if_pos ⟨hlt, rfl⟩]
      · rw [if_neg fun h => hne (WordOperand.reg.inj h.2), executeShfl_state hj, words_shflWrite,
          if_neg hne]
        rfl
  · rw [if_neg hlt, if_neg fun h => hlt h.1]

theorem shflRight_iff : ShflRight i w ↔ ShflDefined i w := by
  constructor
  · intro hright lane hlane
    have hword := (hright lane hlane).1
    rw [word_executeShfl hlane, copied] at hword
    dsimp only
    split
    · rename_i hon
      rw [if_pos hon, value_seenBy hon] at hword
      intro hlt hsrc
      rw [if_pos ⟨hlt, hsrc⟩, (hright _ (executes_of_onAt hon hlt)).1] at hword
      exact hword
    · rename_i hoff
      rw [if_neg hoff] at hword
      exact hword.symm
  · intro hdefined
    have hwords : ∀ n, ∀ lane : Fin 32, lane.val = n → w.executes (guardTrue i.guard) lane = true →
        ((executeShfl i w).state lane).words i.dst = heldBefore i w (shflLane i w lane) := by
      intro n
      induction n using Nat.strong_induction_on with
      | _ n ih =>
        rintro lane rfl hlane
        have hcase := hdefined lane hlane
        dsimp only at hcase
        rw [word_executeShfl hlane, copied]
        split at hcase
        · rename_i hon
          rw [if_pos hon, value_seenBy hon]
          split
          · rename_i hlt
            rw [ih _ hlt.1 _ rfl (executes_of_onAt hon hlt.1)]
            exact hcase hlt.1 hlt.2
          · rfl
        · rename_i hoff
          rw [if_neg hoff]
          exact hcase.symm
    intro lane hlane
    refine ⟨hwords _ lane rfl hlane, ?_⟩
    rw [executeShfl_state hlane]
    exact pred_shflWrite

end Warp

end FlashGpuSim
