import FlashGpuSim.Ptx.RegAllocAliases

/-!
When sharing registers keeps the meaning of a function. The interpretation of the
instructions is arbitrary, apart from their operands being all that they read and write.
The live interval of a register is linear; sharing is sound when it reaches over every
place where the register is live.
-/

namespace FlashGpuSim

open Lib

universe w x

variable {V : Type w} {E : Type x}

namespace FunctionInfo

variable {f : FunctionInfo} {m : Semantics (Nat × PtxInstruction) Nat V E} {b i r s : Nat}
  {bb : BasicBlock}

/-- The instructions read and write registers of their operands only. -/
structure Fits (f : FunctionInfo) (m : Semantics (Nat × PtxInstruction) Nat V E) : Prop where
  reads : ∀ x, ∀ r ∈ m.reads x, r ∈ f.instUses x.2 ∨ r ∈ f.instDefs x.2
  writes : ∀ x, ∀ r ∈ m.writes x, r ∈ f.instUses x.2 ∨ r ∈ f.instDefs x.2
  kills : ∀ x, m.kills x ⊆ m.writes x

/-- The place of point `i` of block `b`: that of the instruction behind it, or of the last
one. -/
def pcAt (f : FunctionInfo) (b i : Nat) : Nat :=
  (f.flow.insts b)[i]?.elim ((f.basicBlocks[b]?.bind f.blockRange).elim 0 (·.2)) (·.1)

/-- Wherever a register is live, it has a mark before or at the point and one at or behind
it. Registers that the list of instructions reads first are pinned and need none. -/
def Covered (f : FunctionInfo) (m : Semantics (Nat × PtxInstruction) Nat V E) : Prop :=
  ∀ b bb i r, f.basicBlocks[b]? = some bb → (f.blockRange bb).isSome → m.Live f.flow b i r →
    ¬ f.ReadFirst (f.basicBlocks.flatMap f.blockInsts) r →
      ∃ first last, f.Marks r first ∧ f.Marks r last ∧ first ≤ f.pcAt b i ∧ f.pcAt b i ≤ last

/-- No two registers with one representative are live at one point, and every register read
along a path from the entry has the value it has with separate registers. -/
def SoundlyAllocated (f : FunctionInfo) (m : Semantics (Nat × PtxInstruction) Nat V E) : Prop :=
  (∀ r s, r ≠ s → (f.runPtxRegisterAllocation true).canonicalizeRegister r =
      (f.runPtxRegisterAllocation true).canonicalizeRegister s →
    ∀ b bb i, f.basicBlocks[b]? = some bb → (f.blockRange bb).isSome →
      ¬ (m.Live f.flow b i r ∧ m.Live f.flow b i s)) ∧
  ∀ xs, Walk f.flow 0 0 xs → ∀ n e (uninit : V),
    m.readTrace (f.runPtxRegisterAllocation true).canonicalizeRegister n e (fun _ => uninit) xs =
      m.readTrace id n e (fun _ => uninit) xs

/-! ### The places of a block -/

theorem walkInstrMem_places (mem : List (Option PtxInstruction)) (last fuel pc : Nat) :
    (∀ x ∈ walkInstrMem mem last fuel pc, pc ≤ x.1 ∧ x.1 ≤ last) ∧
    (walkInstrMem mem last fuel pc).Pairwise fun x y => x.1 < y.1 := by
  induction fuel generalizing pc with
  | zero => exact ⟨fun x hx => absurd hx List.not_mem_nil, .nil⟩
  | succ fuel ih =>
    unfold walkInstrMem
    split
    · exact ⟨fun x hx => absurd hx List.not_mem_nil, .nil⟩
    · rename_i hlast
      split
      · refine ⟨fun x hx => ?_, (ih (pc + 1)).2⟩
        have := (ih (pc + 1)).1 x hx
        omega
      · rename_i inst _
        have hstep : pc < pc + (if inst.instSize = 0 then 1 else inst.instSize) := by
          split <;> omega
        obtain ⟨hplaces, hpairs⟩ :=
          ih (pc + if inst.instSize = 0 then 1 else inst.instSize)
        refine ⟨fun x hx => ?_, .cons (fun y hy => hstep.trans_le (hplaces y hy).1) hpairs⟩
        rcases List.mem_cons.mp hx with rfl | hx
        · exact ⟨le_rfl, Nat.le_of_not_lt hlast⟩
        · exact ⟨hstep.le.trans (hplaces x hx).1, (hplaces x hx).2⟩

theorem blockRange_of_mem {x : Nat × PtxInstruction} (h : x ∈ f.blockInsts bb) :
    (f.blockRange bb).isSome := by
  unfold blockInsts at h
  split at h
  · rename_i hrange
    rw [hrange]
    rfl
  · cases h

theorem blockInsts_places {first last : Nat} (h : f.blockRange bb = some (first, last)) :
    (∀ x ∈ f.blockInsts bb, first ≤ x.1 ∧ x.1 ≤ last) ∧
    (f.blockInsts bb).Pairwise fun x y => x.1 < y.1 := by
  unfold blockInsts
  rw [h]
  exact walkInstrMem_places ..

theorem pcAt_inst {x : Nat × PtxInstruction} (h : (f.flow.insts b)[i]? = some x) :
    f.pcAt b i = x.1 := by
  rw [pcAt, h]
  rfl

/-- An instruction of a block, with the range of the block. -/
theorem inst_places {x : Nat × PtxInstruction} (hbb : f.basicBlocks[b]? = some bb)
    (hx : (f.flow.insts b)[i]? = some x) :
    ∃ first last, f.blockRange bb = some (first, last) ∧ first ≤ x.1 ∧ x.1 ≤ last := by
  rw [flow_insts hbb] at hx
  have hmem := List.mem_of_getElem? hx
  obtain ⟨⟨first, last⟩, hrange⟩ := Option.isSome_iff_exists.mp (blockRange_of_mem hmem)
  exact ⟨first, last, hrange, (blockInsts_places hrange).1 x hmem⟩

theorem inst_lt {j : Nat} {x y : Nat × PtxInstruction} (hbb : f.basicBlocks[b]? = some bb)
    (hx : (f.flow.insts b)[i]? = some x) (hy : (f.flow.insts b)[j]? = some y) (hij : i < j) :
    x.1 < y.1 := by
  obtain ⟨first, last, hrange, -⟩ := inst_places hbb hx
  rw [flow_insts hbb] at hx hy
  obtain ⟨hi, rfl⟩ := List.getElem?_eq_some_iff.mp hx
  obtain ⟨hj, rfl⟩ := List.getElem?_eq_some_iff.mp hy
  exact List.pairwise_iff_getElem.mp (blockInsts_places hrange).2 i j hi hj hij

theorem pcAt_length {first last : Nat} (hbb : f.basicBlocks[b]? = some bb)
    (hrange : f.blockRange bb = some (first, last)) :
    f.pcAt b (f.flow.insts b).length = last := by
  rw [pcAt, List.getElem?_eq_none le_rfl, hbb]
  simp [hrange]

theorem block_of_inst {x : Nat × PtxInstruction} (hx : (f.flow.insts b)[i]? = some x) :
    ∃ bb, f.basicBlocks[b]? = some bb ∧ x ∈ f.blockInsts bb := by
  cases hbb : f.basicBlocks[b]? with
  | none =>
    have hnil : f.flow.insts b = [] := by
      change f.basicBlocks[b]?.elim [] f.blockInsts = []
      rw [hbb]
      rfl
    rw [hnil] at hx
    cases hx
  | some bb =>
    rw [flow_insts hbb] at hx
    exact ⟨bb, rfl, List.mem_of_getElem? hx⟩

theorem marks_of_inst {x : Nat × PtxInstruction} (hx : (f.flow.insts b)[i]? = some x)
    (hr : r ∈ f.instUses x.2 ∨ r ∈ f.instDefs x.2) : f.Marks r x.1 := by
  obtain ⟨bb, hbb, hmem⟩ := block_of_inst hx
  exact .named (List.mem_of_getElem? hbb) hmem hr

/-! ### Soundness -/

/-- The interval of an unpinned register has every point where it is live. -/
theorem Covered.spans (h : f.Covered m) (hbb : f.basicBlocks[b]? = some bb)
    (hrange : (f.blockRange bb).isSome) (hlive : m.Live f.flow b i r)
    (hpin : r ∉ f.scan.linearReadBeforeDef) : Spans f.intervals r (f.pcAt b i) := by
  obtain ⟨first, last, hfirst, hlast, hlo, hhi⟩ :=
    h b bb i r hbb hrange hlive fun hread => hpin (mem_linearReadBeforeDef hread)
  exact hfirst.spans.between hlast.spans hlo hhi

/-- The interval of a register that is live behind an instruction has the instruction. -/
theorem Covered.spans_behind (h : f.Covered m) (hfits : f.Fits m) {x : Nat × PtxInstruction}
    (hx : (f.flow.insts b)[i]? = some x) (hlive : m.Live f.flow b (i + 1) r)
    (hpin : r ∉ f.scan.linearReadBeforeDef) : Spans f.intervals r x.1 := by
  obtain ⟨bb, hbb, hmem⟩ := block_of_inst hx
  by_cases hkill : r ∈ m.kills x
  · exact (marks_of_inst hx (hfits.writes x r (hfits.kills x hkill))).spans
  · have hspans := h.spans hbb (blockRange_of_mem hmem) (.keep hx hkill hlive) hpin
    rw [pcAt_inst hx] at hspans
    exact hspans

/-- What an instruction may write shares its place with no other live register. -/
theorem Covered.keeps (h : f.Covered m) (hfits : f.Fits m) :
    m.Keeps f.flow (f.runPtxRegisterAllocation true).canonicalizeRegister := by
  intro b i x r s hx hwrite hlive hplace
  by_contra hne
  obtain ⟨⟨-, hpin⟩, hapart⟩ := aliased_apart hne hplace
  exact hapart x.1 (marks_of_inst hx (hfits.writes x s hwrite)).spans
    (h.spans_behind hfits hx hlive hpin)

/-- The intervals cover the liveness of the registers when every instruction reads what
`collect_inst_liveness_regs` calls its uses and always overwrites its definitions. -/
theorem covered_of_exact
    (hreads : ∀ bb ∈ f.basicBlocks, ∀ x ∈ f.blockInsts bb, ∀ r ∈ m.reads x,
      r ∈ f.instUses x.2)
    (hkills : ∀ bb ∈ f.basicBlocks, ∀ x ∈ f.blockInsts bb, ∀ r ∈ f.instDefs x.2,
      r ∈ m.kills x) : f.Covered m := by
  intro b bb i r hbb hrange hlive _
  have hin : ∀ b, ∀ x ∈ f.flow.insts b, ∃ bb ∈ f.basicBlocks, x ∈ f.blockInsts bb := by
    intro b x hx
    obtain ⟨i, hi⟩ := List.getElem?_of_mem hx
    obtain ⟨bb, hbb, hmem⟩ := block_of_inst hi
    exact ⟨bb, List.mem_of_getElem? hbb, hmem⟩
  have hcode : f.CodeLive b i r := hlive.mono
    (fun b x hx r hr =>
      have ⟨bb, hbb, hmem⟩ := hin b x hx
      hreads bb hbb x hmem r hr)
    (fun b x hx r hr =>
      have ⟨bb, hbb, hmem⟩ := hin b x hx
      hkills bb hbb x hmem r hr)
  obtain ⟨⟨first, last⟩, hrange⟩ := Option.isSome_iff_exists.mp hrange
  rcases Nat.lt_or_ge i (f.flow.insts b).length with hlt | hge
  · have hx := List.getElem?_eq_getElem hlt
    have hplaces := inst_places hbb hx
    rw [hrange] at hplaces
    obtain ⟨first', last', heq, hfirst, hlast⟩ := hplaces
    cases heq
    rw [pcAt_inst hx]
    have hlower : ∃ lo, f.Marks r lo ∧ lo ≤ ((f.flow.insts b)[i]).1 := by
      rcases hcode.killed_or_enter hlt.le with ⟨j, y, hj, hy, hdef⟩ | henter
      · exact ⟨y.1, marks_of_inst hy (.inr hdef), (inst_lt hbb hy hx hj).le⟩
      · exact ⟨first, .liveIn hbb hrange henter, hfirst⟩
    have hupper : ∃ hi, f.Marks r hi ∧ ((f.flow.insts b)[i]).1 ≤ hi := by
      rcases hcode.read_or_leave with ⟨j, y, hj, hy, huse⟩ | hleave
      · refine ⟨y.1, marks_of_inst hy (.inl huse), ?_⟩
        rcases hj.eq_or_lt with rfl | hj
        · rw [hx] at hy
          cases hy
          exact le_rfl
        · exact (inst_lt hbb hx hy hj).le
      · rw [flow_insts hbb] at hleave
        exact ⟨last, .liveOut hbb hrange hleave, hlast⟩
    obtain ⟨lo, hlo, hlole⟩ := hlower
    obtain ⟨hi, hhi, hhile⟩ := hupper
    exact ⟨lo, hi, hlo, hhi, hlole, hhile⟩
  · have hi : i = (f.flow.insts b).length := le_antisymm hcode.le_length hge
    rw [hi] at hcode ⊢
    rw [pcAt_length hbb hrange]
    rw [flow_insts hbb] at hcode
    exact ⟨last, last, .liveOut hbb hrange hcode, .liveOut hbb hrange hcode, le_rfl, le_rfl⟩

/-! ### An interpretation -/

/-- Instructions write constants, `value pc` at `pc`, unless their predicate is 0. -/
def constants (f : FunctionInfo) (value : Nat → Nat) :
    Semantics (Nat × PtxInstruction) Nat Nat Unit where
  reads x := f.instUses x.2
  writes x := {r | r ∈ f.instDefs x.2}
  kills x := {r | x.2.pred = none ∧ r ∈ f.instDefs x.2}
  effect _ x e σ :=
    let holds := x.2.pred.all fun p =>
      !(f.instUses x.2).contains (f.canonicalizeCompilerRegisterView p) ||
        σ (f.canonicalizeCompilerRegisterView p) != 0
    (e, if holds then (f.instDefs x.2).map fun r => (r, value x.1) else [])
  effect_reads n x e σ τ h := by
    cases hpred : x.2.pred with
    | none => rfl
    | some p =>
      by_cases hmem : f.canonicalizeCompilerRegisterView p ∈ f.instUses x.2
      · simp [h _ hmem]
      · simp [hmem]
  effect_writes n x e σ w hw := by
    dsimp only at hw
    split at hw
    · obtain ⟨r, hr, rfl⟩ := List.mem_map.mp hw
      exact hr
    · cases hw
  effect_kills n x e σ r hr := by
    obtain ⟨hpred, hr⟩ := hr
    rw [hpred]
    exact ⟨(r, value x.1), List.mem_map_of_mem hr, rfl⟩

theorem constants_fits (f : FunctionInfo) (value : Nat → Nat) : f.Fits (f.constants value) :=
  ⟨fun _ _ h => .inl h, fun _ _ h => .inr h, fun _ _ h => h.2⟩

/-- The registers `%r1` and `%r2`, the predicates `%p1` and `%p2`, a label and a variable
in shared memory. -/
def loopSymbols : Nat → Symbol
  | 1 => { name := "%r1" }
  | 2 => { name := "%r2" }
  | 3 => { name := "%p1", type := some { scalarType := 1 }, sizeInBytes := 1 }
  | 4 => { name := "%p2", type := some { scalarType := 1 }, sizeInBytes := 1 }
  | 5 => { name := "$L1", type := none }
  | _ => { name := "buffer", type := some { isReg := false } }

def registerOperand (r : Nat) : OperandInfo := { symbolic := some r }

def literalOperand : OperandInfo := { type := .int }

/-- The loop sets `%r1`, under the predicate `guard` if there is one, stores it, and then
uses `%r2` in the same way. -/
def loopInstructions (guard : Option Nat) : List PtxInstruction :=
  [{ opcode := some .setpOp, operands := [registerOperand 3, literalOperand, literalOperand] },
   { opcode := some .setpOp, operands := [registerOperand 4, literalOperand, literalOperand] },
   { opcode := some .movOp, operands := [registerOperand 1, literalOperand] },
   { opcode := none, label := some 5 },
   { opcode := some .movOp, pred := guard, operands := [registerOperand 1, literalOperand] },
   { opcode := some .stOp
     operands := [{ type := .memory, symbolic := some 6 }, registerOperand 1] },
   { opcode := some .movOp, operands := [registerOperand 2, literalOperand] },
   { opcode := some .stOp
     operands := [{ type := .memory, symbolic := some 6 }, registerOperand 2] },
   { opcode := some .braOp, pred := some 4
     operands := [{ type := .label, symbolic := some 5 }] },
   { opcode := some .exitOp }]

/-- The loop with the blocks that `create_basic_blocks` and `connect_basic_blocks` give
it. -/
def loopFunction (guard : Option Nat) : FunctionInfo :=
  let f : FunctionInfo := { symbols := loopSymbols, instructions := loopInstructions guard }
  f.createBasicBlocks.connectBasicBlocks.getD f

/-- `%p1` is false and `%p2` true; `%r1` starts with 7 and `%r2` is set to 3. -/
def loopValue (pc : Nat) : Nat :=
  if pc = 0 then 0 else if pc = 8 then 1 else if pc = 16 then 7 else if pc = 24 then 2 else 3

theorem loopFunction_connected (guard : Option Nat) (h : guard = none ∨ guard = some 3) :
    FunctionInfo.connectBasicBlocks (createBasicBlocks
      { symbols := loopSymbols, instructions := loopInstructions guard }) =
      some (loopFunction guard) := by
  have hsome : (FunctionInfo.connectBasicBlocks (createBasicBlocks
      { symbols := loopSymbols, instructions := loopInstructions guard })).isSome := by
    rcases h with rfl | rfl <;> decide +kernel
  obtain ⟨g, hg⟩ := Option.isSome_iff_exists.mp hsome
  rw [loopFunction, hg]
  rfl

/-- Sharing registers is sound when the linear intervals cover the liveness of the
registers. -/
theorem register_allocation_sound (hfits : f.Fits m) (hcovered : f.Covered m) :
    f.SoundlyAllocated m := by
  refine ⟨fun r s hne hplace b bb i hbb hrange hlive => ?_, fun xs hwalk n e uninit => ?_⟩
  · obtain ⟨⟨hr, hs⟩, hapart⟩ := aliased_apart hne hplace
    exact hapart _ (hcovered.spans hbb hrange hlive.1 hr) (hcovered.spans hbb hrange hlive.2 hs)
  · exact (hcovered.keeps hfits).readTrace_eq hwalk fun _ _ => rfl

theorem register_allocation_sound_witness :
    ((loopFunction none).runPtxRegisterAllocation true).canonicalizeRegister 2 = 1 ∧
    (loopFunction none).SoundlyAllocated ((loopFunction none).constants loopValue) := by
  have hkills : ∀ bb ∈ (loopFunction none).basicBlocks, ∀ x ∈ (loopFunction none).blockInsts bb,
      ∀ r ∈ (loopFunction none).instDefs x.2, x.2.pred = none := by
    decide +kernel
  refine ⟨by decide +kernel, register_allocation_sound (constants_fits _ _) ?_⟩
  exact covered_of_exact (fun _ _ _ _ _ hr => hr)
    fun bb hbb x hx r hr => ⟨hkills bb hbb x hx r hr, hr⟩

/-- A walk through the instructions `xs` of block `b` from point `i` on. -/
theorem walk_insts {xs ys : List (Nat × PtxInstruction)}
    (hxs : (f.flow.insts b).drop i = xs ++ ys) {zs : List (Nat × PtxInstruction)}
    (h : Walk f.flow b (i + xs.length) zs) : Walk f.flow b i (xs ++ zs) := by
  induction xs generalizing i with
  | nil => exact h
  | cons x xs ih =>
    have hx : (f.flow.insts b)[i]? = some x := by
      rw [← List.head?_drop, hxs]
      rfl
    refine .inst hx (ih ?_ ?_)
    · rw [← List.drop_drop, hxs]
      rfl
    · rw [List.length_cons, Nat.add_comm xs.length 1, ← Nat.add_assoc] at h
      exact h

/-- A whole block and then the walk from one of its successors. -/
theorem walk_block {c : Nat} {zs : List (Nat × PtxInstruction)}
    (hc : c ∈ f.successorsOfBlock b) (h : Walk f.flow c 0 zs) :
    Walk f.flow b 0 (f.flow.insts b ++ zs) := by
  refine @walk_insts _ _ _ _ [] (by simp) _ ?_
  rw [Nat.zero_add]
  exact .edge hc h

/-- The predicated move keeps the old value of `%r1`, which is live around the loop, but
the move counts as a definition. The interval of `%r1` ends with the store and `%r2` gets
its place: the second round stores the value of `%r2`. -/
theorem register_allocation_sound_counterexample :
    FunctionInfo.connectBasicBlocks (createBasicBlocks
      { symbols := loopSymbols, instructions := loopInstructions (some 3) }) =
      some (loopFunction (some 3)) ∧
    (loopFunction (some 3)).Fits ((loopFunction (some 3)).constants loopValue) ∧
    (∃ r s b i, r ≠ s ∧
      ((loopFunction (some 3)).runPtxRegisterAllocation true).canonicalizeRegister r =
        ((loopFunction (some 3)).runPtxRegisterAllocation true).canonicalizeRegister s ∧
      ((loopFunction (some 3)).constants loopValue).Live (loopFunction (some 3)).flow b i r ∧
      ((loopFunction (some 3)).constants loopValue).Live (loopFunction (some 3)).flow b i s) ∧
    ∃ xs, Walk (loopFunction (some 3)).flow 0 0 xs ∧
      ((loopFunction (some 3)).constants loopValue).readTrace
        ((loopFunction (some 3)).runPtxRegisterAllocation true).canonicalizeRegister 0 ()
          (fun _ => 0) xs ≠
        ((loopFunction (some 3)).constants loopValue).readTrace id 0 () (fun _ => 0) xs := by
  refine ⟨loopFunction_connected _ (.inr rfl), constants_fits _ _,
    ⟨1, 2, 1, 3, by decide, by decide +kernel, ?_, ?_⟩, ?_⟩
  · -- around the loop to the store of `%r1`
    have hkeep : ∀ x ∈ (loopFunction (some 3)).flow.insts 1,
        ¬ (x.2.pred = none ∧ 1 ∈ (loopFunction (some 3)).instDefs x.2) := by
      decide +kernel
    have hread : (((loopFunction (some 3)).flow.insts 1)[1]?.any fun x =>
        decide (1 ∈ (loopFunction (some 3)).instUses x.2)) = true := by decide +kernel
    obtain ⟨x, hx, hr⟩ := (Option.any_eq_true _ _).mp hread
    have hstart : ((loopFunction (some 3)).constants loopValue).Live
        (loopFunction (some 3)).flow 1 0 1 :=
      (LiveAt.read hx (of_decide_eq_true hr)).back hkeep (Nat.zero_le 1)
    have hedge : 1 ∈ (loopFunction (some 3)).successorsOfBlock 1 := by decide +kernel
    have hlen : 3 ≤ ((loopFunction (some 3)).flow.insts 1).length := by decide +kernel
    exact (LiveAt.edge hedge hstart).back hkeep hlen
  · have hread : (((loopFunction (some 3)).flow.insts 1)[3]?.any fun x =>
        decide (2 ∈ (loopFunction (some 3)).instUses x.2)) = true := by decide +kernel
    obtain ⟨x, hx, hr⟩ := (Option.any_eq_true _ _).mp hread
    exact .read hx (of_decide_eq_true hr)
  · refine ⟨(loopFunction (some 3)).flow.insts 0 ++ ((loopFunction (some 3)).flow.insts 1 ++
      ((loopFunction (some 3)).flow.insts 1 ++ [])), ?_, by decide +kernel⟩
    exact walk_block (c := 1) (by decide +kernel) (walk_block (c := 1) (by decide +kernel)
      (walk_block (c := 1) (by decide +kernel) (.stop 1 0)))

end FunctionInfo

end FlashGpuSim
