import FlashGpuSim.Ptx.RegAllocLiveness

/-!
The live interval of a register reaches from the first to the last of its marks, and the
aliases of the allocator are registers whose intervals do not meet.
-/

namespace FlashGpuSim

open Lib

/-- The interval of `sym` has `pc`. -/
def Spans (intervals : Table LiveInterval) (sym pc : Nat) : Prop :=
  ∃ iv, intervals.lookup sym = some iv ∧ iv.start ≤ pc ∧ pc ≤ iv.stop

/-- Every interval ends behind its start. -/
def WellFormed (intervals : Table LiveInterval) : Prop :=
  ∀ sym iv, intervals.lookup sym = some iv → iv.start ≤ iv.stop

theorem Spans.between {intervals : Table LiveInterval} {r first last pc : Nat}
    (hfirst : Spans intervals r first) (hlast : Spans intervals r last) (hlo : first ≤ pc)
    (hhi : pc ≤ last) : Spans intervals r pc := by
  obtain ⟨iv, hiv, hstart, -⟩ := hfirst
  obtain ⟨iv', hiv', -, hstop⟩ := hlast
  rw [hiv] at hiv'
  cases hiv'
  exact ⟨iv, hiv, hstart.trans hlo, hhi.trans hstop⟩

namespace FunctionInfo

variable {f : FunctionInfo} {intervals intervals' : Table LiveInterval} {sym pc : Nat}

/-- What recording does to the intervals: none shrinks and none is turned around. -/
structure Recorded (before after : Table LiveInterval) : Prop where
  spans : ∀ sym pc, Spans before sym pc → Spans after sym pc
  wellFormed : WellFormed before → WellFormed after

theorem Recorded.refl : Recorded intervals intervals := ⟨fun _ _ h => h, id⟩

theorem Recorded.trans {t : Table LiveInterval} (h : Recorded intervals intervals')
    (h' : Recorded intervals' t) : Recorded intervals t :=
  ⟨fun sym pc hs => h'.spans sym pc (h.spans sym pc hs), fun hw => h'.wellFormed (h.wellFormed hw)⟩

theorem spans_recordInterval : Spans (f.recordInterval pc intervals sym) sym pc := by
  unfold recordInterval
  split
  · exact ⟨_, AList.lookup_insert _, le_rfl, le_rfl⟩
  · exact ⟨_, AList.lookup_insert _, min_le_right .., le_max_right ..⟩

theorem recorded_recordInterval : Recorded intervals (f.recordInterval pc intervals sym) := by
  unfold recordInterval
  split
  · rename_i hnone
    constructor
    · rintro s q ⟨iv, hiv, hs⟩
      refine ⟨iv, ?_, hs⟩
      rw [Table.lookup_insert, if_neg]
      · exact hiv
      · rintro rfl
        rw [hnone] at hiv
        cases hiv
    · intro hw s iv hiv
      rw [Table.lookup_insert] at hiv
      split at hiv
      · cases hiv
        exact le_rfl
      · exact hw s iv hiv
  · rename_i range hrange
    constructor
    · rintro s q ⟨iv, hiv, hlo, hhi⟩
      by_cases hs : s = sym
      · subst hs
        rw [hrange] at hiv
        cases hiv
        exact ⟨_, AList.lookup_insert _, (min_le_left ..).trans hlo, hhi.trans (le_max_left ..)⟩
      · refine ⟨iv, ?_, hlo, hhi⟩
        rw [Table.lookup_insert, if_neg hs]
        exact hiv
    · intro hw s iv hiv
      rw [Table.lookup_insert] at hiv
      split at hiv
      · cases hiv
        have := hw sym range hrange
        exact (min_le_left ..).trans (this.trans (le_max_left ..))
      · exact hw s iv hiv

theorem recorded_foldl (pc : Nat) (regs : List Nat) (intervals : Table LiveInterval) :
    Recorded intervals (regs.foldl (f.recordInterval pc) intervals) ∧
    ∀ r ∈ regs, Spans (regs.foldl (f.recordInterval pc) intervals) r pc := by
  induction regs generalizing intervals with
  | nil => exact ⟨.refl, fun r hr => by cases hr⟩
  | cons x xs ih =>
    obtain ⟨hrecorded, hspans⟩ := ih (f.recordInterval pc intervals x)
    refine ⟨recorded_recordInterval.trans hrecorded, fun r hr => ?_⟩
    rcases List.mem_cons.mp hr with rfl | hr
    · exact hrecorded.spans _ _ spans_recordInterval
    · exact hspans r hr

/-! ### The marks of a register -/

theorem foldl_use_intervals (pc : Nat) (regs : List Nat) (s : LiveScan) :
    (regs.foldl (fun s sym => LiveScan.use f s pc sym) s).intervals =
      regs.foldl (f.recordInterval pc) s.intervals := by
  induction regs generalizing s with
  | nil => rfl
  | cons x xs ih => exact ih (LiveScan.use f s pc x)

theorem foldl_define_intervals (pc : Nat) (regs : List Nat) (s : LiveScan) :
    (regs.foldl (fun s sym => LiveScan.define f s pc sym) s).intervals =
      regs.foldl (f.recordInterval pc) s.intervals := by
  induction regs generalizing s with
  | nil => rfl
  | cons x xs ih => exact ih (LiveScan.define f s pc x)

theorem scanInst_intervals (s : LiveScan) (x : Nat × PtxInstruction) :
    Recorded s.intervals (f.scanInst s x).intervals ∧
    ∀ r, r ∈ f.instUses x.2 ∨ r ∈ f.instDefs x.2 → Spans (f.scanInst s x).intervals r x.1 := by
  unfold scanInst
  rw [foldl_define_intervals, foldl_use_intervals]
  obtain ⟨huse, huses⟩ := recorded_foldl (f := f) x.1 (f.instUses x.2) s.intervals
  obtain ⟨hdef, hdefs⟩ := recorded_foldl (f := f) x.1 (f.instDefs x.2)
    ((f.instUses x.2).foldl (f.recordInterval x.1) s.intervals)
  refine ⟨huse.trans hdef, fun r hr => ?_⟩
  rcases hr with hr | hr
  · exact hdef.spans r _ (huses r hr)
  · exact hdefs r hr

theorem scanInsts_intervals (xs : List (Nat × PtxInstruction)) (s : LiveScan) :
    Recorded s.intervals (xs.foldl f.scanInst s).intervals ∧
    ∀ x ∈ xs, ∀ r, r ∈ f.instUses x.2 ∨ r ∈ f.instDefs x.2 →
      Spans (xs.foldl f.scanInst s).intervals r x.1 := by
  induction xs generalizing s with
  | nil => exact ⟨.refl, fun x hx => by cases hx⟩
  | cons x xs ih =>
    obtain ⟨hone, hx⟩ := scanInst_intervals (f := f) s x
    obtain ⟨hrest, hxs⟩ := ih (f.scanInst s x)
    refine ⟨hone.trans hrest, fun y hy r hr => ?_⟩
    rcases List.mem_cons.mp hy with rfl | hy
    · exact hrest.spans _ _ (hx r hr)
    · exact hxs y hy r hr

theorem scanBlocks_intervals (bbs : List BasicBlock) (s : LiveScan) :
    Recorded s.intervals (bbs.foldl f.scanBlock s).intervals ∧
    ∀ bb ∈ bbs, ∀ x ∈ f.blockInsts bb, ∀ r, r ∈ f.instUses x.2 ∨ r ∈ f.instDefs x.2 →
      Spans (bbs.foldl f.scanBlock s).intervals r x.1 := by
  induction bbs generalizing s with
  | nil => exact ⟨.refl, fun bb hbb => by cases hbb⟩
  | cons bb bbs ih =>
    obtain ⟨hone, hbb⟩ := scanInsts_intervals (f := f) (f.blockInsts bb) { s with bb := {} }
    obtain ⟨hrest, hbbs⟩ := ih (f.scanBlock s bb)
    refine ⟨hone.trans hrest, fun bb' hbb' x hx r hr => ?_⟩
    rcases List.mem_cons.mp hbb' with rfl | hbb'
    · exact hrest.spans _ _ (hbb x hx r hr)
    · exact hbbs bb' hbb' x hx r hr

theorem extendBlock_intervals (first last : Nat) (live : BbLiveInfo) (bb : BasicBlock)
    (intervals : Table LiveInterval) :
    Recorded intervals (f.extendBlock live bb intervals) ∧
    (f.blockRange bb = some (first, last) →
      (∀ r ∈ live.liveIn, Spans (f.extendBlock live bb intervals) r first) ∧
      ∀ r ∈ live.liveOut, Spans (f.extendBlock live bb intervals) r last) := by
  unfold extendBlock blockRange
  cases hbegin : bb.ptxBegin with
  | none =>
    refine ⟨.refl, fun h => ?_⟩
    split at h <;> cases h
  | some b =>
    dsimp only
    obtain ⟨hin, hins⟩ := recorded_foldl (f := f) (f.instrMemIndex b) live.liveIn intervals
    obtain ⟨hout, houts⟩ := recorded_foldl (f := f)
      (bb.ptxEnd.elim (f.instrMemIndex b) f.instrMemIndex) live.liveOut
      (live.liveIn.foldl (f.recordInterval (f.instrMemIndex b)) intervals)
    refine ⟨hin.trans hout, fun h => ?_⟩
    cases hend : bb.ptxEnd with
    | none =>
      rw [hend] at h
      split at h <;> cases h
    | some e =>
      rw [hend] at h hout houts
      split at h
      · cases h
      · cases h
        exact ⟨fun r hr => hout.spans r _ (hins r hr), houts⟩

theorem extendBlocks_intervals (pairs : List (BbLiveInfo × BasicBlock))
    (intervals : Table LiveInterval) :
    Recorded intervals
      (pairs.foldl (fun intervals (live, bb) => f.extendBlock live bb intervals) intervals) ∧
    ∀ p ∈ pairs, ∀ first last, f.blockRange p.2 = some (first, last) →
      (∀ r ∈ p.1.liveIn, Spans (pairs.foldl
        (fun intervals (live, bb) => f.extendBlock live bb intervals) intervals) r first) ∧
      ∀ r ∈ p.1.liveOut, Spans (pairs.foldl
        (fun intervals (live, bb) => f.extendBlock live bb intervals) intervals) r last := by
  induction pairs generalizing intervals with
  | nil => exact ⟨.refl, fun p hp => by cases hp⟩
  | cons p ps ih =>
    obtain ⟨hrest, hps⟩ := ih (f.extendBlock p.1 p.2 intervals)
    refine ⟨(extendBlock_intervals 0 0 p.1 p.2 intervals).1.trans hrest,
      fun q hq first last hrange => ?_⟩
    rcases List.mem_cons.mp hq with rfl | hq
    · obtain ⟨hin, hout⟩ := (extendBlock_intervals first last q.1 q.2 intervals).2 hrange
      exact ⟨fun r hr => hrest.spans _ _ (hin r hr), fun r hr => hrest.spans _ _ (hout r hr)⟩
    · exact hps q hq first last hrange

/-- The places of `m_instr_mem` that the allocator ties a register to: instructions that
name it, the starts of blocks it is live into and the ends of blocks it is live out of,
taking uses and definitions as `collect_inst_liveness_regs` has them. -/
inductive Marks (f : FunctionInfo) (r : Nat) : Nat → Prop
  | named {bb : BasicBlock} {x : Nat × PtxInstruction} (hbb : bb ∈ f.basicBlocks)
      (hx : x ∈ f.blockInsts bb) (hr : r ∈ f.instUses x.2 ∨ r ∈ f.instDefs x.2) : Marks f r x.1
  | liveIn {b : Nat} {bb : BasicBlock} {first last : Nat} (hbb : f.basicBlocks[b]? = some bb)
      (hrange : f.blockRange bb = some (first, last)) (h : f.CodeLive b 0 r) : Marks f r first
  | liveOut {b : Nat} {bb : BasicBlock} {first last : Nat} (hbb : f.basicBlocks[b]? = some bb)
      (hrange : f.blockRange bb = some (first, last))
      (h : f.CodeLive b (f.blockInsts bb).length r) : Marks f r last

theorem mem_zip_bbLive {b : Nat} {bb : BasicBlock} (hbb : f.basicBlocks[b]? = some bb) :
    (infoAt f.bbLive b, bb) ∈ f.bbLive.zip f.basicBlocks := by
  obtain ⟨hlt, -⟩ := List.getElem?_eq_some_iff.mp hbb
  have hlive : f.bbLive[b]? = some (infoAt f.bbLive b) := by
    rw [infoAt, List.getElem?_eq_getElem (bbLive_solution.1 ▸ hlt)]
    rfl
  exact List.mem_of_getElem? (List.getElem?_zip_eq_some.mpr ⟨hlive, hbb⟩)

theorem Marks.spans {r pc : Nat} (h : f.Marks r pc) : Spans f.intervals r pc := by
  obtain ⟨hextend, hpairs⟩ := extendBlocks_intervals (f := f) (f.bbLive.zip f.basicBlocks)
    f.scan.intervals
  cases h with
  | named hbb hx hr =>
    exact hextend.spans _ _ ((scanBlocks_intervals (f := f) f.basicBlocks {}).2 _ hbb _ hx _ hr)
  | liveIn hbb hrange hlive =>
    exact (hpairs _ (mem_zip_bbLive hbb) _ _ hrange).1 _ (hlive.liveIn hbb)
  | liveOut hbb hrange hlive =>
    exact (hpairs _ (mem_zip_bbLive hbb) _ _ hrange).2 _ (CodeLive.liveOut hbb hlive)

theorem wellFormed_intervals : WellFormed f.intervals := by
  have hscan := (scanBlocks_intervals (f := f) f.basicBlocks {}).1.wellFormed
    fun sym iv h => by cases h
  exact (extendBlocks_intervals (f := f) (f.bbLive.zip f.basicBlocks) f.scan.intervals).1.wellFormed
    hscan

end FunctionInfo

end FlashGpuSim
