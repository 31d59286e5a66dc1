import FlashGpuSim.Lib.Liveness
import FlashGpuSim.Ptx.RegAlloc
import Mathlib.Algebra.BigOperators.Group.Finset.Basic
import Mathlib.Algebra.Order.BigOperators.Group.Finset
import Mathlib.Data.List.Perm.Subperm
import Mathlib.Tactic.Ring

/-!
What the block summaries and the backward passes of the register allocator compute. The
loop ends with a solution of the liveness equations, so its sets have every register that
is live into or out of a block when each instruction reads its uses and overwrites its
definitions.
-/

namespace FlashGpuSim

open Lib

namespace RegSymbolSet

variable {s t : RegSymbolSet} {r : Nat}

theorem mem_insertAll : r ∈ insertAll s t ↔ r ∈ s ∨ r ∈ t := by
  unfold insertAll
  induction t generalizing s with
  | nil => simp
  | cons x xs ih =>
    rw [List.foldl_cons, ih, List.mem_insert_iff, List.mem_cons]
    tauto

theorem nodup_insertAll (hs : s.Nodup) : (insertAll s t).Nodup := by
  unfold insertAll
  induction t generalizing s with
  | nil => exact hs
  | cons x xs ih => exact ih hs.insert

theorem mem_without : r ∈ without s t ↔ r ∈ s ∧ r ∉ t := by
  simp [without]

theorem same_iff : same s t = true ↔ ∀ r, r ∈ s ↔ r ∈ t := by
  simp only [same, Bool.and_eq_true, List.all_eq_true, List.contains_iff_mem]
  exact ⟨fun h r => ⟨h.1 r, h.2 r⟩, fun h => ⟨fun r => (h r).mp, fun r => (h r).mpr⟩⟩

/-- A set that gained a register is longer. -/
theorem length_lt_of_gained (hs : s.Nodup) (hsub : s ⊆ t) (hsame : same t s = false) :
    s.length < t.length := by
  rcases Nat.lt_or_ge s.length t.length with hlt | hge
  · exact hlt
  · have hperm := (hs.subperm hsub).perm_of_length_le hge
    have hall : same t s = true := same_iff.mpr fun r => hperm.mem_iff.symm
    rw [hall] at hsame
    cases hsame

end RegSymbolSet

namespace FunctionInfo

variable {f : FunctionInfo} {b i r : Nat}

/-- The control flow the allocator sees. -/
def flow (f : FunctionInfo) : FlowGraph (Nat × PtxInstruction) where
  insts b := f.basicBlocks[b]?.elim [] f.blockInsts
  succ b c := c ∈ f.successorsOfBlock b

/-- Liveness when every instruction reads its uses and overwrites its definitions. -/
abbrev CodeLive (f : FunctionInfo) : Nat → Nat → Nat → Prop :=
  LiveAt f.flow (fun x => {r | r ∈ f.instUses x.2}) (fun x => {r | r ∈ f.instDefs x.2})

/-- Some instruction of the list defines the register. -/
def Defines (f : FunctionInfo) (insts : List (Nat × PtxInstruction)) (r : Nat) : Prop :=
  ∃ x ∈ insts, r ∈ f.instDefs x.2

/-- Some instruction of the list uses or defines the register. -/
def Names (f : FunctionInfo) (insts : List (Nat × PtxInstruction)) (r : Nat) : Prop :=
  ∃ x ∈ insts, r ∈ f.instUses x.2 ∨ r ∈ f.instDefs x.2

/-- An instruction of the list uses the register before one defines it. -/
def ReadFirst (f : FunctionInfo) (insts : List (Nat × PtxInstruction)) (r : Nat) : Prop :=
  ∃ before x after, insts = before ++ x :: after ∧ r ∈ f.instUses x.2 ∧ ¬ f.Defines before r

variable {s : LiveScan} {x : Nat × PtxInstruction} {xs ys : List (Nat × PtxInstruction)}

theorem defines_nil : ¬ f.Defines [] r := by simp [Defines]

theorem defines_cons : f.Defines (x :: xs) r ↔ r ∈ f.instDefs x.2 ∨ f.Defines xs r :=
  List.exists_mem_cons_iff ..

theorem defines_append : f.Defines (xs ++ ys) r ↔ f.Defines xs r ∨ f.Defines ys r := by
  simp [Defines, or_and_right, exists_or]

theorem names_nil : ¬ f.Names [] r := by simp [Names]

theorem names_cons :
    f.Names (x :: xs) r ↔ (r ∈ f.instUses x.2 ∨ r ∈ f.instDefs x.2) ∨ f.Names xs r :=
  List.exists_mem_cons_iff ..

theorem names_append : f.Names (xs ++ ys) r ↔ f.Names xs r ∨ f.Names ys r := by
  simp only [Names, List.mem_append, or_and_right, exists_or]

theorem readFirst_nil : ¬ f.ReadFirst [] r := by simp [ReadFirst]

theorem readFirst_cons :
    f.ReadFirst (x :: xs) r ↔
      r ∈ f.instUses x.2 ∨ r ∉ f.instDefs x.2 ∧ f.ReadFirst xs r := by
  constructor
  · rintro ⟨before, y, after, heq, huse, hbefore⟩
    cases before with
    | nil =>
      cases heq
      exact .inl huse
    | cons z before =>
      cases heq
      rw [defines_cons, not_or] at hbefore
      exact .inr ⟨hbefore.1, before, y, after, rfl, huse, hbefore.2⟩
  · rintro (huse | ⟨hdef, before, y, after, rfl, huse, hbefore⟩)
    · exact ⟨[], x, xs, rfl, huse, defines_nil⟩
    · refine ⟨x :: before, y, after, rfl, huse, ?_⟩
      rw [defines_cons, not_or]
      exact ⟨hdef, hbefore⟩

theorem readFirst_append :
    f.ReadFirst (xs ++ ys) r ↔
      f.ReadFirst xs r ∨ ¬ f.Defines xs r ∧ f.ReadFirst ys r := by
  induction xs with
  | nil => simp [readFirst_nil, defines_nil]
  | cons x xs ih =>
    rw [List.cons_append, readFirst_cons, readFirst_cons, defines_cons, ih]
    tauto

/-! ### The block summaries -/

theorem foldl_use (pc : Nat) (regs : List Nat) (s : LiveScan) :
    (regs.foldl (fun s sym => LiveScan.use f s pc sym) s).bb = regs.foldl BbLiveInfo.addUse s.bb ∧
    (regs.foldl (fun s sym => LiveScan.use f s pc sym) s).bbLive = s.bbLive ∧
    (regs.foldl (fun s sym => LiveScan.use f s pc sym) s).linearDefined = s.linearDefined ∧
    (∀ r, r ∈ (regs.foldl (fun s sym => LiveScan.use f s pc sym) s).allRegs ↔
      r ∈ s.allRegs ∨ r ∈ regs) ∧
    (∀ r, r ∈ s.linearReadBeforeDef ∨ r ∈ regs ∧ r ∉ s.linearDefined →
      r ∈ (regs.foldl (fun s sym => LiveScan.use f s pc sym) s).linearReadBeforeDef) := by
  induction regs generalizing s with
  | nil => simp
  | cons x xs ih =>
    obtain ⟨hbb, hlive, hdefined, hregs, hread⟩ := ih (LiveScan.use f s pc x)
    refine ⟨hbb, hlive, hdefined, fun r => ?_, fun r hr => hread r ?_⟩
    · rw [List.foldl_cons, hregs]
      simp only [LiveScan.use, List.mem_insert_iff, List.mem_cons]
      tauto
    · simp only [LiveScan.use, List.contains_eq_mem, decide_eq_true_eq]
      split
      · rename_i hx
        rcases hr with hr | ⟨hr, hnot⟩
        · exact .inl hr
        · rcases List.mem_cons.mp hr with rfl | hr
          · exact absurd hx hnot
          · exact .inr ⟨hr, hnot⟩
      · rw [List.mem_insert_iff]
        rcases hr with hr | ⟨hr, hnot⟩
        · exact .inl (.inr hr)
        · rcases List.mem_cons.mp hr with rfl | hr
          · exact .inl (.inl rfl)
          · exact .inr ⟨hr, hnot⟩

theorem foldl_define (pc : Nat) (regs : List Nat) (s : LiveScan) :
    (regs.foldl (fun s sym => LiveScan.define f s pc sym) s).bb =
      regs.foldl BbLiveInfo.addDef s.bb ∧
    (regs.foldl (fun s sym => LiveScan.define f s pc sym) s).bbLive = s.bbLive ∧
    (regs.foldl (fun s sym => LiveScan.define f s pc sym) s).linearReadBeforeDef =
      s.linearReadBeforeDef ∧
    (∀ r, r ∈ (regs.foldl (fun s sym => LiveScan.define f s pc sym) s).allRegs ↔
      r ∈ s.allRegs ∨ r ∈ regs) ∧
    (∀ r, r ∈ (regs.foldl (fun s sym => LiveScan.define f s pc sym) s).linearDefined ↔
      r ∈ s.linearDefined ∨ r ∈ regs) := by
  induction regs generalizing s with
  | nil => simp
  | cons x xs ih =>
    obtain ⟨hbb, hlive, hread, hregs, hdefined⟩ := ih (LiveScan.define f s pc x)
    refine ⟨hbb, hlive, hread, fun r => ?_, fun r => ?_⟩
    · rw [List.foldl_cons, hregs]
      simp only [LiveScan.define, List.mem_insert_iff, List.mem_cons]
      tauto
    · rw [List.foldl_cons, hdefined]
      simp only [LiveScan.define, List.mem_insert_iff, List.mem_cons]
      tauto

theorem foldl_addUse (regs : List Nat) (bb : BbLiveInfo) :
    (regs.foldl BbLiveInfo.addUse bb).defs = bb.defs ∧
    (regs.foldl BbLiveInfo.addUse bb).liveIn = bb.liveIn ∧
    (regs.foldl BbLiveInfo.addUse bb).liveOut = bb.liveOut ∧
    (bb.use.Nodup → (regs.foldl BbLiveInfo.addUse bb).use.Nodup) ∧
    (∀ r, r ∈ (regs.foldl BbLiveInfo.addUse bb).use ↔
      r ∈ bb.use ∨ r ∈ regs ∧ r ∉ bb.defs) := by
  induction regs generalizing bb with
  | nil => simp
  | cons x xs ih =>
    obtain ⟨hdefs, hin, hout, hnodup, huse⟩ := ih (bb.addUse x)
    have hnodup' : bb.use.Nodup → (bb.addUse x).use.Nodup := by
      unfold BbLiveInfo.addUse
      split
      · exact id
      · exact List.Nodup.insert
    have hkept : (bb.addUse x).defs = bb.defs ∧ (bb.addUse x).liveIn = bb.liveIn ∧
        (bb.addUse x).liveOut = bb.liveOut := by
      unfold BbLiveInfo.addUse
      split <;> exact ⟨rfl, rfl, rfl⟩
    refine ⟨hdefs.trans hkept.1, hin.trans hkept.2.1, hout.trans hkept.2.2,
      fun h => hnodup (hnodup' h), fun r => ?_⟩
    rw [List.foldl_cons, huse, hkept.1, List.mem_cons]
    unfold BbLiveInfo.addUse
    simp only [List.contains_eq_mem, decide_eq_true_eq]
    split
    · constructor
      · rintro (h | ⟨h, hnot⟩)
        · exact .inl h
        · exact .inr ⟨.inr h, hnot⟩
      · rintro (h | ⟨rfl | h, hnot⟩)
        · exact .inl h
        · contradiction
        · exact .inr ⟨h, hnot⟩
    · rw [List.mem_insert_iff]
      constructor
      · rintro ((rfl | h) | ⟨h, hnot⟩)
        · exact .inr ⟨.inl rfl, by assumption⟩
        · exact .inl h
        · exact .inr ⟨.inr h, hnot⟩
      · rintro (h | ⟨rfl | h, hnot⟩)
        · exact .inl (.inr h)
        · exact .inl (.inl rfl)
        · exact .inr ⟨h, hnot⟩

theorem foldl_addDef (regs : List Nat) (bb : BbLiveInfo) :
    (regs.foldl BbLiveInfo.addDef bb).use = bb.use ∧
    (regs.foldl BbLiveInfo.addDef bb).liveIn = bb.liveIn ∧
    (regs.foldl BbLiveInfo.addDef bb).liveOut = bb.liveOut ∧
    (∀ r, r ∈ (regs.foldl BbLiveInfo.addDef bb).defs ↔ r ∈ bb.defs ∨ r ∈ regs) := by
  induction regs generalizing bb with
  | nil => simp
  | cons x xs ih =>
    obtain ⟨huse, hin, hout, hdefs⟩ := ih (bb.addDef x)
    refine ⟨huse, hin, hout, fun r => ?_⟩
    rw [List.foldl_cons, hdefs]
    simp only [BbLiveInfo.addDef, List.mem_insert_iff, List.mem_cons]
    tauto

/-- What one instruction adds to the sets of the first loop. -/
structure Scanned (f : FunctionInfo) (s s' : LiveScan) (x : Nat × PtxInstruction) : Prop where
  use : ∀ r, r ∈ s'.bb.use ↔ r ∈ s.bb.use ∨ r ∈ f.instUses x.2 ∧ r ∉ s.bb.defs
  defs : ∀ r, r ∈ s'.bb.defs ↔ r ∈ s.bb.defs ∨ r ∈ f.instDefs x.2
  live : s'.bb.liveIn = s.bb.liveIn ∧ s'.bb.liveOut = s.bb.liveOut
  nodup : s.bb.use.Nodup → s'.bb.use.Nodup
  bbLive : s'.bbLive = s.bbLive
  allRegs : ∀ r, r ∈ s'.allRegs ↔ r ∈ s.allRegs ∨ r ∈ f.instUses x.2 ∨ r ∈ f.instDefs x.2
  defined : ∀ r, r ∈ s'.linearDefined ↔ r ∈ s.linearDefined ∨ r ∈ f.instDefs x.2
  readBeforeDef : ∀ r, r ∈ s.linearReadBeforeDef ∨ r ∈ f.instUses x.2 ∧ r ∉ s.linearDefined →
    r ∈ s'.linearReadBeforeDef

theorem scanInst_scanned (s : LiveScan) (x : Nat × PtxInstruction) :
    Scanned f s (f.scanInst s x) x := by
  unfold scanInst
  obtain ⟨hbb, hlive, hdefined, hregs, hread⟩ := foldl_use (f := f) x.1 (f.instUses x.2) s
  obtain ⟨hbb', hlive', hread', hregs', hdefined'⟩ := foldl_define (f := f) x.1 (f.instDefs x.2)
    ((f.instUses x.2).foldl (fun s sym => LiveScan.use f s x.1 sym) s)
  obtain ⟨hdefs, hin, hout, hnodup, huse⟩ := foldl_addUse (f.instUses x.2) s.bb
  obtain ⟨huse', hin', hout', hdefs'⟩ := foldl_addDef (f.instDefs x.2)
    ((f.instUses x.2).foldl BbLiveInfo.addUse s.bb)
  constructor
  · intro r
    rw [hbb', hbb, huse', huse]
  · intro r
    rw [hbb', hbb, hdefs', hdefs]
  · rw [hbb', hbb, hin', hin, hout', hout]
    exact ⟨rfl, rfl⟩
  · rw [hbb', hbb, huse']
    exact hnodup
  · rw [hlive', hlive]
  · intro r
    rw [hregs', hregs]
    tauto
  · intro r
    rw [hdefined', hdefined]
  · intro r hr
    rw [hread']
    exact hread r hr

/-- What the instructions of a block add. -/
structure ScannedAll (f : FunctionInfo) (s s' : LiveScan) (xs : List (Nat × PtxInstruction)) :
    Prop where
  use : ∀ r, r ∈ s'.bb.use ↔ r ∈ s.bb.use ∨ r ∉ s.bb.defs ∧ f.ReadFirst xs r
  defs : ∀ r, r ∈ s'.bb.defs ↔ r ∈ s.bb.defs ∨ f.Defines xs r
  live : s'.bb.liveIn = s.bb.liveIn ∧ s'.bb.liveOut = s.bb.liveOut
  nodup : s.bb.use.Nodup → s'.bb.use.Nodup
  bbLive : s'.bbLive = s.bbLive
  allRegs : ∀ r, r ∈ s'.allRegs ↔
    r ∈ s.allRegs ∨ f.Names xs r
  defined : ∀ r, r ∈ s'.linearDefined ↔ r ∈ s.linearDefined ∨ f.Defines xs r
  readBeforeDef : ∀ r, r ∈ s.linearReadBeforeDef ∨ r ∉ s.linearDefined ∧ f.ReadFirst xs r →
    r ∈ s'.linearReadBeforeDef

theorem scanInsts_scanned (xs : List (Nat × PtxInstruction)) (s : LiveScan) :
    ScannedAll f s (xs.foldl f.scanInst s) xs := by
  induction xs generalizing s with
  | nil => constructor <;> simp [readFirst_nil, defines_nil, names_nil]
  | cons x xs ih =>
    have hone := scanInst_scanned (f := f) s x
    have hrest := ih (f.scanInst s x)
    constructor
    · intro r
      rw [List.foldl_cons, hrest.use, hone.use, hone.defs, readFirst_cons]
      tauto
    · intro r
      rw [List.foldl_cons, hrest.defs, hone.defs, defines_cons, or_assoc]
    · exact ⟨hrest.live.1.trans hone.live.1, hrest.live.2.trans hone.live.2⟩
    · exact fun h => hrest.nodup (hone.nodup h)
    · exact hrest.bbLive.trans hone.bbLive
    · intro r
      rw [List.foldl_cons, hrest.allRegs, hone.allRegs, names_cons, or_assoc]
    · intro r
      rw [List.foldl_cons, hrest.defined, hone.defined, defines_cons, or_assoc]
    · intro r hr
      refine hrest.readBeforeDef r ?_
      rw [hone.defined]
      rw [readFirst_cons] at hr
      rcases hr with hr | ⟨hnot, huse | ⟨hdef, hread⟩⟩
      · exact .inl (hone.readBeforeDef r (.inl hr))
      · exact .inl (hone.readBeforeDef r (.inr ⟨huse, hnot⟩))
      · exact .inr ⟨by tauto, hread⟩

/-- The summary of a block before the backward passes. -/
structure Summary (f : FunctionInfo) (bb : BasicBlock) (info : BbLiveInfo) : Prop where
  use : ∀ r, r ∈ info.use ↔ f.ReadFirst (f.blockInsts bb) r
  defs : ∀ r, r ∈ info.defs ↔ f.Defines (f.blockInsts bb) r
  nodup : info.use.Nodup
  liveIn : info.liveIn = []
  liveOut : info.liveOut = []

/-- What the blocks add. -/
structure ScannedBlocks (f : FunctionInfo) (s s' : LiveScan) (bbs : List BasicBlock) :
    Prop where
  bbLive : ∃ infos, s'.bbLive = s.bbLive ++ infos ∧ List.Forall₂ f.Summary bbs infos
  allRegs : ∀ r, r ∈ s'.allRegs ↔
    r ∈ s.allRegs ∨ f.Names (bbs.flatMap f.blockInsts) r
  defined : ∀ r, r ∈ s'.linearDefined ↔
    r ∈ s.linearDefined ∨ f.Defines (bbs.flatMap f.blockInsts) r
  readBeforeDef : ∀ r, r ∈ s.linearReadBeforeDef ∨
    r ∉ s.linearDefined ∧ f.ReadFirst (bbs.flatMap f.blockInsts) r →
      r ∈ s'.linearReadBeforeDef

theorem scanBlocks_scanned (bbs : List BasicBlock) (s : LiveScan) :
    ScannedBlocks f s (bbs.foldl f.scanBlock s) bbs := by
  induction bbs generalizing s with
  | nil => constructor <;> simp [readFirst_nil, defines_nil, names_nil]
  | cons bb bbs ih =>
    have hone := scanInsts_scanned (f := f) (f.blockInsts bb) { s with bb := {} }
    have hrest := ih (f.scanBlock s bb)
    constructor
    · obtain ⟨infos, hinfos, hsummaries⟩ := hrest.bbLive
      refine ⟨_ :: infos, ?_, .cons ⟨fun r => ?_, fun r => ?_, hone.nodup List.nodup_nil,
        hone.live.1, hone.live.2⟩ hsummaries⟩
      · rw [List.foldl_cons, hinfos, List.append_cons]
        exact congrArg (· ++ _) (congrArg (· ++ _) hone.bbLive)
      · rw [hone.use]
        simp
      · rw [hone.defs]
        simp
    · intro r
      rw [List.foldl_cons, hrest.allRegs, List.flatMap_cons]
      change r ∈ (List.foldl f.scanInst _ _).allRegs ∨ _ ↔ _
      rw [hone.allRegs, names_append, or_assoc]
    · intro r
      rw [List.foldl_cons, hrest.defined, List.flatMap_cons]
      change r ∈ (List.foldl f.scanInst _ _).linearDefined ∨ _ ↔ _
      rw [hone.defined, defines_append, or_assoc]
    · intro r hr
      refine hrest.readBeforeDef r ?_
      change r ∈ (List.foldl f.scanInst _ _).linearReadBeforeDef ∨
        r ∉ (List.foldl f.scanInst _ _).linearDefined ∧ _
      rw [hone.defined]
      rw [List.flatMap_cons, readFirst_append] at hr
      rcases hr with hr | ⟨hnot, hread | ⟨hdef, hread⟩⟩
      · exact .inl (hone.readBeforeDef r (.inl hr))
      · exact .inl (hone.readBeforeDef r (.inr ⟨hnot, hread⟩))
      · exact .inr ⟨by tauto, hread⟩

/-! ### The backward passes -/

def infoAt (live : List BbLiveInfo) (id : Nat) : BbLiveInfo := live[id]?.getD {}

variable {live base : List BbLiveInfo} {id : Nat}

theorem infoAt_set (info : BbLiveInfo) (hid : id < live.length) (j : Nat) :
    infoAt (live.set id info) j = if j = id then info else infoAt live j := by
  unfold infoAt
  rw [List.getElem?_set]
  split
  · rename_i h
    subst h
    simp
  · rename_i h
    rw [if_neg (Ne.symm h)]

theorem mem_newLiveOut :
    r ∈ f.newLiveOut live id ↔ ∃ s ∈ f.successorsOfBlock id, r ∈ (infoAt live s).liveIn := by
  unfold newLiveOut
  suffices h : ∀ (ids : List Nat) (out : RegSymbolSet),
      r ∈ ids.foldl (fun out s => RegSymbolSet.insertAll out (live[s]?.getD {}).liveIn) out ↔
        r ∈ out ∨ ∃ s ∈ ids, r ∈ (infoAt live s).liveIn by
    rw [h]
    simp
  intro ids
  induction ids with
  | nil => simp
  | cons s ids ih =>
    intro out
    rw [List.foldl_cons, ih, RegSymbolSet.mem_insertAll, List.exists_mem_cons_iff, or_assoc]
    rfl

theorem nodup_newLiveOut : (f.newLiveOut live id).Nodup := by
  unfold newLiveOut
  suffices h : ∀ (ids : List Nat) (out : RegSymbolSet), out.Nodup →
      (ids.foldl (fun out s => RegSymbolSet.insertAll out (live[s]?.getD {}).liveIn) out).Nodup by
    exact h _ _ List.nodup_nil
  intro ids
  induction ids with
  | nil => exact fun out h => h
  | cons s ids ih => exact fun out h => ih _ (RegSymbolSet.nodup_insertAll h)

theorem mem_newLiveIn {info : BbLiveInfo} {out : RegSymbolSet} :
    r ∈ newLiveIn info out ↔ r ∈ info.use ∨ r ∈ out ∧ r ∉ info.defs := by
  rw [newLiveIn, RegSymbolSet.mem_insertAll, RegSymbolSet.mem_without]

/-- A state of the passes over the block summaries `base`: the sets only grow from here. -/
structure Growing (f : FunctionInfo) (base live : List BbLiveInfo) : Prop where
  length : live.length = f.basicBlocks.length
  use : ∀ id, (infoAt live id).use = (infoAt base id).use
  defs : ∀ id, (infoAt live id).defs = (infoAt base id).defs
  nodup : ∀ id, (infoAt live id).use.Nodup ∧ (infoAt live id).liveIn.Nodup ∧
    (infoAt live id).liveOut.Nodup
  liveIn : ∀ id, (infoAt live id).liveIn ⊆ newLiveIn (infoAt live id) (f.newLiveOut live id)
  liveOut : ∀ id, (infoAt live id).liveOut ⊆ f.newLiveOut live id
  bounded : ∀ id, (infoAt live id).use ⊆ f.scan.allRegs ∧
    (infoAt live id).liveIn ⊆ f.scan.allRegs

def StableAt (f : FunctionInfo) (live : List BbLiveInfo) (id : Nat) : Prop :=
  (∀ r, r ∈ newLiveIn (infoAt live id) (f.newLiveOut live id) ↔ r ∈ (infoAt live id).liveIn) ∧
  ∀ r, r ∈ f.newLiveOut live id ↔ r ∈ (infoAt live id).liveOut

/-- The registers in the live sets of all blocks. -/
def liveSize (f : FunctionInfo) (live : List BbLiveInfo) : Nat :=
  ∑ id ∈ Finset.range f.basicBlocks.length,
    ((infoAt live id).liveIn.length + (infoAt live id).liveOut.length)

theorem Growing.size_le (h : f.Growing base live) :
    f.liveSize live ≤ 2 * f.basicBlocks.length * f.scan.allRegs.length := by
  have hout : ∀ id, (infoAt live id).liveOut ⊆ f.scan.allRegs := fun id r hr => by
    obtain ⟨s, -, hs⟩ := mem_newLiveOut.mp (h.liveOut id hr)
    exact (h.bounded s).2 hs
  have hle := Finset.sum_le_card_nsmul (Finset.range f.basicBlocks.length)
    (fun id => (infoAt live id).liveIn.length + (infoAt live id).liveOut.length)
    (2 * f.scan.allRegs.length) fun id _ => by
      have h1 := ((h.nodup id).2.1.subperm (h.bounded id).2).length_le
      have h2 := ((h.nodup id).2.2.subperm (hout id)).length_le
      omega
  rw [Finset.card_range, Nat.nsmul_eq_mul] at hle
  calc f.liveSize live ≤ f.basicBlocks.length * (2 * f.scan.allRegs.length) := hle
    _ = 2 * f.basicBlocks.length * f.scan.allRegs.length := by ring

/-- The block `id` with the live sets that its successors ask for. -/
def refreshed (f : FunctionInfo) (live : List BbLiveInfo) (id : Nat) : BbLiveInfo :=
  { infoAt live id with
    liveIn := newLiveIn (infoAt live id) (f.newLiveOut live id)
    liveOut := f.newLiveOut live id }

theorem Growing.grows (h : f.Growing base live) (hid : id < f.basicBlocks.length) (j : Nat) :
    (infoAt live j).liveIn ⊆ (infoAt (live.set id (f.refreshed live id)) j).liveIn ∧
    (infoAt live j).liveOut ⊆ (infoAt (live.set id (f.refreshed live id)) j).liveOut := by
  rw [infoAt_set _ (h.length ▸ hid)]
  split
  · rename_i heq
    subst heq
    exact ⟨h.liveIn j, h.liveOut j⟩
  · exact ⟨fun _ hr => hr, fun _ hr => hr⟩

theorem Growing.newLiveOut_grows (h : f.Growing base live) (hid : id < f.basicBlocks.length)
    (j : Nat) :
    f.newLiveOut live j ⊆ f.newLiveOut (live.set id (f.refreshed live id)) j := by
  intro r hr
  obtain ⟨s, hs, hrs⟩ := mem_newLiveOut.mp hr
  exact mem_newLiveOut.mpr ⟨s, hs, (h.grows hid s).1 hrs⟩

theorem Growing.set (h : f.Growing base live) (hid : id < f.basicBlocks.length) :
    f.Growing base (live.set id (f.refreshed live id)) := by
  have hat : ∀ j, infoAt (live.set id (f.refreshed live id)) j =
      if j = id then f.refreshed live id else infoAt live j := infoAt_set _ (h.length ▸ hid)
  have hbound : ∀ r ∈ f.newLiveOut live id, r ∈ f.scan.allRegs := by
    intro r hr
    obtain ⟨s, -, hs⟩ := mem_newLiveOut.mp hr
    exact (h.bounded s).2 hs
  constructor
  · rw [List.length_set]
    exact h.length
  · intro j
    rw [hat]
    split
    · rename_i heq
      subst heq
      exact h.use j
    · exact h.use j
  · intro j
    rw [hat]
    split
    · rename_i heq
      subst heq
      exact h.defs j
    · exact h.defs j
  · intro j
    rw [hat]
    split
    · exact ⟨(h.nodup id).1, RegSymbolSet.nodup_insertAll (h.nodup id).1, nodup_newLiveOut⟩
    · exact h.nodup j
  · intro j r hr
    rw [hat] at hr ⊢
    rw [mem_newLiveIn]
    split at hr
    · rename_i heq
      subst heq
      rw [if_pos rfl]
      rcases mem_newLiveIn.mp hr with huse | ⟨hout, hdef⟩
      · exact .inl huse
      · exact .inr ⟨h.newLiveOut_grows hid j hout, hdef⟩
    · rename_i hne
      rw [if_neg hne]
      rcases mem_newLiveIn.mp (h.liveIn j hr) with huse | ⟨hout, hdef⟩
      · exact .inl huse
      · exact .inr ⟨h.newLiveOut_grows hid j hout, hdef⟩
  · intro j r hr
    rw [hat] at hr
    refine h.newLiveOut_grows hid j ?_
    split at hr
    · rename_i heq
      subst heq
      exact hr
    · exact h.liveOut j hr
  · intro j
    rw [hat]
    split
    · refine ⟨(h.bounded id).1, fun r hr => ?_⟩
      rcases mem_newLiveIn.mp hr with huse | ⟨hout, -⟩
      · exact (h.bounded id).1 huse
      · exact hbound r hout
    · exact h.bounded j

/-- A changed block has a live set that gained a register. -/
theorem Growing.size_lt (h : f.Growing base live) (hid : id < f.basicBlocks.length)
    (hchanged : ¬ (RegSymbolSet.same (f.refreshed live id).liveIn (infoAt live id).liveIn &&
      RegSymbolSet.same (f.refreshed live id).liveOut (infoAt live id).liveOut) = true) :
    f.liveSize live < f.liveSize (live.set id (f.refreshed live id)) := by
  have hgrows := h.grows hid
  refine Finset.sum_lt_sum (fun j _ => ?_) ⟨id, Finset.mem_range.mpr hid, ?_⟩
  · have h1 := ((h.nodup j).2.1.subperm (hgrows j).1).length_le
    have h2 := ((h.nodup j).2.2.subperm (hgrows j).2).length_le
    omega
  · have h1 := ((h.nodup id).2.1.subperm (hgrows id).1).length_le
    have h2 := ((h.nodup id).2.2.subperm (hgrows id).2).length_le
    have hat := infoAt_set (f.refreshed live id) (h.length ▸ hid) id
    rw [if_pos rfl] at hat
    rw [hat] at h1 h2 ⊢
    rw [Bool.and_eq_true, not_and_or, Bool.not_eq_true, Bool.not_eq_true] at hchanged
    rcases hchanged with hin | hout
    · have := RegSymbolSet.length_lt_of_gained (h.nodup id).2.1 (h.liveIn id) hin
      change (infoAt live id).liveIn.length < (f.refreshed live id).liveIn.length at this
      omega
    · have := RegSymbolSet.length_lt_of_gained (h.nodup id).2.2 (h.liveOut id) hout
      change (infoAt live id).liveOut.length < (f.refreshed live id).liveOut.length at this
      omega

/-- What a part of a pass over the blocks `ids` may do: nothing, or a live set grows. -/
def Refreshed (f : FunctionInfo) (ids : List Nat) (before after : List BbLiveInfo × Bool) :
    Prop :=
  after = before ∧ (∀ id ∈ ids, f.StableAt before.1 id) ∨
    f.liveSize before.1 < f.liveSize after.1 ∧ after.2 = true

variable {p : List BbLiveInfo × Bool}

theorem Growing.refreshBlock (h : f.Growing base p.1) (hid : id < f.basicBlocks.length) :
    f.Growing base (f.refreshBlock p id).1 ∧ f.Refreshed [id] p (f.refreshBlock p id) := by
  have hset : f.refreshBlock p id =
      if RegSymbolSet.same (f.refreshed p.1 id).liveIn (infoAt p.1 id).liveIn &&
        RegSymbolSet.same (f.refreshed p.1 id).liveOut (infoAt p.1 id).liveOut
      then p else (p.1.set id (f.refreshed p.1 id), true) := rfl
  rw [hset]
  split
  · rename_i hsame
    rw [Bool.and_eq_true, RegSymbolSet.same_iff, RegSymbolSet.same_iff] at hsame
    refine ⟨h, .inl ⟨rfl, fun j hj => ?_⟩⟩
    rw [List.mem_singleton.mp hj]
    exact hsame
  · rename_i hchanged
    exact ⟨h.set hid, .inr ⟨h.size_lt hid hchanged, rfl⟩⟩

theorem Growing.refreshBlocks (ids : List Nat) (hids : ∀ id ∈ ids, id < f.basicBlocks.length)
    (h : f.Growing base p.1) :
    f.Growing base (ids.foldl f.refreshBlock p).1 ∧
    f.Refreshed ids p (ids.foldl f.refreshBlock p) := by
  induction ids generalizing p with
  | nil => exact ⟨h, .inl ⟨rfl, fun id hid => by cases hid⟩⟩
  | cons id ids ih =>
    obtain ⟨hgrow, hone⟩ := h.refreshBlock (hids id List.mem_cons_self)
    obtain ⟨hgrow', hrest⟩ := ih (fun j hj => hids j (List.mem_cons_of_mem _ hj)) hgrow
    refine ⟨hgrow', ?_⟩
    rcases hone with ⟨hsame, hstable⟩ | ⟨hlt, hchanged⟩
    · rw [hsame] at hrest
      rw [List.foldl_cons, hsame]
      rcases hrest with ⟨hsame', hstable'⟩ | hrest
      · refine .inl ⟨hsame', fun j hj => ?_⟩
        rcases List.mem_cons.mp hj with rfl | hj
        · exact hstable j (List.mem_singleton.mpr rfl)
        · exact hstable' j hj
      · exact .inr hrest
    · rcases hrest with ⟨hsame', -⟩ | ⟨hlt', hchanged'⟩
      · rw [List.foldl_cons, hsame']
        exact .inr ⟨hlt, hchanged⟩
      · exact .inr ⟨hlt.trans hlt', hchanged'⟩

/-- The loop stops at a solution of the liveness equations. -/
theorem Growing.refreshLoop (fuel : Nat) (h : f.Growing base live)
    (hfuel : 2 * f.basicBlocks.length * f.scan.allRegs.length < f.liveSize live + fuel) :
    f.Growing base (f.refreshLoop fuel live) ∧
    ∀ id < f.basicBlocks.length, f.StableAt (f.refreshLoop fuel live) id := by
  induction fuel generalizing live with
  | zero =>
    have := h.size_le
    omega
  | succ fuel ih =>
    obtain ⟨hgrow, hpass⟩ := Growing.refreshBlocks (p := (live, false))
      (List.range f.basicBlocks.length).reverse
      (fun id hid => List.mem_range.mp (List.mem_reverse.mp hid)) h
    unfold FunctionInfo.refreshLoop
    dsimp only
    rcases hpass with ⟨hsame, hstable⟩ | ⟨hlt, hchanged⟩
    · have hpass : f.refreshPass live = (live, false) := hsame
      rw [hpass]
      exact ⟨h, fun id hid => hstable id (List.mem_reverse.mpr (List.mem_range.mpr hid))⟩
    · have hpass : (f.refreshPass live).2 = true := hchanged
      rw [hpass, if_pos rfl]
      refine ih hgrow ?_
      change f.liveSize live < f.liveSize (f.refreshPass live).1 at hlt
      omega

/-! ### What the live sets have -/

theorem forall₂_infoAt {bbs : List BasicBlock} {infos : List BbLiveInfo}
    (h : List.Forall₂ f.Summary bbs infos) :
    infos.length = bbs.length ∧
    ∀ b bb, bbs[b]? = some bb → f.Summary bb (infoAt infos b) := by
  induction h with
  | nil => exact ⟨rfl, fun b bb hb => by cases hb⟩
  | cons hone _ ih =>
    refine ⟨congrArg (· + 1) ih.1, fun b bb hb => ?_⟩
    cases b with
    | zero =>
      cases hb
      exact hone
    | succ b => exact ih.2 b bb hb

theorem scan_bbLive :
    f.scan.bbLive.length = f.basicBlocks.length ∧
    ∀ b bb, f.basicBlocks[b]? = some bb → f.Summary bb (infoAt f.scan.bbLive b) := by
  obtain ⟨infos, hinfos, hsummaries⟩ := (scanBlocks_scanned (f := f) f.basicBlocks {}).bbLive
  have heq : f.scan.bbLive = infos := hinfos
  rw [heq]
  exact forall₂_infoAt hsummaries

theorem mem_allRegs : r ∈ f.scan.allRegs ↔ f.Names (f.basicBlocks.flatMap f.blockInsts) r := by
  have h := (scanBlocks_scanned (f := f) f.basicBlocks {}).allRegs r
  exact h.trans ⟨fun h => h.resolve_left List.not_mem_nil, .inr⟩

/-- Registers that the linear order reads first are pinned. -/
theorem mem_linearReadBeforeDef (h : f.ReadFirst (f.basicBlocks.flatMap f.blockInsts) r) :
    r ∈ f.scan.linearReadBeforeDef :=
  (scanBlocks_scanned (f := f) f.basicBlocks {}).readBeforeDef r (.inr ⟨List.not_mem_nil, h⟩)

theorem growing_scan : f.Growing f.scan.bbLive f.scan.bbLive := by
  obtain ⟨hlen, hsummary⟩ := scan_bbLive (f := f)
  have hnone : ∀ id, f.basicBlocks[id]? = none → infoAt f.scan.bbLive id = {} := fun id hid => by
    rw [infoAt, List.getElem?_eq_none (hlen ▸ List.getElem?_eq_none_iff.mp hid)]
    rfl
  have hlive : ∀ id, (infoAt f.scan.bbLive id).liveIn = [] ∧
      (infoAt f.scan.bbLive id).liveOut = [] ∧ (infoAt f.scan.bbLive id).use.Nodup ∧
      (infoAt f.scan.bbLive id).use ⊆ f.scan.allRegs := fun id => by
    cases hbb : f.basicBlocks[id]? with
    | none =>
      rw [hnone id hbb]
      exact ⟨rfl, rfl, List.nodup_nil, List.nil_subset _⟩
    | some bb =>
      have h := hsummary id bb hbb
      refine ⟨h.liveIn, h.liveOut, h.nodup, fun r hr => ?_⟩
      obtain ⟨before, x, after, heq, huse, -⟩ := (h.use r).mp hr
      refine mem_allRegs.mpr ⟨x, List.mem_flatMap.mpr ⟨bb, List.mem_of_getElem? hbb, ?_⟩, .inl huse⟩
      rw [heq]
      exact List.mem_append_right _ List.mem_cons_self
  constructor
  · exact hlen
  · exact fun _ => rfl
  · exact fun _ => rfl
  · intro id
    rw [(hlive id).1, (hlive id).2.1]
    exact ⟨(hlive id).2.2.1, List.nodup_nil, List.nodup_nil⟩
  · intro id
    rw [(hlive id).1]
    exact List.nil_subset _
  · intro id
    rw [(hlive id).2.1]
    exact List.nil_subset _
  · intro id
    rw [(hlive id).1]
    exact ⟨(hlive id).2.2.2, List.nil_subset _⟩

/-- The block sets solve the liveness equations of their summaries. -/
theorem bbLive_solution :
    f.bbLive.length = f.basicBlocks.length ∧
    ∀ b bb, f.basicBlocks[b]? = some bb →
      (∀ r, r ∈ (infoAt f.bbLive b).liveIn ↔
        f.ReadFirst (f.blockInsts bb) r ∨
          r ∈ (infoAt f.bbLive b).liveOut ∧ ¬ f.Defines (f.blockInsts bb) r) ∧
      ∀ r, r ∈ (infoAt f.bbLive b).liveOut ↔
        ∃ c ∈ f.successorsOfBlock b, r ∈ (infoAt f.bbLive c).liveIn := by
  obtain ⟨hgrow, hstable⟩ := (growing_scan (f := f)).refreshLoop f.passes
    (by unfold passes; omega)
  refine ⟨hgrow.length, fun b bb hbb => ?_⟩
  have hlt : b < f.basicBlocks.length := (List.getElem?_eq_some_iff.mp hbb).1
  obtain ⟨hin, hout⟩ := hstable b hlt
  have hsummary := scan_bbLive.2 b bb hbb
  refine ⟨fun r => ?_, fun r => ?_⟩
  · change r ∈ (infoAt (f.refreshLoop f.passes f.scan.bbLive) b).liveIn ↔
      _ ∨ r ∈ (infoAt (f.refreshLoop f.passes f.scan.bbLive) b).liveOut ∧ _
    rw [← hin, mem_newLiveIn, hout, hgrow.use, hgrow.defs, hsummary.use, hsummary.defs]
  · change r ∈ (infoAt (f.refreshLoop f.passes f.scan.bbLive) b).liveOut ↔ _
    rw [← hout, mem_newLiveOut]
    rfl

theorem mem_successorsOfBlock {c : Nat} (h : c ∈ f.successorsOfBlock b) :
    ∃ bb, f.basicBlocks[c]? = some bb := by
  have hlt := List.mem_range.mp (List.mem_filter.mp h).1
  exact ⟨_, List.getElem?_eq_getElem hlt⟩

theorem flow_insts {bb : BasicBlock} (hbb : f.basicBlocks[b]? = some bb) :
    f.flow.insts b = f.blockInsts bb := by
  change f.basicBlocks[b]?.elim [] f.blockInsts = _
  rw [hbb]
  rfl

/-- A register live inside a block is read further on in the block, or it is live out. -/
theorem CodeLive.in_block {bb : BasicBlock} (h : f.CodeLive b i r)
    (hbb : f.basicBlocks[b]? = some bb) :
    f.ReadFirst ((f.blockInsts bb).drop i) r ∨
      r ∈ (infoAt f.bbLive b).liveOut ∧ ¬ f.Defines ((f.blockInsts bb).drop i) r := by
  induction h generalizing bb with
  | read hx hr =>
    rw [flow_insts hbb] at hx
    obtain ⟨hi, hget⟩ := List.getElem?_eq_some_iff.mp hx
    rw [List.drop_eq_getElem_cons hi, readFirst_cons, hget]
    exact .inl (.inl hr)
  | keep hx hr _ ih =>
    rw [flow_insts hbb] at hx
    obtain ⟨hi, hget⟩ := List.getElem?_eq_some_iff.mp hx
    rw [List.drop_eq_getElem_cons hi, readFirst_cons, defines_cons, hget, not_or]
    rcases ih hbb with hread | ⟨hout, hdef⟩
    · exact .inl (.inr ⟨hr, hread⟩)
    · exact .inr ⟨hout, hr, hdef⟩
  | edge hc _ ih =>
    rename_i c r _
    obtain ⟨bb', hbb'⟩ := mem_successorsOfBlock hc
    have hin : r ∈ (infoAt f.bbLive c).liveIn :=
      ((bbLive_solution.2 c bb' hbb').1 r).mpr (ih hbb')
    rw [flow_insts hbb, List.drop_length]
    exact .inr ⟨((bbLive_solution.2 _ bb hbb).2 r).mpr ⟨c, hc, hin⟩, defines_nil⟩

theorem CodeLive.liveIn (h : f.CodeLive b 0 r) {bb : BasicBlock}
    (hbb : f.basicBlocks[b]? = some bb) : r ∈ (infoAt f.bbLive b).liveIn :=
  ((bbLive_solution.2 b bb hbb).1 r).mpr (h.in_block hbb)

theorem CodeLive.liveOut {bb : BasicBlock} (hbb : f.basicBlocks[b]? = some bb)
    (h : f.CodeLive b (f.blockInsts bb).length r) : r ∈ (infoAt f.bbLive b).liveOut := by
  have h := h.in_block hbb
  rw [List.drop_length] at h
  rcases h with hread | ⟨hout, -⟩
  · exact absurd hread readFirst_nil
  · exact hout

end FunctionInfo

end FlashGpuSim
