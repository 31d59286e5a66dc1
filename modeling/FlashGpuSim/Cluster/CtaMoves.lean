import FlashGpuSim.Cluster.CtaRelease

/-!
What the loops of `issue_block2core` do: they bind idle SMs to kernels and let a CTA take a
context. Every invariant of the issue path is derived from these facts.
-/

namespace FlashGpuSim

open Lib

namespace CtaGpu

/-- SMs without threads and without CTAs to release are bound to running kernels. -/
inductive Binds : CtaGpu → CtaGpu → Prop
  | refl {s : CtaGpu} : Binds s s
  | step {s t : CtaGpu} {gpc core uid : Nat} : Binds s t → t.config.concurrentKernelSm = false →
      t.getNotCompleted gpc core = 0 → uid ∈ t.running → Binds s (t.bindKernel gpc core uid)

variable {s t u : CtaGpu} {gpc core uid forceGroup groupSize n : Nat}

theorem Binds.single (hconc : s.config.concurrentKernelSm = false)
    (hidle : s.getNotCompleted gpc core = 0) (hrun : uid ∈ s.running) :
    Binds s (s.bindKernel gpc core uid) := .step .refl hconc hidle hrun

theorem Binds.trans (h : Binds s t) (h' : Binds t u) : Binds s u := by
  induction h' with
  | refl => exact h
  | step _ hconc hidle hrun ih => exact .step ih hconc hidle hrun

/-- Binding changes nothing but the SMs. -/
theorem Binds.frame (h : Binds s t) : ∃ cores, t = { s with cores := cores } := by
  induction h with
  | refl => exact ⟨s.cores, rfl⟩
  | step _ _ _ _ ih =>
    obtain ⟨cores, rfl⟩ := ih
    exact ⟨_, rfl⟩

/-- An SM is ready for a CTA of a kernel. -/
structure IssueReady (s : CtaGpu) (gpc core uid : Nat) : Prop where
  exist : core < s.config.numCores gpc
  can : s.canIssue1block gpc core uid = true
  more : s.kernelMoreCtaLeft (some uid) = true
  running : uid ∈ s.running
  bound : s.config.concurrentKernelSm = false → (s.cores gpc core).kernel = some uid

/-- One CTA of the kernel at most is issued on a GPC. -/
inductive IssuesOne (gpc uid forceGroup groupSize : Nat) (s : CtaGpu) : Nat × CtaGpu → Prop
  | none {t : CtaGpu} : Binds s t → IssuesOne gpc uid forceGroup groupSize s (0, t)
  | one {core : Nat} {t u : CtaGpu} : Binds s t → t.IssueReady gpc core uid →
      t.issueCta gpc core uid forceGroup groupSize = .ok u →
      IssuesOne gpc uid forceGroup groupSize s (1, u.setIssueNextCore gpc core)

/-- The issue of a CTA failed on a ready SM. -/
def IssueFails (gpc uid forceGroup groupSize : Nat) (s : CtaGpu) (e : CtaFailure) : Prop :=
  ∃ core t, Binds s t ∧ t.IssueReady gpc core uid ∧
    t.issueCta gpc core uid forceGroup groupSize = .error e

theorem bindFor_some (h : s.bindFor gpc core uid = some t) (hrun : uid ∈ s.running) :
    Binds s t ∧ (t.config.concurrentKernelSm = false → (t.cores gpc core).kernel = some uid) := by
  unfold bindFor at h
  dsimp only at h
  split at h
  · rename_i hconc
    cases h
    exact ⟨.refl, fun hnot => by rw [hconc] at hnot; cases hnot⟩
  · rename_i hconc
    split at h
    · split at h
      · rename_i hbound
        cases h
        exact ⟨.refl, fun _ => hbound⟩
      · cases h
    · split at h
      · rename_i hidle
        cases h
        refine ⟨.single (Bool.eq_false_of_not_eq_true hconc) hidle hrun, fun _ => ?_⟩
        simp [bindKernel, setCore]
      · cases h

theorem kernelMoreCtaLeft_binds (h : Binds s t) (k : Option Nat) :
    t.kernelMoreCtaLeft k = s.kernelMoreCtaLeft k := by
  obtain ⟨cores, rfl⟩ := h.frame
  rfl

theorem visitForKernel_spec {rrStart : Nat} {todo : List Nat} (hpos : todo ≠ [] →
      0 < s.config.numCores gpc) (hrun : uid ∈ s.running)
    (hmore : s.kernelMoreCtaLeft (some uid) = true) :
    Outcome (visitForKernel gpc uid forceGroup rrStart todo s)
      (IssuesOne gpc uid forceGroup (s.issueGroupSize uid) s)
      (IssueFails gpc uid forceGroup (s.issueGroupSize uid) s) := by
  suffices h : ∀ t, Binds s t → Outcome (visitForKernel gpc uid forceGroup rrStart todo t)
      (IssuesOne gpc uid forceGroup (s.issueGroupSize uid) s)
      (IssueFails gpc uid forceGroup (s.issueGroupSize uid) s) from h s .refl
  induction todo with
  | nil => exact fun t ht => .none ht
  | cons i rest ih =>
    intro t ht
    have hrest := ih fun _ => hpos (List.cons_ne_nil _ _)
    have hn := hpos (List.cons_ne_nil _ _)
    have hrunt : uid ∈ t.running := by
      obtain ⟨cores, rfl⟩ := ht.frame
      exact hrun
    unfold visitForKernel
    dsimp only
    split
    · exact hrest t ht
    · rename_i u hbind
      obtain ⟨hu, hbound⟩ := bindFor_some hbind hrunt
      have hsu := ht.trans hu
      split
      · rename_i hcan
        rw [Bool.and_eq_true] at hcan
        have hready : u.IssueReady gpc (ctaIssueVisit i rrStart (t.config.numCores gpc)) uid := by
          refine ⟨?_, hcan.1, ?_, ?_, hbound⟩
          · obtain ⟨cores, rfl⟩ := ht.frame
            obtain ⟨cores, rfl⟩ := hu.frame
            exact Nat.mod_lt _ hn
          · rw [kernelMoreCtaLeft_binds hsu]
            exact hmore
          · obtain ⟨cores, rfl⟩ := hsu.frame
            exact hrun
        have hsize : u.issueGroupSize uid = s.issueGroupSize uid := by
          obtain ⟨cores, rfl⟩ := hsu.frame
          rfl
        rw [hsize]
        cases hissue : u.issueCta gpc (ctaIssueVisit i rrStart (t.config.numCores gpc)) uid
            forceGroup (s.issueGroupSize uid) with
        | ok v => exact .one hsu hready hissue
        | error e => exact ⟨_, u, hsu, hready, hissue⟩
      · exact hrest u hsu

theorem issueForKernel_spec (hrun : uid ∈ s.running) :
    Outcome (s.issueForKernel gpc uid forceGroup)
      (IssuesOne gpc uid forceGroup (s.issueGroupSize uid) s)
      (IssueFails gpc uid forceGroup (s.issueGroupSize uid) s) := by
  unfold issueForKernel
  split
  · rename_i hmore
    refine visitForKernel_spec (fun hne => ?_) hrun hmore
    exact Nat.pos_of_ne_zero fun hzero => hne (by rw [hzero]; rfl)
  · exact .none .refl

theorem selectKernel_some {choice : Option Nat} (h : s.selectKernel choice = some uid) :
    uid ∈ s.running := by
  obtain ⟨-, htest⟩ := Option.filter_eq_some_iff.mp h
  rw [Bool.and_eq_true] at htest
  exact List.contains_iff_mem.mp htest.1

/-- Every kernel that an SM is bound to is running. -/
def BoundRunning (s : CtaGpu) : Prop :=
  ∀ gpc core uid, (s.cores gpc core).kernel = some uid → uid ∈ s.running

theorem kernelForCore_spec {choice : Option Nat} {kernel : Option Nat} (hb : s.BoundRunning)
    (h : s.kernelForCore gpc core choice = (kernel, t)) :
    Binds s t ∧ ∀ uid, kernel = some uid → s.kernelMoreCtaLeft kernel = true →
      uid ∈ s.running ∧
        (t.config.concurrentKernelSm = false → (t.cores gpc core).kernel = some uid) := by
  unfold kernelForCore at h
  dsimp only at h
  split at h
  · rename_i hconc
    cases h
    exact ⟨.refl, fun uid hk _ => ⟨selectKernel_some hk, fun hnot => by
      rw [hconc] at hnot
      cases hnot⟩⟩
  · rename_i hconc
    split at h
    · cases h
      exact ⟨.refl, fun uid hk _ => ⟨hb _ _ _ hk, fun _ => hk⟩⟩
    · split at h
      · rename_i hidle
        split at h
        · rename_i sel hsel
          cases h
          refine ⟨.single (Bool.eq_false_of_not_eq_true hconc) hidle (selectKernel_some hsel), ?_⟩
          intro uid hk _
          cases hk
          exact ⟨selectKernel_some hsel, fun _ => by simp [bindKernel, setCore]⟩
        · cases h
          exact ⟨.refl, fun uid hk => by cases hk⟩
      · rename_i hmore _
        cases h
        exact ⟨.refl, fun uid hk hmore' => absurd hmore' hmore⟩

/-- One CTA of some ordinary kernel at most is issued on an SM. -/
inductive IssuesOrdinary (gpc : Nat) (s : CtaGpu) : Nat × CtaGpu → Prop
  | none {t : CtaGpu} : Binds s t → IssuesOrdinary gpc s (0, t)
  | one {core uid : Nat} {t u : CtaGpu} : Binds s t → t.IssueReady gpc core uid →
      (t.kernels uid).isClusterLaunch = false →
      t.issueCta gpc core uid noGroup 0 = .ok u →
      IssuesOrdinary gpc s (1, u.setIssueNextCore gpc core)

def OrdinaryFails (gpc : Nat) (s : CtaGpu) (e : CtaFailure) : Prop :=
  ∃ core uid t, Binds s t ∧ t.IssueReady gpc core uid ∧
    (t.kernels uid).isClusterLaunch = false ∧ t.issueCta gpc core uid noGroup 0 = .error e

theorem issueOnCore_spec {choice : Option Nat} (hb : s.BoundRunning)
    (hcore : core < s.config.numCores gpc) :
    Outcome (s.issueOnCore gpc core choice) (IssuesOrdinary gpc s) (OrdinaryFails gpc s) := by
  unfold issueOnCore
  cases hk : s.kernelForCore gpc core choice with
  | mk kernel t =>
    obtain ⟨ht, hkernel⟩ := kernelForCore_spec hb hk
    dsimp only
    split
    · exact .none ht
    · rename_i uid
      split
      · rename_i htest
        simp only [Bool.and_eq_true, Bool.not_eq_true'] at htest
        obtain ⟨⟨⟨hordinary, hmore⟩, hcan⟩, -⟩ := htest
        rw [← kernelMoreCtaLeft_binds ht] at hkernel
        obtain ⟨hrun, hbound⟩ := hkernel uid rfl hmore
        have hready : t.IssueReady gpc core uid := by
          refine ⟨?_, hcan, hmore, ?_, hbound⟩
          · obtain ⟨cores, rfl⟩ := ht.frame
            exact hcore
          · obtain ⟨cores, rfl⟩ := ht.frame
            exact hrun
        cases hissue : t.issueCta gpc core uid noGroup 0 with
        | ok u => exact .one ht hready hordinary hissue
        | error e => exact ⟨core, uid, t, ht, hready, hordinary, hissue⟩
      · exact .none ht

theorem readyContext_some {limit slot : Nat} (h : s.readyContext gpc core limit = some slot) :
    slot < limit ∧ (s.slots ⟨gpc, core, slot⟩).contextReady s.now = true := by
  unfold readyContext at h
  have hready := List.find?_some h
  exact ⟨List.mem_range.mp (List.mem_of_find?_eq_some h), hready⟩

/-- What the issue of a CTA does. -/
theorem issueCta_ok (h : s.issueCta gpc core uid forceGroup groupSize = .ok t) :
    ∃ slot occupancy, s.readyContext gpc core (s.config.ctaLimit uid) = some slot ∧
      s.occupyResources gpc core slot uid = .ok occupancy ∧
      (s.slots ⟨gpc, core, slot⟩).lifecycle.active = false ∧
      0 < (s.kernels uid).threadsPerCta ∧ (s.kernels uid).noMoreCtasToRun = false ∧
      t = s.takeContext ⟨gpc, core, slot⟩ uid forceGroup groupSize occupancy := by
  unfold issueCta at h
  dsimp only at h
  split at h
  · cases h
  · rename_i slot hslot
    obtain ⟨occupancy, hocc, h⟩ := bind_eq_ok h
    obtain ⟨_, hactive, h⟩ := bind_eq_ok h
    obtain ⟨_, hthreads, h⟩ := bind_eq_ok h
    cases h
    have hactive := require_true hactive
    have hthreads := require_true hthreads
    simp only [Bool.not_eq_true', Bool.and_eq_true, decide_eq_true_eq] at hactive hthreads
    exact ⟨slot, occupancy, hslot, hocc, hactive, hthreads.1.1, hthreads.2, rfl⟩

theorem issueCta_config (h : s.issueCta gpc core uid forceGroup groupSize = .ok t) :
    t.config = s.config := by
  obtain ⟨_, _, -, -, -, -, -, rfl⟩ := issueCta_ok h
  rfl

theorem Binds.config (h : Binds s t) : t.config = s.config := by
  obtain ⟨_, rfl⟩ := h.frame
  rfl

end CtaGpu

end FlashGpuSim
