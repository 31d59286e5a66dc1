import FlashGpuSim.Cluster.CtaMoves

/-!
The induction over the loops of `gpgpu_sim::issue_block2core`, once for every invariant. Between
two calls the invariant is `P`. While the CTAs of a TB cluster are issued it is `W`, which knows
the GPC and the group of the cluster and how many of its CTAs are missing, and what the kernel
has in its record of an open cluster.
-/

namespace FlashGpuSim

open Lib

namespace CtaGpu

/-- A TB cluster that is being issued. -/
structure Ticket where
  gpc : Nat
  group : Nat
  missing : Nat

/-- What the moves of the issue path owe to an invariant. `fail` says which assertions may
stop them. -/
structure IssueRules (P : CtaGpu → Prop) (W : Nat → Ticket → Nat → CtaGpu → Prop)
    (fail : CtaFailure → Prop) : Prop where
  boundRunning : ∀ s, P s → s.BoundRunning
  binds : ∀ s t, P s → Binds s t → P t
  launched : ∀ s gpc n, P s → P (s.noteLaunched gpc n)
  ordinary : ∀ s gpc core uid, P s → gpc < s.config.numGpcs → s.IssueReady gpc core uid →
    (s.kernels uid).isClusterLaunch = false →
    Outcome (s.issueCta gpc core uid noGroup 0) (fun t => P (t.setIssueNextCore gpc core)) fail
  clusterBinds : ∀ s t uid ticket r, W uid ticket r s → Binds s t → W uid ticket r t
  /-- An open cluster is taken up again. -/
  resume : ∀ s uid, P s → uid ∈ s.running → (s.kernels uid).isClusterLaunch = true →
    0 < (s.kernels uid).openTbRemaining →
    W uid ⟨(s.kernels uid).openTbPhysCluster, (s.kernels uid).openTbClusterGroup,
      (s.kernels uid).openTbRemaining⟩ (s.kernels uid).openTbRemaining s
  running : ∀ s uid ticket r, W uid ticket r s → uid ∈ s.running
  clusterIssue : ∀ s gpc core uid group n r, W uid ⟨gpc, group, n + 1⟩ r s →
    gpc < s.config.numGpcs → s.IssueReady gpc core uid →
    Outcome (s.issueCta gpc core uid group (s.issueGroupSize uid))
      (fun t => W uid ⟨gpc, group, n⟩ r (t.setIssueNextCore gpc core)) fail
  consume : ∀ s uid gpc group n, W uid ⟨gpc, group, n⟩ (n + 1) s →
    W uid ⟨gpc, group, n⟩ n (s.setKernel uid (s.kernels uid).consumeOpenTbCta)
  /-- The record of the kernel says what is missing. -/
  suspend : ∀ s uid gpc group n, W uid ⟨gpc, group, n⟩ n s → P s
  /-- A group is reserved for a new cluster. -/
  reserve : ∀ s uid gpc group g, P s → uid ∈ s.running → gpc < s.config.numGpcs →
    (s.kernels uid).isClusterLaunch = true → (s.kernels uid).openTbRemaining = 0 →
    (s.kernels uid).noMoreCtasToRun = false →
    (s.gpcs gpc).allocateCtaClusterGroup (s.kernels uid).tbClusterCtas noGroup = (group, g) →
    W uid ⟨gpc, group, (s.kernels uid).tbClusterCtas⟩ 0 (s.setGpc gpc g)
  /-- No CTA was issued: the group is left unused. -/
  leak : ∀ s uid gpc group, W uid ⟨gpc, group, (s.kernels uid).tbClusterCtas⟩ 0 s → P s
  /-- Some CTAs are missing: the kernel remembers the cluster. -/
  keepOpen : ∀ s uid gpc group n, W uid ⟨gpc, group, n⟩ 0 s → 0 < n →
    P (s.setKernel uid ((s.kernels uid).openTbCluster gpc group n))

variable {P : CtaGpu → Prop} {W : Nat → Ticket → Nat → CtaGpu → Prop} {fail : CtaFailure → Prop}
  {s : CtaGpu} {gpc uid group : Nat}

theorem IssueRules.issueOnCore (hr : IssueRules P W fail) (h : P s) {core : Nat}
    {choice : Option Nat} (hgpc : gpc < s.config.numGpcs)
    (hcore : core < s.config.numCores gpc) :
    Outcome (s.issueOnCore gpc core choice) (fun x => P x.2 ∧ x.2.config = s.config) fail := by
  refine (issueOnCore_spec (hr.boundRunning s h) hcore).mono ?_ ?_
  · intro x hx
    cases hx with
    | none ht => exact ⟨hr.binds s _ h ht, ht.config⟩
    | one ht hready hordinary hok =>
      have hlift := hr.ordinary _ gpc _ _ (hr.binds s _ h ht) (ht.config ▸ hgpc) hready hordinary
      exact ⟨hlift.of_ok hok, (issueCta_config hok).trans ht.config⟩
  · rintro e ⟨core', uid, t, ht, hready, hordinary, herr⟩
    exact (hr.ordinary t gpc core' uid (hr.binds s t h ht) (ht.config ▸ hgpc) hready
      hordinary).of_error herr

theorem IssueRules.issueGpc (hr : IssueRules P W fail) (h : P s) {select : Nat → Option Nat}
    (hgpc : gpc < s.config.numGpcs) :
    Outcome (s.issueGpc gpc select) (fun x => P x.2 ∧ x.2.config = s.config) fail := by
  unfold CtaGpu.issueGpc
  have hinit : P s ∧ s.config = s.config ∧
      ∀ i ∈ List.range (s.config.numCores gpc), i < s.config.numCores gpc :=
    ⟨h, rfl, fun i hi => List.mem_range.mp hi⟩
  refine (outcome_foldlM (fun todo (x : Nat × CtaGpu) => P x.2 ∧ x.2.config = s.config ∧
    ∀ i ∈ todo, i < s.config.numCores gpc) ?_ _ _ hinit).imp fun x hx => ⟨hx.1, hx.2.1⟩
  rintro i rest ⟨issued, t⟩ ⟨ht, hconfig, hrest⟩
  have hpos : 0 < s.config.numCores gpc :=
    Nat.lt_of_le_of_lt (Nat.zero_le _) (hrest i List.mem_cons_self)
  have hcore : ctaIssueVisit i (s.gpcs gpc).ctaIssueNextCore (s.config.numCores gpc) <
      t.config.numCores gpc := by
    rw [hconfig]
    exact Nat.mod_lt _ hpos
  dsimp only
  apply outcome_bind
  refine (hr.issueOnCore ht (hconfig ▸ hgpc) hcore).imp ?_
  rintro ⟨num, u⟩ ⟨hu, hconfig'⟩
  exact ⟨hu, hconfig'.trans hconfig, fun j hj => hrest j (List.mem_cons_of_mem _ hj)⟩

/-- The ordinary path over all GPCs. -/
theorem IssueRules.issueOrdinary (hr : IssueRules P W fail) (h : P s)
    {select : Nat → Nat → Option Nat} :
    Outcome (s.issueOrdinary select) (fun t => P t ∧ t.config = s.config) fail := by
  unfold CtaGpu.issueOrdinary
  have hinit : P s ∧ s.config = s.config ∧
      ∀ i ∈ List.range s.config.numGpcs, i < s.config.numGpcs :=
    ⟨h, rfl, fun i hi => List.mem_range.mp hi⟩
  refine (outcome_foldlM (fun todo (t : CtaGpu) => P t ∧ t.config = s.config ∧
    ∀ i ∈ todo, i < s.config.numGpcs) ?_ _ _ hinit).imp fun t ht => ⟨ht.1, ht.2.1⟩
  rintro i rest t ⟨ht, hconfig, hrest⟩
  have hgpc : (i + s.lastClusterIssue + 1) % t.config.numGpcs < t.config.numGpcs := by
    rw [hconfig]
    exact Nat.mod_lt _ (Nat.lt_of_le_of_lt (Nat.zero_le _) (hrest i List.mem_cons_self))
  dsimp only
  apply outcome_bind
  refine (hr.issueGpc ht hgpc).imp ?_
  rintro ⟨num, u⟩ ⟨hu, hconfig'⟩
  have hrest' : ∀ j ∈ rest, j < s.config.numGpcs := fun j hj =>
    hrest j (List.mem_cons_of_mem _ hj)
  apply outcome_pure.mpr
  split
  · exact ⟨hu, hconfig'.trans hconfig, hrest'⟩
  · exact ⟨hr.launched u _ _ hu, hconfig'.trans hconfig, hrest'⟩

/-- One attempt to issue a CTA of a TB cluster. -/
theorem IssueRules.issueForKernel (hr : IssueRules P W fail) {n r : Nat}
    (h : W uid ⟨gpc, group, n + 1⟩ r s) (hgpc : gpc < s.config.numGpcs) :
    Outcome (s.issueForKernel gpc uid group)
      (fun x => x.2.config = s.config ∧
        ((x.1 = 0 ∧ Binds s x.2 ∧ W uid ⟨gpc, group, n + 1⟩ r x.2) ∨
          (x.1 = 1 ∧ W uid ⟨gpc, group, n⟩ r x.2))) fail := by
  refine (issueForKernel_spec (hr.running s uid _ r h)).mono ?_ ?_
  · intro x hx
    cases hx with
    | none ht => exact ⟨ht.config, .inl ⟨rfl, ht, hr.clusterBinds s _ uid _ r h ht⟩⟩
    | one ht hready hok =>
      have hw := hr.clusterBinds s _ uid _ r h ht
      have hissue := hr.clusterIssue _ gpc _ uid group n r hw (ht.config ▸ hgpc) hready
      have hsize : ∀ t, Binds s t → t.issueGroupSize uid = s.issueGroupSize uid := by
        intro t ht
        obtain ⟨_, rfl⟩ := ht.frame
        rfl
      rw [hsize _ ht] at hissue
      exact ⟨(issueCta_config hok).trans ht.config, .inr ⟨rfl, hissue.of_ok hok⟩⟩
  · rintro e ⟨core, t, ht, hready, herr⟩
    have hw := hr.clusterBinds s t uid _ r h ht
    have hissue := hr.clusterIssue t gpc core uid group n r hw (ht.config ▸ hgpc) hready
    obtain ⟨_, rfl⟩ := ht.frame
    exact hissue.of_error herr

/-- The loop over the missing CTAs of an open cluster. -/
theorem IssueRules.resumeCluster (hr : IssueRules P W fail) {n : Nat}
    (h : W uid ⟨gpc, group, n⟩ n s) (hgpc : gpc < s.config.numGpcs) :
    Outcome (resumeCluster gpc uid group n s) (fun x => P x.2 ∧ x.2.config = s.config) fail := by
  induction n generalizing s with
  | zero => exact ⟨hr.suspend s uid gpc group 0 h, rfl⟩
  | succ n ih =>
    unfold CtaGpu.resumeCluster
    apply outcome_bind
    refine (hr.issueForKernel h hgpc).imp ?_
    rintro ⟨num, t⟩ ⟨hconfig, ⟨hnum, -, hw⟩ | ⟨hnum, hw⟩⟩
    · dsimp only at hnum hw hconfig ⊢
      rw [if_pos hnum]
      exact ⟨hr.suspend t uid gpc group _ hw, hconfig⟩
    · dsimp only at hnum hw hconfig ⊢
      rw [if_neg (by omega)]
      apply outcome_bind
      refine (ih (hr.consume t uid gpc group n hw) (hconfig ▸ hgpc)).imp ?_
      rintro ⟨issued, u⟩ ⟨hu, hconfig'⟩
      exact ⟨hu, hconfig'.trans hconfig⟩

/-- The loop over the CTAs of a new cluster. -/
theorem IssueRules.issueCluster (hr : IssueRules P W fail) {n : Nat}
    (h : W uid ⟨gpc, group, n⟩ 0 s) (hgpc : gpc < s.config.numGpcs) :
    Outcome (issueCluster gpc uid group n s)
      (fun x => x.1 ≤ n ∧ W uid ⟨gpc, group, n - x.1⟩ 0 x.2 ∧ (x.1 = 0 → Binds s x.2) ∧
        x.2.config = s.config) fail := by
  induction n generalizing s with
  | zero => exact ⟨Nat.le_refl _, h, fun _ => .refl, rfl⟩
  | succ n ih =>
    unfold CtaGpu.issueCluster
    apply outcome_bind
    refine (hr.issueForKernel h hgpc).imp ?_
    rintro ⟨num, t⟩ ⟨hconfig, ⟨hnum, ht, hw⟩ | ⟨hnum, hw⟩⟩
    · dsimp only at hnum ht hw hconfig ⊢
      rw [if_pos hnum]
      exact ⟨Nat.zero_le _, hw, fun _ => ht, hconfig⟩
    · dsimp only at hnum hw hconfig ⊢
      rw [if_neg (by omega)]
      apply outcome_bind
      refine (ih hw (hconfig ▸ hgpc)).imp ?_
      rintro ⟨issued, u⟩ ⟨hle, hu, -, hconfig'⟩
      dsimp only at hle hu hconfig'
      have hmissing : n + 1 - (issued + num) = n - issued := by omega
      refine ⟨?_, ?_, ?_, hconfig'.trans hconfig⟩
      · dsimp only
        omega
      · dsimp only
        rw [hmissing]
        exact hu
      · intro hzero
        dsimp only at hzero
        omega

theorem IssueRules.startCluster (hr : IssueRules P W fail) {lastIssued : Nat} {todo : List Nat}
    (h : P s) (hrun : uid ∈ s.running) (hcluster : (s.kernels uid).isClusterLaunch = true)
    (hopen : (s.kernels uid).openTbRemaining = 0)
    (hmore : (s.kernels uid).noMoreCtasToRun = false) (hpos : todo ≠ [] → 0 < s.config.numGpcs) :
    Outcome (startCluster uid (s.kernels uid).tbClusterCtas lastIssued todo s)
      (fun t => P t ∧ t.config = s.config) fail := by
  induction todo generalizing s with
  | nil => exact ⟨h, rfl⟩
  | cons i rest ih =>
    have hn := hpos (List.cons_ne_nil _ _)
    unfold CtaGpu.startCluster
    dsimp only
    split
    · exact ih h hrun hcluster hopen hmore fun _ => hn
    · obtain ⟨⟨group, g⟩, hg⟩ : ∃ x, (s.gpcs ((i + lastIssued + 1) % s.config.numGpcs)
          ).allocateCtaClusterGroup (s.kernels uid).tbClusterCtas noGroup = x := ⟨_, rfl⟩
      have hgpc : (i + lastIssued + 1) % s.config.numGpcs < s.config.numGpcs := Nat.mod_lt _ hn
      rw [hg]
      dsimp only
      have hw := hr.reserve s uid _ group g h hrun hgpc hcluster hopen hmore hg
      apply outcome_bind
      refine (hr.issueCluster hw hgpc).imp ?_
      rintro ⟨issued, t⟩ ⟨hle, ht, hbinds, hconfig⟩
      dsimp only at hle ht hbinds hconfig ⊢
      split
      · rename_i hzero
        obtain ⟨_, hframe⟩ := (hbinds hzero).frame
        have hkernels : t.kernels = s.kernels := by rw [hframe]; rfl
        have hrunning : t.running = s.running := by rw [hframe]; rfl
        have hP : P t := by
          rw [hzero, Nat.sub_zero, ← hkernels] at ht
          exact hr.leak t uid _ group ht
        rw [← hkernels] at hcluster hopen hmore
        rw [← hrunning] at hrun
        have hrest := ih hP hrun hcluster hopen hmore fun _ => by
          rw [hconfig]
          exact hn
        rw [hkernels] at hrest
        exact hrest.imp fun u hu => ⟨hu.1, hu.2.trans hconfig⟩
      · apply outcome_pure.mpr
        split
        · exact ⟨hr.launched _ _ _ (hr.keepOpen t uid _ group _ ht (by omega)), hconfig⟩
        · have hfull : (s.kernels uid).tbClusterCtas - issued = 0 := by omega
          rw [hfull] at ht
          exact ⟨hr.launched _ _ _ (hr.suspend t uid _ group 0 ht), hconfig⟩

theorem IssueRules.issueClusterKernel (hr : IssueRules P W fail) (h : P s)
    (hrun : uid ∈ s.running) (hcluster : (s.kernels uid).isClusterLaunch = true)
    (hmore : (s.kernels uid).noMoreCtasToRun = false) :
    Outcome (s.issueClusterKernel uid) (fun t => P t ∧ t.config = s.config) fail := by
  unfold CtaGpu.issueClusterKernel
  dsimp only
  split
  · rename_i hopen
    have hopen : 0 < (s.kernels uid).openTbRemaining := of_decide_eq_true hopen
    split
    · rename_i hphys
      apply outcome_bind
      refine (hr.resumeCluster (hr.resume s uid h hrun hcluster hopen) hphys).imp ?_
      rintro ⟨issued, t⟩ ⟨ht, hconfig⟩
      apply outcome_pure.mpr
      dsimp only at ht hconfig ⊢
      split
      · exact ⟨ht, hconfig⟩
      · exact ⟨hr.launched t _ _ ht, hconfig⟩
    · exact ⟨h, rfl⟩
  · rename_i hopen
    have hopen : (s.kernels uid).openTbRemaining = 0 :=
      Nat.eq_zero_of_not_pos fun hpos => hopen (decide_eq_true hpos)
    refine hr.startCluster h hrun hcluster hopen hmore fun hne => ?_
    exact Nat.pos_of_ne_zero fun hzero => hne (by rw [hzero]; rfl)

theorem IssueRules.issueClusters (hr : IssueRules P W fail) (h : P s) {cluster : Option Nat} :
    Outcome (s.issueClusters cluster) (fun t => P t ∧ t.config = s.config) fail := by
  unfold CtaGpu.issueClusters
  split
  · rename_i uid hsel
    split
    · rename_i htest
      rw [Bool.and_eq_true] at htest
      have hmore : (s.kernels uid).noMoreCtasToRun = false := by
        have hleft := htest.2
        unfold kernelMoreCtaLeft at hleft
        simp only [Option.any_some, Bool.and_eq_true, Bool.not_eq_true'] at hleft
        exact hleft.2
      exact hr.issueClusterKernel h (selectKernel_some hsel) htest.1 hmore
    · exact ⟨h, rfl⟩
  · exact ⟨h, rfl⟩

/-- Every invariant that keeps the rules is kept by `gpgpu_sim::issue_block2core`. -/
theorem IssueRules.issueBlock2core (hr : IssueRules P W fail) (h : P s) {cluster : Option Nat}
    {select : Nat → Nat → Option Nat} :
    Outcome (s.issueBlock2core cluster select) (fun t => P t ∧ t.config = s.config) fail := by
  unfold CtaGpu.issueBlock2core
  apply outcome_bind
  refine (hr.issueClusters h).imp fun t ht => ?_
  refine (hr.issueOrdinary ht.1).imp fun u hu => ?_
  exact ⟨hu.1, hu.2.trans ht.2⟩

end CtaGpu

end FlashGpuSim
