import FlashGpuSim.Cluster.CtaAccounts
import FlashGpuSim.Cluster.CtaIssueRules

/-!
Every operation of a run keeps the books of the CTA contexts, and none of them fails.
-/

namespace FlashGpuSim

open Lib

namespace CtaGpu

variable {s t : CtaGpu} {ctas : Finset CtaPlace} {gpc core slot uid : Nat} {place : CtaPlace}

/-- A CTA stays in its context, with fewer threads perhaps. -/
theorem Accounts.retouch (h : s.Accounts ctas) (hp : place ∈ ctas) {y : CtaSlot}
    (hy : y.Held s.now) (hactive : y.lifecycle.active = true)
    (hkernel : y.kernel = (s.slots place).kernel) (hconfig : t.config = s.config)
    (hnow : t.now = s.now) (hslots : t.slots = Function.update s.slots place y)
    (hcores : ∀ g c, (t.cores g c).nActiveCta = (s.cores g c).nActiveCta ∧
      (t.cores g c).kernel = (s.cores g c).kernel ∧
      (t.cores g c).occupancy = (s.cores g c).occupancy)
    (hthreads : ∀ g c, (t.cores g c).notCompleted +
        (if place.gpc = g ∧ place.core = c then (s.slots place).status else 0) =
      (s.cores g c).notCompleted + if place.gpc = g ∧ place.core = c then y.status else 0)
    (hkernels : t.kernels = s.kernels) (hrunning : t.running = s.running)
    (hnext : t.nextKernelUid = s.nextKernelUid) : t.Accounts ctas := by
  have hself : t.slots place = y := by rw [hslots, Function.update_self]
  have hslot : ∀ p ≠ place, t.slots p = s.slots p := fun p hp => by
    rw [hslots, Function.update_of_ne hp]
  have hsame : ∀ p, (t.slots p).kernel = (s.slots p).kernel := by
    intro p
    rcases eq_or_ne p place with rfl | hne
    · rw [hself, hkernel]
    · rw [hslot p hne]
  constructor
  · intro p
    rcases eq_or_ne p place with rfl | hne
    · simp [hself, hactive, hp]
    · rw [hslot p hne]
      exact h.active p
  · intro p hp
    unfold Exists
    rw [hconfig]
    exact h.exist p hp
  · intro p hp'
    rw [hslot p fun heq => hp' (heq ▸ hp)]
    exact h.free p hp'
  · intro p hp'
    rw [hnow]
    rcases eq_or_ne p place with rfl | hne
    · rw [hself]
      exact hy
    · rw [hslot p hne]
      exact h.held p hp'
  · intro g c
    rw [(hcores g c).1]
    exact h.nActive g c
  · intro g c
    have hth := hthreads g c
    rw [h.threads] at hth
    split at hth
    · rename_i hhere
      have hin : place ∈ coreCtas ctas g c := mem_coreCtas.mpr ⟨hp, hhere⟩
      have hrest : ∑ p ∈ (coreCtas ctas g c).erase place, (t.slots p).status =
          ∑ p ∈ (coreCtas ctas g c).erase place, (s.slots p).status :=
        Finset.sum_congr rfl fun p hp => by rw [hslot p (Finset.ne_of_mem_erase hp)]
      have hs := Finset.add_sum_erase _ (fun p => (s.slots p).status) hin
      have ht := Finset.add_sum_erase _ (fun p => (t.slots p).status) hin
      rw [hself, hrest] at ht
      omega
    · rename_i hhere
      have hrest : ∑ p ∈ coreCtas ctas g c, (t.slots p).status =
          ∑ p ∈ coreCtas ctas g c, (s.slots p).status :=
        Finset.sum_congr rfl fun p hp => by
          rw [hslot p fun heq => hhere (heq ▸ (mem_coreCtas.mp hp).2)]
      omega
  · intro u
    rw [hkernels]
    simp only [hsame]
    exact h.runs u
  · intro hconc p hp
    rw [hconfig] at hconc
    rw [hsame, (hcores _ _).2.1]
    exact h.bound hconc p hp
  · intro g c u hu
    rw [(hcores g c).2.1] at hu
    rw [hrunning]
    exact h.boundRunning g c u hu
  · intro hconc g c
    rw [hconfig] at hconc
    rw [(hcores g c).2.1]
    exact h.unbound hconc g c
  · intro p hp
    rw [hsame, hrunning]
    exact h.running p hp
  · rw [hrunning]
    exact h.distinct
  · rw [hrunning, hnext]
    exact h.launched
  · rw [hrunning, hkernels, hconfig]
    exact h.blocks
  · intro g c i hi
    rw [(hcores g c).2.2] at hi
    rw [hconfig]
    exact h.ranges g c i hi

/-- A context with a live thread holds a CTA. -/
theorem Accounts.live (h : s.Accounts ctas) (hlive : 0 < (s.slots place).status) :
    place ∈ ctas := by
  by_contra hnot
  have hzero := (h.free place hnot).status
  omega

/-- The outstanding operations of a context are not in the books. -/
theorem slots_setPending (s : CtaGpu) (place p : CtaPlace) (tma dsm : Nat) :
    ∃ tma' dsm', (s.setPending place tma dsm).slots p =
      { s.slots p with tmaPending := tma', dsmPending := dsm' } := by
  unfold CtaGpu.setPending setSlot
  dsimp only
  rcases eq_or_ne p place with rfl | hne
  · rw [Function.update_self]
    exact ⟨tma, dsm, rfl⟩
  · rw [Function.update_of_ne hne]
    exact ⟨_, _, rfl⟩

theorem Accounts.setPending (h : s.Accounts ctas) {tma dsm : Nat} :
    (s.setPending place tma dsm).Accounts ctas := by
  obtain ⟨slots, hframe⟩ : ∃ slots, s.setPending place tma dsm = { s with slots := slots } :=
    ⟨_, rfl⟩
  have hslots : ∀ p, ∃ tma' dsm', slots p =
      { s.slots p with tmaPending := tma', dsmPending := dsm' } := by
    intro p
    have hp := slots_setPending s place p tma dsm
    rw [hframe] at hp
    exact hp
  have hkernel : ∀ p, (slots p).kernel = (s.slots p).kernel := by
    intro p
    obtain ⟨_, _, hp⟩ := hslots p
    rw [hp]
  have hstatus : ∀ p, (slots p).status = (s.slots p).status := by
    intro p
    obtain ⟨_, _, hp⟩ := hslots p
    rw [hp]
  rw [hframe]
  constructor
  · intro p
    obtain ⟨_, _, hp⟩ := hslots p
    dsimp only
    rw [hp]
    exact h.active p
  · exact h.exist
  · intro p hout
    obtain ⟨_, _, hp⟩ := hslots p
    have hfree := h.free p hout
    dsimp only
    rw [hp]
    exact ⟨hfree.status, hfree.smem, hfree.group, hfree.pending⟩
  · intro p hin
    obtain ⟨_, _, hp⟩ := hslots p
    have hheld := h.held p hin
    dsimp only
    rw [hp]
    exact ⟨hheld.kernelUid, hheld.admitted, hheld.used, hheld.smem, hheld.pending, hheld.exited⟩
  · exact h.nActive
  · intro g c
    simp only [hstatus]
    exact h.threads g c
  · intro u
    simp only [hkernel]
    exact h.runs u
  · intro hconc p hin
    rw [hkernel]
    exact h.bound hconc p hin
  · exact h.boundRunning
  · exact h.unbound
  · intro p hin
    rw [hkernel]
    exact h.running p hin
  · exact h.distinct
  · exact h.launched
  · exact h.blocks
  · exact h.ranges

theorem Accounts.tick (h : s.Accounts ctas) :
    ({ s with now := s.now + 1 } : CtaGpu).Accounts ctas where
  active := h.active
  exist := h.exist
  free := h.free
  held p hp :=
    have hheld := h.held p hp
    { hheld with
      admitted := Nat.le_succ_of_le hheld.admitted
      exited := fun hzero => ⟨(hheld.exited hzero).1, Nat.le_succ_of_le (hheld.exited hzero).2⟩ }
  nActive := h.nActive
  threads := h.threads
  runs := h.runs
  bound := h.bound
  boundRunning := h.boundRunning
  unbound := h.unbound
  running := h.running
  distinct := h.distinct
  launched := h.launched
  blocks := h.blocks
  ranges := h.ranges

theorem launch_blocks (s : CtaGpu) (gridDim blockDim : Dim3) (smem regs : Nat)
    (cluster : Option Dim3) :
    ∃ k : KernelInfo, s.launch gridDim blockDim smem regs cluster =
        { s.setKernel s.nextKernelUid k with
          nextKernelUid := s.nextKernelUid + 1
          running := s.running ++ [s.nextKernelUid] } ∧
      k.numCoresRunning = 0 ∧ k.blockDim = blockDim := by
  unfold CtaGpu.launch
  cases cluster with
  | none => exact ⟨_, rfl, rfl, rfl⟩
  | some clusterDim => exact ⟨_, rfl, rfl, rfl⟩

theorem Accounts.launch (h : s.Accounts ctas) {gridDim blockDim : Dim3} {smem regs : Nat}
    {cluster : Option Dim3}
    (hvalid : 0 < u32 blockDim.prod ∧ u32 blockDim.prod ≤ s.config.nThreadPerShader) :
    (s.launch gridDim blockDim smem regs cluster).Accounts ctas := by
  obtain ⟨k, hk, hzero, hblock⟩ := launch_blocks s gridDim blockDim smem regs cluster
  have hfresh : s.nextKernelUid ∉ s.running := fun hin =>
    Nat.lt_irrefl _ (h.launched _ hin)
  have hnone : ∀ p ∈ ctas, (s.slots p).kernel ≠ s.nextKernelUid := fun p hp heq =>
    hfresh (heq ▸ h.running p hp)
  have hself : (s.launch gridDim blockDim smem regs cluster).kernels s.nextKernelUid = k := by
    rw [hk]
    exact Function.update_self _ _ _
  have hother : ∀ u ≠ s.nextKernelUid,
      (s.launch gridDim blockDim smem regs cluster).kernels u = s.kernels u := by
    intro u hu
    rw [hk]
    exact Function.update_of_ne hu _ _
  constructor
  · exact h.active
  · exact h.exist
  · exact h.free
  · exact h.held
  · exact h.nActive
  · exact h.threads
  · intro u
    rcases eq_or_ne u s.nextKernelUid with rfl | hne
    · rw [hself, hzero]
      symm
      rw [Finset.card_eq_zero, Finset.filter_eq_empty_iff]
      exact hnone
    · rw [hother u hne]
      exact h.runs u
  · exact h.bound
  · exact fun g c u hu => List.mem_append_left _ (h.boundRunning g c u hu)
  · exact h.unbound
  · exact fun p hp => List.mem_append_left _ (h.running p hp)
  · exact List.nodup_append.mpr ⟨h.distinct, List.nodup_singleton _, by
      rintro a ha b hb rfl
      exact hfresh (List.mem_singleton.mp hb ▸ ha)⟩
  · intro u hu
    rcases List.mem_append.mp hu with hu | hu
    · exact Nat.lt_succ_of_lt (h.launched u hu)
    · rw [List.mem_singleton.mp hu]
      exact Nat.lt_succ_self _
  · intro u hu
    rcases eq_or_ne u s.nextKernelUid with rfl | hne
    · rw [hself]
      unfold KernelInfo.threadsPerCta
      rw [hblock]
      exact hvalid
    · rw [hother u hne]
      rcases List.mem_append.mp hu with hu | hu
      · exact h.blocks u hu
      · exact absurd (List.mem_singleton.mp hu) hne
  · exact h.ranges

@[simp] theorem slots_setSlot (s : CtaGpu) (place : CtaPlace) (x : CtaSlot) :
    (s.setSlot place x).slots = Function.update s.slots place x := rfl

@[simp] theorem slots_setCore (s : CtaGpu) (gpc core : Nat) (c : ShaderCore) :
    (s.setCore gpc core c).slots = s.slots := rfl

theorem slots_exitThread (s : CtaGpu) (place : CtaPlace) : (s.exitThread place).slots =
    Function.update s.slots place
      { s.slots place with status := (s.slots place).status - 1 } := rfl

/-- A CTA that has more threads loses one of them. -/
theorem Accounts.exitThread (h : s.Accounts ctas) (hmore : 1 < (s.slots place).status) :
    (s.exitThread place).Accounts ctas := by
  have hp := h.live (Nat.lt_of_succ_lt hmore)
  have hheld := h.held place hp
  have hsum : (s.slots place).status ≤ (s.cores place.gpc place.core).notCompleted := by
    rw [h.threads]
    exact Finset.single_le_sum (f := fun p => (s.slots p).status) (fun _ _ => Nat.zero_le _)
      (mem_coreCtas.mpr ⟨hp, rfl, rfl⟩)
  have hy : ({ s.slots place with status := (s.slots place).status - 1 } : CtaSlot).Held s.now := by
    refine ⟨hheld.kernelUid, hheld.admitted, hheld.used, hheld.smem, ?_, fun hzero => ?_⟩
    · have hpending := hheld.pending
      rw [if_neg (by omega)] at hpending
      dsimp only
      rw [hpending, if_neg (by omega)]
    · dsimp only at hzero
      omega
  refine h.retouch hp hy ((h.active place).mp hp) rfl rfl rfl (slots_exitThread s place) ?_ ?_
    rfl rfl rfl
  · refine setCore_cases (fun g c x => x.nActiveCta = (s.cores g c).nActiveCta ∧
      x.kernel = (s.cores g c).kernel ∧ x.occupancy = (s.cores g c).occupancy) ?_ ?_
    · exact ⟨rfl, rfl, rfl⟩
    · exact fun _ _ _ => ⟨rfl, rfl, rfl⟩
  · refine setCore_cases (fun g c x => x.notCompleted +
      (if place.gpc = g ∧ place.core = c then (s.slots place).status else 0) =
        (s.cores g c).notCompleted + if place.gpc = g ∧ place.core = c then
          (s.slots place).status - 1 else 0) ?_ ?_
    · simp only [and_self, if_true]
      omega
    · intro g c hne
      have hne' : ¬ (place.gpc = g ∧ place.core = c) := fun heq => hne ⟨heq.1.symm, heq.2.symm⟩
      rw [if_neg hne', if_neg hne']
      rfl

/-- A CTA whose last thread is gone waits for its release. -/
def parked (s : CtaGpu) (place : CtaPlace) (pending : Bool) : CtaGpu :=
  ((s.exitThread place).noteThreadsExit place pending).deferRelease place (s.slots place).kernel

theorem slots_parked (s : CtaGpu) (place : CtaPlace) (pending : Bool) :
    (s.parked place pending).slots = Function.update s.slots place { s.slots place with
      status := (s.slots place).status - 1
      lifecycle := { (s.slots place).lifecycle with
        threadsExited := true
        threadsExitCycle := s.now
        pendingTma := pending }
      pendingRelease := some (s.slots place).kernel } := by
  unfold parked deferRelease noteThreadsExit CtaGpu.exitThread record
  simp
  rfl

theorem Accounts.parked (h : s.Accounts ctas) (hlast : (s.slots place).status = 1)
    (pending : Bool) : (s.parked place pending).Accounts ctas := by
  have hp : place ∈ ctas := h.live (by omega)
  have hheld := h.held place hp
  have hsum : (s.slots place).status ≤ (s.cores place.gpc place.core).notCompleted := by
    rw [h.threads]
    exact Finset.single_le_sum (f := fun p => (s.slots p).status) (fun _ _ => Nat.zero_le _)
      (mem_coreCtas.mpr ⟨hp, rfl, rfl⟩)
  refine h.retouch hp ?_ ?_ ?_ rfl rfl (slots_parked s place pending) ?_ ?_ rfl rfl rfl
  · refine ⟨hheld.kernelUid, hheld.admitted, hheld.used, hheld.smem, ?_, fun _ => ?_⟩
    · dsimp only
      rw [hlast]
      rfl
    · exact ⟨rfl, Nat.le_refl _⟩
  · exact (h.active place).mp hp
  · rfl
  · refine setCore_cases (fun g c x => x.nActiveCta = (s.cores g c).nActiveCta ∧
      x.kernel = (s.cores g c).kernel ∧ x.occupancy = (s.cores g c).occupancy) ?_ ?_
    · exact ⟨rfl, rfl, rfl⟩
    · exact fun _ _ _ => ⟨rfl, rfl, rfl⟩
  · refine setCore_cases (fun g c x => x.notCompleted +
      (if place.gpc = g ∧ place.core = c then (s.slots place).status else 0) =
        (s.cores g c).notCompleted + if place.gpc = g ∧ place.core = c then
          (s.slots place).status - 1 else 0) ?_ ?_
    · simp only [and_self, if_true]
      omega
    · intro g c hne
      have hne' : ¬ (place.gpc = g ∧ place.core = c) := fun heq => hne ⟨heq.1.symm, heq.2.symm⟩
      rw [if_neg hne', if_neg hne']
      rfl

/-- What the exit of a thread can do. -/
inductive ExitMoves (s : CtaGpu) (place : CtaPlace) : CtaGpu → Prop
  | more : 1 < (s.slots place).status → ExitMoves s place (s.exitThread place)
  | park : (s.slots place).status = 1 → (s.exitThread place).releaseBlocked place = true →
      ExitMoves s place (s.parked place true)
  | release {t : CtaGpu} : (s.slots place).status = 1 →
      (s.exitThread place).releaseBlocked place = false →
      Releases (s.parked place false) t place → ExitMoves s place t

/-- The entry of a parked CTA is taken out again before its release. -/
theorem unpark (hpending : (s.slots place).pendingRelease = none) (b : Bool) :
    (s.parked place b).setSlot place
        { (s.parked place b).slots place with pendingRelease := none } =
      (s.exitThread place).noteThreadsExit place b := by
  have hslot : { (s.parked place b).slots place with pendingRelease := none } =
      ((s.exitThread place).noteThreadsExit place b).slots place := by
    rw [slots_parked, Function.update_self]
    simp [noteThreadsExit, record, slots_exitThread, hpending]
    rfl
  rw [hslot]
  unfold parked deferRelease setSlot
  dsimp only
  rw [Function.update_idem, Function.update_eq_self]

theorem Accounts.registerCtaThreadExit (h : s.Accounts ctas)
    (hlive : 0 < (s.slots place).status) :
    ∃ t, s.registerCtaThreadExit place = .ok t ∧ ExitMoves s place t ∧
      (t.Accounts ctas ∨ t.Accounts (ctas.erase place)) := by
  have hp := h.live hlive
  have hheld := h.held place hp
  have hpending : (s.slots place).pendingRelease = none := by
    rw [hheld.pending, if_neg (by omega)]
  have hself : (s.exitThread place).slots place =
      { s.slots place with status := (s.slots place).status - 1 } := by
    rw [slots_exitThread, Function.update_self]
  unfold CtaGpu.registerCtaThreadExit
  rw [require_pass (decide_eq_true hlive)]
  dsimp only [bind, Except.bind]
  split
  · rename_i hzero
    have hlast : (s.slots place).status = 1 := by
      rw [hself] at hzero
      dsimp only at hzero
      omega
    have hparked := h.parked hlast
    have hpass : (((s.exitThread place).slots place).lifecycle.active = true) ∧
        ((s.exitThread place).slots place).lifecycle.kernelUid = (s.slots place).kernel := by
      rw [hself]
      exact ⟨(h.active place).mp hp, hheld.kernelUid⟩
    rw [require_pass hpass.1, require_pass (decide_eq_true hpass.2)]
    dsimp only
    cases hblocked : (s.exitThread place).releaseBlocked place with
    | true =>
      have hnone : (((s.exitThread place).noteThreadsExit place true).slots
          place).pendingRelease.isNone = true := by
        simp [noteThreadsExit, record, slots_exitThread, hpending]
      rw [if_pos rfl, require_pass hnone]
      exact ⟨_, rfl, .park hlast hblocked, .inl (hparked true)⟩
    | false =>
      rw [if_neg Bool.false_ne_true]
      have hstatus : ((s.parked place false).slots place).status = 0 := by
        rw [slots_parked, Function.update_self]
        dsimp only
        omega
      have hkernel : ((s.parked place false).slots place).kernel = (s.slots place).kernel := by
        rw [slots_parked, Function.update_self]
      obtain ⟨t, hok, ht, hrel⟩ := (hparked false).releaseFinishedCta hp hstatus
      rw [unpark hpending, hkernel] at hok
      exact ⟨t, hok, .release hlast hblocked hrel, .inr ht⟩
  · rename_i hzero
    have hmore : 1 < (s.slots place).status := by
      rw [hself] at hzero
      dsimp only at hzero
      omega
    exact ⟨_, rfl, .more hmore, .inl (h.exitThread hmore)⟩

/-- The polled releases of an SM, one after the other. -/
inductive Polls (gpc core : Nat) : List Nat → CtaGpu → CtaGpu → Prop
  | nil {s : CtaGpu} : Polls gpc core [] s s
  | cons {slot : Nat} {rest : List Nat} {s t u : CtaGpu} : Releases s t ⟨gpc, core, slot⟩ →
      Polls gpc core rest t u → Polls gpc core (slot :: rest) s u

theorem Accounts.releasePendings (h : s.Accounts ctas) {todo : List Nat} (hnodup : todo.Nodup)
    (hready : ∀ slot ∈ todo, ((s.slots ⟨gpc, core, slot⟩).pendingRelease).isSome) :
    ∃ t, todo.foldlM (fun s slot => s.releasePending gpc core slot) s = .ok t ∧
      Polls gpc core todo s t ∧ ∃ ctas', t.Accounts ctas' := by
  induction todo generalizing s ctas with
  | nil => exact ⟨s, rfl, .nil, ctas, h⟩
  | cons slot rest ih =>
    obtain ⟨hnot, hnodup⟩ := List.nodup_cons.mp hnodup
    obtain ⟨uid, huid⟩ := Option.isSome_iff_exists.mp (hready slot List.mem_cons_self)
    have hp : (⟨gpc, core, slot⟩ : CtaPlace) ∈ ctas := by
      by_contra hout
      rw [(h.free _ hout).pending] at huid
      cases huid
    have hpending := (h.held _ hp).pending
    have hzero : (s.slots ⟨gpc, core, slot⟩).status = 0 := by
      by_contra hne
      rw [huid, if_neg hne] at hpending
      cases hpending
    have hkernel : uid = (s.slots ⟨gpc, core, slot⟩).kernel := by
      rw [huid, if_pos hzero] at hpending
      exact Option.some.inj hpending
    obtain ⟨t, hok, ht, hrel⟩ := h.releaseFinishedCta hp hzero
    have hstep : s.releasePending gpc core slot = .ok t := by
      unfold releasePending
      dsimp only
      rw [huid]
      rw [hkernel]
      exact hok
    obtain ⟨u, hfold, hpolls, hu⟩ := ih ht hnodup fun slot' hin => by
      have hne : (⟨gpc, core, slot'⟩ : CtaPlace) ≠ ⟨gpc, core, slot⟩ := by
        intro heq
        cases heq
        exact hnot hin
      rw [hrel.slots, Function.update_of_ne hne]
      exact hready slot' (List.mem_cons_of_mem _ hin)
    refine ⟨u, ?_, .cons hrel hpolls, hu⟩
    rw [List.foldlM_cons, hstep]
    exact hfold

/-- The contexts that a poll releases. -/
def pollReady (s : CtaGpu) (gpc core : Nat) : List Nat :=
  (s.pendingReleases gpc core).filter fun slot => !s.releaseBlocked ⟨gpc, core, slot⟩

theorem Accounts.releasePendingTmaCtas (h : s.Accounts ctas) :
    ∃ t, s.releasePendingTmaCtas gpc core = .ok t ∧
      Polls gpc core (s.pollReady gpc core) s t ∧ ∃ ctas', t.Accounts ctas' := by
  apply h.releasePendings
  · exact (List.nodup_range.filter _).filter _
  · intro slot hslot
    obtain ⟨hin, -⟩ := List.mem_filter.mp hslot
    exact (List.mem_filter.mp hin).2

theorem config_limit (config : CtaConfig) (uid : Nat) : config.ctaLimit uid ≤ maxCtaPerShader := by
  unfold CtaConfig.ctaLimit
  split
  · exact config.maxCtaPerCore_le
  · exact config.maxCta_le uid

/-- A ready context belongs to no CTA. -/
theorem Accounts.ready_free (h : s.Accounts ctas)
    (hready : (s.slots place).contextReady s.now = true) : place ∉ ctas := by
  intro hp
  have hpending := (h.held place hp).pending
  unfold CtaSlot.contextReady at hready
  simp only [Bool.and_eq_true, decide_eq_true_eq, Option.isNone_iff_eq_none] at hready
  rw [if_pos hready.1.1, hready.1.2] at hpending
  cases hpending

/-- On an SM that is ready for a kernel the issue of a CTA passes every assertion. -/
theorem Accounts.issueCta (h : s.Accounts ctas) (hready : s.IssueReady gpc core uid)
    (hgpc : gpc < s.config.numGpcs) (forceGroup groupSize : Nat) :
    ∃ slot occupancy t, s.issueCta gpc core uid forceGroup groupSize = .ok t ∧
      t = s.takeContext ⟨gpc, core, slot⟩ uid forceGroup groupSize occupancy ∧
      (⟨gpc, core, slot⟩ : CtaPlace) ∉ ctas ∧
      (s.slots ⟨gpc, core, slot⟩).contextReady s.now = true ∧
      t.Accounts (insert ⟨gpc, core, slot⟩ ctas) := by
  have hcan := hready.can
  unfold canIssue1block at hcan
  rw [Bool.and_eq_true] at hcan
  obtain ⟨slot, hslot⟩ := Option.isSome_iff_exists.mp hcan.1
  obtain ⟨hlimit, hcontext⟩ := readyContext_some hslot
  have hnew := h.ready_free hcontext
  have hexist : s.Exists ⟨gpc, core, slot⟩ :=
    ⟨hgpc, hready.exist, Nat.lt_of_lt_of_le hlimit (config_limit s.config uid)⟩
  have hinactive : (s.slots ⟨gpc, core, slot⟩).lifecycle.active = false := by
    cases hactive : (s.slots ⟨gpc, core, slot⟩).lifecycle.active with
    | false => rfl
    | true => exact absurd ((h.active _).mpr hactive) hnew
  obtain ⟨occupancy, hocc⟩ : ∃ o, s.occupyResources gpc core slot uid = .ok o := by
    unfold occupyResources
    dsimp only
    split
    · rename_i hconc
      have hfits := hcan.2
      rw [if_pos hconc, Bool.and_eq_true] at hfits
      have hrange : ((s.cores gpc core).occupancy.findAvailableHwtid s.config
          (s.config.paddedCtaSize (s.kernels uid))).isSome := by
        have hall := hfits.2
        unfold Occupancy.fits at hall
        simp only [Bool.and_eq_true] at hall
        exact hall.1.1.1.2
      obtain ⟨start, hstart⟩ := Option.isSome_iff_exists.mp hrange
      have hnone : ((s.cores gpc core).occupancy.ctaToHwtid slot).isNone = true := by
        cases htaken : (s.cores gpc core).occupancy.ctaToHwtid slot with
        | none => rfl
        | some x => exact absurd (h.ranges gpc core slot (by rw [htaken]; rfl)).2 hnew
      rw [require_pass hfits.2, hstart]
      dsimp only [bind, Except.bind]
      rw [require_pass hnone]
      exact ⟨_, rfl⟩
    · exact ⟨_, rfl⟩
  obtain ⟨hpos, hsmall⟩ := h.blocks uid hready.running
  have hmore : (s.kernels uid).noMoreCtasToRun = false := by
    have hleft := hready.more
    unfold kernelMoreCtaLeft at hleft
    simp only [Option.any_some, Bool.and_eq_true, Bool.not_eq_true'] at hleft
    exact hleft.2
  refine ⟨slot, occupancy, _, ?_, rfl, hnew, hcontext,
    h.takeContext hexist hnew hready hocc hpos⟩
  unfold CtaGpu.issueCta
  dsimp only
  rw [hslot]
  dsimp only
  rw [hocc, hinactive, hmore]
  dsimp only [bind, Except.bind]
  rw [require_pass (show (!false) = true from rfl)]
  dsimp only
  rw [require_pass (by simp [hpos, hsmall])]
  rfl

theorem Accounts.setIssueNextCore (h : s.Accounts ctas) :
    (s.setIssueNextCore gpc core).Accounts ctas :=
  h.congr rfl rfl rfl rfl rfl rfl fun _ => ⟨rfl, rfl⟩

theorem Accounts.setKernel (h : s.Accounts ctas) {k : KernelInfo}
    (hruns : k.numCoresRunning = (s.kernels uid).numCoresRunning)
    (hblock : k.threadsPerCta = (s.kernels uid).threadsPerCta) :
    (s.setKernel uid k).Accounts ctas := by
  refine h.congr rfl rfl rfl rfl rfl rfl fun u => ?_
  unfold CtaGpu.setKernel
  dsimp only
  rcases eq_or_ne u uid with rfl | hne
  · rw [Function.update_self]
    exact ⟨hruns, hblock⟩
  · rw [Function.update_of_ne hne]
    exact ⟨rfl, rfl⟩

/-- Some CTAs are in the books. -/
def Kept (s : CtaGpu) : Prop := ∃ ctas, s.Accounts ctas

/-- The moves of the issue path keep the books, and no assertion stops them. -/
theorem accounts_issueRules : IssueRules Kept (fun uid _ _ s => s.Kept ∧ uid ∈ s.running)
    (fun _ => False) where
  boundRunning := fun _ ⟨_, h⟩ => h.boundRunning
  binds := fun _ _ ⟨ctas, h⟩ ht => ⟨ctas, h.binds ht⟩
  launched := fun _ _ _ ⟨ctas, h⟩ => ⟨ctas, h.congr rfl rfl rfl rfl rfl rfl fun _ => ⟨rfl, rfl⟩⟩
  ordinary := by
    rintro s gpc core uid ⟨ctas, h⟩ hgpc hready -
    obtain ⟨slot, _, t, hok, -, -, -, ht⟩ := h.issueCta hready hgpc noGroup 0
    rw [hok]
    exact ⟨_, ht.setIssueNextCore⟩
  clusterBinds := by
    rintro s t uid - - ⟨⟨ctas, h⟩, hrun⟩ ht
    refine ⟨⟨ctas, h.binds ht⟩, ?_⟩
    obtain ⟨_, rfl⟩ := ht.frame
    exact hrun
  resume := fun _ _ h hrun _ _ => ⟨h, hrun⟩
  running := fun _ _ _ _ h => h.2
  clusterIssue := by
    rintro s gpc core uid group n r ⟨⟨ctas, h⟩, hrun⟩ hgpc hready
    obtain ⟨slot, _, t, hok, rfl, -, -, ht⟩ := h.issueCta hready hgpc group (s.issueGroupSize uid)
    rw [hok]
    exact ⟨⟨_, ht.setIssueNextCore⟩, hrun⟩
  consume := fun _ _ _ _ _ ⟨⟨ctas, h⟩, hrun⟩ => ⟨⟨ctas, h.setKernel rfl rfl⟩, hrun⟩
  suspend := fun _ _ _ _ _ h => h.1
  reserve := fun _ _ _ _ _ ⟨ctas, h⟩ hrun _ _ _ _ _ =>
    ⟨⟨ctas, h.congr rfl rfl rfl rfl rfl rfl fun _ => ⟨rfl, rfl⟩⟩, hrun⟩
  leak := fun _ _ _ _ h => h.1
  keepOpen := fun _ _ _ _ _ ⟨⟨ctas, h⟩, _⟩ _ => ⟨ctas, h.setKernel rfl rfl⟩

/-- No operation fails, and every one keeps the books. -/
theorem Kept.step (h : s.Kept) {op : CtaOp} (hvalid : s.Valid op) :
    ∃ t, s.step op = .ok t ∧ t.Kept := by
  obtain ⟨ctas, h⟩ := h
  cases op with
  | launch gridDim blockDim smem regs cluster => exact ⟨_, rfl, ctas, h.launch hvalid⟩
  | issue cluster select =>
    obtain ⟨t, hok, ht, -⟩ := (accounts_issueRules.issueBlock2core ⟨ctas, h⟩).exists_ok
    exact ⟨t, hok, ht⟩
  | threadExit place =>
    obtain ⟨t, hok, -, ht⟩ := h.registerCtaThreadExit hvalid.2
    exact ⟨t, hok, ht.elim (fun h => ⟨_, h⟩) fun h => ⟨_, h⟩⟩
  | cycle gpc core =>
    obtain ⟨t, hok, -, ht⟩ := h.releasePendingTmaCtas
    exact ⟨t, hok, ht⟩
  | tick => exact ⟨_, rfl, ctas, h.tick⟩
  | tmaStart place => exact ⟨_, rfl, ctas, h.setPending⟩
  | tmaDone place => exact ⟨_, rfl, ctas, h.setPending⟩
  | dsmStart place => exact ⟨_, rfl, ctas, h.setPending⟩
  | dsmDone place => exact ⟨_, rfl, ctas, h.setPending⟩

end CtaGpu

end FlashGpuSim
