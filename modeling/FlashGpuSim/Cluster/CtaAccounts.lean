import FlashGpuSim.Cluster.CtaMoves
import Mathlib.Algebra.BigOperators.Group.Finset.Basic
import Mathlib.Algebra.Order.BigOperators.Group.Finset

/-!
The books of the CTA contexts: the CTAs that were admitted and not released, and the counters of
the SMs and of the kernels that follow them. No assertion of the issue path or of the release
path fails while they are kept.
-/

namespace FlashGpuSim

open Lib

/-- The context of a CTA that was admitted and not released, at the time `now`. -/
structure CtaSlot.Held (slot : CtaSlot) (now : Nat) : Prop where
  kernelUid : slot.lifecycle.kernelUid = slot.kernel
  admitted : slot.lifecycle.admitCycle ≤ now
  used : slot.lifecycle.everUsed = true
  smem : slot.smem.isSome
  pending : slot.pendingRelease = if slot.status = 0 then some slot.kernel else none
  exited : slot.status = 0 →
    slot.lifecycle.threadsExited = true ∧ slot.lifecycle.threadsExitCycle ≤ now

/-- The context of no CTA. -/
structure CtaSlot.Free (slot : CtaSlot) : Prop where
  status : slot.status = 0
  smem : slot.smem = none
  group : slot.group = noGroup
  pending : slot.pendingRelease = none

/-- The CTAs of an SM. -/
def coreCtas (ctas : Finset CtaPlace) (gpc core : Nat) : Finset CtaPlace :=
  ctas.filter fun p => p.gpc = gpc ∧ p.core = core

namespace CtaGpu

/-- `ctas` are the CTAs that were admitted and not released. -/
structure Accounts (s : CtaGpu) (ctas : Finset CtaPlace) : Prop where
  active : ∀ p, p ∈ ctas ↔ (s.slots p).lifecycle.active = true
  exist : ∀ p ∈ ctas, s.Exists p
  free : ∀ p ∉ ctas, (s.slots p).Free
  held : ∀ p ∈ ctas, (s.slots p).Held s.now
  nActive : ∀ gpc core, (s.cores gpc core).nActiveCta = (coreCtas ctas gpc core).card
  threads : ∀ gpc core, (s.cores gpc core).notCompleted =
    ∑ p ∈ coreCtas ctas gpc core, (s.slots p).status
  runs : ∀ uid, (s.kernels uid).numCoresRunning =
    (ctas.filter fun p => (s.slots p).kernel = uid).card
  bound : s.config.concurrentKernelSm = false →
    ∀ p ∈ ctas, (s.cores p.gpc p.core).kernel = some (s.slots p).kernel
  boundRunning : s.BoundRunning
  unbound : s.config.concurrentKernelSm = true → ∀ gpc core, (s.cores gpc core).kernel = none
  running : ∀ p ∈ ctas, (s.slots p).kernel ∈ s.running
  distinct : s.running.Nodup
  launched : ∀ uid ∈ s.running, uid < s.nextKernelUid
  blocks : ∀ uid ∈ s.running, 0 < (s.kernels uid).threadsPerCta ∧
    (s.kernels uid).threadsPerCta ≤ s.config.nThreadPerShader
  ranges : ∀ gpc core slot, ((s.cores gpc core).occupancy.ctaToHwtid slot).isSome →
    s.config.concurrentKernelSm = true ∧ (⟨gpc, core, slot⟩ : CtaPlace) ∈ ctas

variable {s t : CtaGpu} {ctas : Finset CtaPlace} {gpc core slot uid : Nat} {place : CtaPlace}

theorem mem_coreCtas {p : CtaPlace} :
    p ∈ coreCtas ctas gpc core ↔ p ∈ ctas ∧ p.gpc = gpc ∧ p.core = core := by
  simp [coreCtas]

theorem accounts_init (config : CtaConfig) : (init config).Accounts ∅ where
  active p := by simp [init]
  exist p hp := by simp at hp
  free p _ := ⟨rfl, rfl, rfl, rfl⟩
  held p hp := by simp at hp
  nActive gpc core := rfl
  threads gpc core := rfl
  runs uid := rfl
  bound _ p hp := by simp at hp
  boundRunning gpc core uid h := by cases h
  unbound _ gpc core := rfl
  running p hp := by simp at hp
  distinct := List.nodup_nil
  launched uid h := by cases h
  blocks uid h := by cases h
  ranges gpc core slot h := by cases h

/-- An SM without threads and without CTAs to release has no CTA. -/
theorem Accounts.idle (h : s.Accounts ctas) (hidle : s.getNotCompleted gpc core = 0) :
    coreCtas ctas gpc core = ∅ := by
  unfold getNotCompleted at hidle
  rw [h.threads] at hidle
  have hstatus : ∑ p ∈ coreCtas ctas gpc core, (s.slots p).status = 0 := by omega
  have hpending : s.pendingReleases gpc core = [] := by
    by_contra hne
    rw [if_neg hne] at hidle
    omega
  rw [Finset.sum_eq_zero_iff] at hstatus
  rw [Finset.eq_empty_iff_forall_notMem]
  intro p hp
  obtain ⟨hin, rfl, rfl⟩ := mem_coreCtas.mp hp
  have hslot : p.slot ∉ s.pendingReleases p.gpc p.core := by
    rw [hpending]
    exact List.not_mem_nil
  apply hslot
  apply List.mem_filter.mpr
  refine ⟨List.mem_range.mpr (h.exist p hin).2.2, ?_⟩
  have hp0 := (h.held p hin).pending
  rw [if_pos (hstatus p hp)] at hp0
  exact Option.isSome_iff_exists.mpr ⟨_, hp0⟩

/-- What does not touch the contexts, the SMs and the counts of the kernels keeps the books. -/
theorem Accounts.congr (h : s.Accounts ctas) (hconfig : t.config = s.config)
    (hnow : t.now = s.now) (hslots : t.slots = s.slots) (hcores : t.cores = s.cores)
    (hrunning : t.running = s.running) (hnext : t.nextKernelUid = s.nextKernelUid)
    (hkernels : ∀ uid, (t.kernels uid).numCoresRunning = (s.kernels uid).numCoresRunning ∧
      (t.kernels uid).threadsPerCta = (s.kernels uid).threadsPerCta) : t.Accounts ctas := by
  have hexist : ∀ p, t.Exists p ↔ s.Exists p := by
    intro p
    unfold Exists
    rw [hconfig]
  constructor
  · rw [hslots]
    exact h.active
  · exact fun p hp => (hexist p).mpr (h.exist p hp)
  · rw [hslots]
    exact h.free
  · rw [hslots, hnow]
    exact h.held
  · rw [hcores]
    exact h.nActive
  · rw [hcores, hslots]
    exact h.threads
  · intro uid
    rw [(hkernels uid).1, hslots]
    exact h.runs uid
  · rw [hconfig, hcores, hslots]
    exact h.bound
  · unfold BoundRunning
    rw [hcores, hrunning]
    exact h.boundRunning
  · rw [hconfig, hcores]
    exact h.unbound
  · rw [hslots, hrunning]
    exact h.running
  · rw [hrunning]
    exact h.distinct
  · rw [hrunning, hnext]
    exact h.launched
  · intro uid huid
    rw [hrunning] at huid
    rw [(hkernels uid).2, hconfig]
    exact h.blocks uid huid
  · rw [hcores, hconfig]
    exact h.ranges

theorem setCore_same {c : ShaderCore} : (s.setCore gpc core c).cores gpc core = c := by
  simp [setCore]

theorem setCore_other {c : ShaderCore} {gpc' core' : Nat} (h : ¬ (gpc' = gpc ∧ core' = core)) :
    (s.setCore gpc core c).cores gpc' core' = s.cores gpc' core' := if_neg h

/-- A change of one SM is visible at that SM only. -/
theorem setCore_cases {c : ShaderCore} (P : Nat → Nat → ShaderCore → Prop)
    (hsame : P gpc core c)
    (hother : ∀ gpc' core', ¬ (gpc' = gpc ∧ core' = core) → P gpc' core' (s.cores gpc' core'))
    (gpc' core' : Nat) : P gpc' core' ((s.setCore gpc core c).cores gpc' core') := by
  by_cases heq : gpc' = gpc ∧ core' = core
  · obtain ⟨rfl, rfl⟩ := heq
    rw [setCore_same]
    exact hsame
  · rw [setCore_other heq]
    exact hother gpc' core' heq

theorem Accounts.bindKernel (h : s.Accounts ctas) (hconc : s.config.concurrentKernelSm = false)
    (hidle : s.getNotCompleted gpc core = 0) (hrun : uid ∈ s.running) :
    (s.bindKernel gpc core uid).Accounts ctas := by
  have hempty := h.idle hidle
  unfold CtaGpu.bindKernel
  constructor
  · exact h.active
  · exact h.exist
  · exact h.free
  · exact h.held
  · exact setCore_cases (fun g c x => x.nActiveCta = (coreCtas ctas g c).card) (h.nActive _ _)
      fun _ _ _ => h.nActive _ _
  · exact setCore_cases (fun g c x => x.notCompleted = ∑ p ∈ coreCtas ctas g c, (s.slots p).status)
      (h.threads _ _) fun _ _ _ => h.threads _ _
  · exact h.runs
  · intro _ p hp
    have hne : ¬ (p.gpc = gpc ∧ p.core = core) := by
      intro heq
      have hin := mem_coreCtas.mpr ⟨hp, heq⟩
      rw [hempty] at hin
      exact Finset.notMem_empty p hin
    rw [setCore_other hne]
    exact h.bound hconc p hp
  · refine fun g c => setCore_cases (fun g c x => ∀ uid, x.kernel = some uid → uid ∈ s.running)
      ?_ (fun _ _ _ => h.boundRunning _ _) g c
    intro uid' heq
    cases heq
    exact hrun
  · intro hconc'
    have hfalse := hconc.symm.trans hconc'
    cases hfalse
  · exact h.running
  · exact h.distinct
  · exact h.launched
  · exact h.blocks
  · refine fun g c => setCore_cases (fun g c x => ∀ slot, (x.occupancy.ctaToHwtid slot).isSome →
      s.config.concurrentKernelSm = true ∧ (⟨g, c, slot⟩ : CtaPlace) ∈ ctas) ?_ ?_ g c
    · exact h.ranges gpc core
    · exact fun g c _ => h.ranges g c

theorem Accounts.binds (h : s.Accounts ctas) (hbinds : Binds s t) : t.Accounts ctas := by
  induction hbinds with
  | refl => exact h
  | step _ hconc hidle hrun ih => exact ih.bindKernel hconc hidle hrun

/-- What the admission of a CTA does to the counts over the CTAs of an SM. -/
theorem coreCtas_insert {p : CtaPlace} :
    coreCtas (insert p ctas) gpc core =
      if p.gpc = gpc ∧ p.core = core then insert p (coreCtas ctas gpc core)
      else coreCtas ctas gpc core := Finset.filter_insert _ _ _

theorem coreCtas_erase {p : CtaPlace} :
    coreCtas (ctas.erase p) gpc core = (coreCtas ctas gpc core).erase p :=
  Finset.filter_erase _ _ _

theorem occupyResources_ranges {occupancy : Occupancy}
    (h : s.occupyResources gpc core slot uid = .ok occupancy) (x : Nat)
    (hx : (occupancy.ctaToHwtid x).isSome) :
    (s.config.concurrentKernelSm = true ∧ x = slot) ∨
      ((s.cores gpc core).occupancy.ctaToHwtid x).isSome := by
  unfold occupyResources at h
  dsimp only at h
  split at h
  · rename_i hconc
    obtain ⟨_, -, h⟩ := bind_eq_ok h
    split at h
    · cases h
    · obtain ⟨_, -, h⟩ := bind_eq_ok h
      cases h
      rcases eq_or_ne x slot with heq | hne
      · exact .inl ⟨hconc, heq⟩
      · refine .inr ?_
        simpa [Occupancy.setHwtid, Occupancy.occupy, Function.update_of_ne hne] using hx
  · cases h
    exact .inr hx

/-- A CTA of a ready kernel takes a free context. -/
theorem Accounts.admission (h : s.Accounts ctas) {x : CtaSlot} {c : ShaderCore} {k : KernelInfo}
    (hexist : s.Exists place) (hnew : place ∉ ctas)
    (hready : s.IssueReady place.gpc place.core uid) (hx : x.Held s.now)
    (hactive : x.lifecycle.active = true) (hkernel : x.kernel = uid)
    (hbound : c.kernel = (s.cores place.gpc place.core).kernel)
    (hcount : c.nActiveCta = (s.cores place.gpc place.core).nActiveCta + 1)
    (hthreads : c.notCompleted = (s.cores place.gpc place.core).notCompleted + x.status)
    (hranges : ∀ i, (c.occupancy.ctaToHwtid i).isSome →
      (s.config.concurrentKernelSm = true ∧ i = place.slot) ∨ ((s.cores place.gpc place.core).occupancy.ctaToHwtid i).isSome)
    (hruns : k.numCoresRunning = (s.kernels uid).numCoresRunning + 1)
    (hblocks : k.threadsPerCta = (s.kernels uid).threadsPerCta)
    (hconfig : t.config = s.config) (hnow : t.now = s.now)
    (hslots : t.slots = Function.update s.slots place x)
    (hcores : t.cores = (s.setCore place.gpc place.core c).cores)
    (hkernels : t.kernels = Function.update s.kernels uid k)
    (hrunning : t.running = s.running) (hnext : t.nextKernelUid = s.nextKernelUid) :
    t.Accounts (insert place ctas) := by
  have hself : t.slots place = x := by rw [hslots, Function.update_self]
  have hslot : ∀ p ≠ place, t.slots p = s.slots p := fun p hp => by
    rw [hslots, Function.update_of_ne hp]
  have hold : ∀ p ∈ ctas, t.slots p = s.slots p := fun p hp =>
    hslot p fun heq => hnew (heq ▸ hp)
  have hexist' : ∀ p, t.Exists p ↔ s.Exists p := fun p => by
    unfold Exists
    rw [hconfig]
  constructor
  · intro p
    rcases eq_or_ne p place with rfl | hne
    · simp [hself, hactive]
    · rw [Finset.mem_insert, hslot p hne, ← h.active p]
      exact ⟨fun hin => hin.resolve_left hne, .inr⟩
  · intro p hp
    rw [hexist']
    rcases Finset.mem_insert.mp hp with rfl | hp
    · exact hexist
    · exact h.exist p hp
  · intro p hp
    rw [Finset.mem_insert, not_or] at hp
    rw [hslot p hp.1]
    exact h.free p hp.2
  · intro p hp
    rw [hnow]
    rcases Finset.mem_insert.mp hp with rfl | hp
    · rw [hself]
      exact hx
    · rw [hold p hp]
      exact h.held p hp
  · rw [hcores]
    refine setCore_cases
      (fun g c x => x.nActiveCta = (coreCtas (insert place ctas) g c).card) ?_ ?_
    · rw [hcount, coreCtas_insert, if_pos ⟨rfl, rfl⟩, Finset.card_insert_of_notMem, h.nActive]
      exact fun hin => hnew (mem_coreCtas.mp hin).1
    · intro g' c' hne
      rw [coreCtas_insert, if_neg (fun heq => hne ⟨heq.1.symm, heq.2.symm⟩)]
      exact h.nActive g' c'
  · have hsum : ∀ g' c', ∑ p ∈ coreCtas ctas g' c', (t.slots p).status =
        ∑ p ∈ coreCtas ctas g' c', (s.slots p).status := fun g' c' =>
      Finset.sum_congr rfl fun p hp => by rw [hold p (mem_coreCtas.mp hp).1]
    rw [hcores]
    refine setCore_cases (fun g c x => x.notCompleted =
      ∑ p ∈ coreCtas (insert place ctas) g c, (t.slots p).status) ?_ ?_
    · rw [hthreads, coreCtas_insert, if_pos ⟨rfl, rfl⟩, Finset.sum_insert, hsum, ← h.threads,
        hself]
      · exact Nat.add_comm _ _
      · exact fun hin => hnew (mem_coreCtas.mp hin).1
    · intro g' c' hne
      rw [coreCtas_insert, if_neg (fun heq => hne ⟨heq.1.symm, heq.2.symm⟩), hsum]
      exact h.threads g' c'
  · intro uid'
    have hfilter : (ctas.filter fun p => (t.slots p).kernel = uid') =
        ctas.filter fun p => (s.slots p).kernel = uid' :=
      Finset.filter_congr fun p hp => by rw [hold p hp]
    rw [hkernels, Finset.filter_insert, hfilter, hself, hkernel]
    rcases eq_or_ne uid uid' with rfl | hne
    · rw [Function.update_self, if_pos rfl, Finset.card_insert_of_notMem, ← h.runs]
      · exact hruns
      · exact fun hin => hnew (Finset.mem_filter.mp hin).1
    · rw [Function.update_of_ne hne.symm, if_neg hne]
      exact h.runs uid'
  · intro hconc p hp
    rw [hconfig] at hconc
    rw [hcores]
    refine setCore_cases (fun g c x => g = p.gpc → c = p.core → x.kernel = some (t.slots p).kernel)
      ?_ ?_ p.gpc p.core rfl rfl
    · intro hgpc hcore
      rw [hbound]
      rcases Finset.mem_insert.mp hp with rfl | hp
      · rw [hself, hkernel]
        exact hready.bound hconc
      · rw [hold p hp, hgpc, hcore]
        exact h.bound hconc p hp
    · rintro g' c' hne rfl rfl
      have hp := (Finset.mem_insert.mp hp).resolve_left fun heq => hne ⟨heq ▸ rfl, heq ▸ rfl⟩
      rw [hold p hp]
      exact h.bound hconc p hp
  · unfold BoundRunning
    rw [hcores, hrunning]
    refine setCore_cases (fun g c x => ∀ uid, x.kernel = some uid → uid ∈ s.running) ?_ ?_
    · rw [hbound]
      exact h.boundRunning place.gpc place.core
    · exact fun g c _ => h.boundRunning g c
  · intro hconc
    rw [hconfig] at hconc
    rw [hcores]
    refine setCore_cases (fun _ _ x => x.kernel = none) ?_ fun g c _ => h.unbound hconc g c
    rw [hbound]
    exact h.unbound hconc place.gpc place.core
  · intro p hp
    rw [hrunning]
    rcases Finset.mem_insert.mp hp with rfl | hp
    · rw [hself, hkernel]
      exact hready.running
    · rw [hold p hp]
      exact h.running p hp
  · rw [hrunning]
    exact h.distinct
  · rw [hrunning, hnext]
    exact h.launched
  · intro uid' huid
    rw [hrunning] at huid
    rw [hkernels, hconfig]
    rcases eq_or_ne uid' uid with rfl | hne
    · rw [Function.update_self, hblocks]
      exact h.blocks uid' huid
    · rw [Function.update_of_ne hne]
      exact h.blocks uid' huid
  · have hkeep : ∀ g c i, ((s.cores g c).occupancy.ctaToHwtid i).isSome →
        s.config.concurrentKernelSm = true ∧ (⟨g, c, i⟩ : CtaPlace) ∈ insert place ctas :=
      fun g c i hi => ⟨(h.ranges g c i hi).1, Finset.mem_insert_of_mem (h.ranges g c i hi).2⟩
    rw [hcores, hconfig]
    refine setCore_cases (fun g c x => ∀ slot, (x.occupancy.ctaToHwtid slot).isSome →
      s.config.concurrentKernelSm = true ∧ (⟨g, c, slot⟩ : CtaPlace) ∈ insert place ctas) ?_ ?_
    · intro i hi
      rcases hranges i hi with ⟨hconc, rfl⟩ | hi
      · exact ⟨hconc, Finset.mem_insert_self _ _⟩
      · exact hkeep _ _ i hi
    · exact fun g c _ i hi => hkeep g c i hi

theorem Accounts.takeContext (h : s.Accounts ctas) {forceGroup groupSize : Nat}
    {occupancy : Occupancy} (hexist : s.Exists place) (hnew : place ∉ ctas)
    (hready : s.IssueReady place.gpc place.core uid)
    (hocc : s.occupyResources place.gpc place.core place.slot uid = .ok occupancy)
    (hthreads : 0 < (s.kernels uid).threadsPerCta) :
    (s.takeContext place uid forceGroup groupSize occupancy).Accounts (insert place ctas) := by
  have hheld : ∀ group, (s.admitted place uid group).Held s.now := by
    intro group
    refine ⟨rfl, Nat.le_refl _, rfl, rfl, ?_, fun hzero => ?_⟩
    · have hpending := (h.free place hnew).pending
      have hne : (s.kernels uid).threadsPerCta ≠ 0 := by omega
      simp [admitted, hpending, hne]
    · have hzero : (s.kernels uid).threadsPerCta = 0 := hzero
      omega
  refine h.admission hexist hnew hready (hheld _) rfl rfl ?_ ?_ ?_ ?_ ?_ ?_ rfl rfl rfl rfl rfl rfl rfl
  · rfl
  · rfl
  · rfl
  · exact fun i hi => occupyResources_ranges hocc i hi
  · rfl
  · rfl

/-- A CTA leaves its context. SMs may lose their kernel when they have no CTA left, and the
kernel may end when none of its CTAs is left. -/
theorem Accounts.dismiss (h : s.Accounts ctas) {y : CtaSlot} (hp : place ∈ ctas)
    (hfree : y.Free) (hactive : y.lifecycle.active = false)
    (hstatus : (s.slots place).status = 0)
    (hcount : ∀ g c, (t.cores g c).nActiveCta = if place.gpc = g ∧ place.core = c then
      (s.cores g c).nActiveCta - 1 else (s.cores g c).nActiveCta)
    (hthreads : ∀ g c, (t.cores g c).notCompleted = (s.cores g c).notCompleted)
    (hkernel : ∀ g c, (t.cores g c).kernel = (s.cores g c).kernel ∨
      (t.cores g c).kernel = none ∧ coreCtas (ctas.erase place) g c = ∅)
    (hranges : ∀ g c i, ((t.cores g c).occupancy.ctaToHwtid i).isSome →
      ((s.cores g c).occupancy.ctaToHwtid i).isSome ∧ (⟨g, c, i⟩ : CtaPlace) ≠ place)
    (hruns : ∀ u, (t.kernels u).numCoresRunning = if (s.slots place).kernel = u then
      (s.kernels u).numCoresRunning - 1 else (s.kernels u).numCoresRunning)
    (hblocks : ∀ u, (t.kernels u).threadsPerCta = (s.kernels u).threadsPerCta)
    (hconfig : t.config = s.config) (hnow : t.now = s.now)
    (hslots : t.slots = Function.update s.slots place y)
    (hrunning : t.running = s.running ∨ t.running = s.running.erase (s.slots place).kernel ∧
      (∀ p ∈ ctas.erase place, (s.slots p).kernel ≠ (s.slots place).kernel) ∧
      ∀ g c, (t.cores g c).kernel ≠ some (s.slots place).kernel)
    (hnext : t.nextKernelUid = s.nextKernelUid) :
    t.Accounts (ctas.erase place) := by
  have hself : t.slots place = y := by rw [hslots, Function.update_self]
  have hslot : ∀ p ≠ place, t.slots p = s.slots p := fun p hp => by
    rw [hslots, Function.update_of_ne hp]
  have hold : ∀ p ∈ ctas.erase place, t.slots p = s.slots p := fun p hp =>
    hslot p (Finset.ne_of_mem_erase hp)
  have hin : ∀ p ∈ ctas.erase place, p ∈ ctas := fun p hp => Finset.mem_of_mem_erase hp
  have hrun : ∀ u ∈ t.running, u ∈ s.running := by
    rcases hrunning with heq | ⟨heq, -⟩
    · rw [heq]
      exact fun _ hu => hu
    · rw [heq]
      exact fun _ hu => List.mem_of_mem_erase hu
  constructor
  · intro p
    rcases eq_or_ne p place with rfl | hne
    · simp [hself, hactive]
    · rw [hslot p hne, ← h.active p, Finset.mem_erase, and_iff_right hne]
  · intro p hp
    unfold Exists
    rw [hconfig]
    exact h.exist p (hin p hp)
  · intro p hp
    rcases eq_or_ne p place with rfl | hne
    · rw [hself]
      exact hfree
    · rw [hslot p hne]
      exact h.free p fun hin => hp (Finset.mem_erase.mpr ⟨hne, hin⟩)
  · intro p hp
    rw [hold p hp, hnow]
    exact h.held p (hin p hp)
  · intro g c
    rw [hcount, h.nActive, coreCtas_erase]
    split
    · rename_i heq
      rw [Finset.card_erase_of_mem (mem_coreCtas.mpr ⟨hp, heq⟩)]
    · rename_i heq
      rw [Finset.erase_eq_of_notMem fun hin => heq (mem_coreCtas.mp hin).2]
  · intro g c
    rw [hthreads, h.threads, coreCtas_erase]
    have hsum : ∑ p ∈ (coreCtas ctas g c).erase place, (t.slots p).status =
        ∑ p ∈ (coreCtas ctas g c).erase place, (s.slots p).status :=
      Finset.sum_congr rfl fun p hp => by rw [hslot p (Finset.ne_of_mem_erase hp)]
    rw [hsum]
    exact (Finset.sum_erase _ (f := fun p => (s.slots p).status) hstatus).symm
  · intro u
    have hfilter : ((ctas.erase place).filter fun p => (t.slots p).kernel = u) =
        (ctas.filter fun p => (s.slots p).kernel = u).erase place := by
      rw [← Finset.filter_erase]
      exact Finset.filter_congr fun p hp => by rw [hold p hp]
    rw [hfilter, hruns, h.runs]
    split
    · rename_i heq
      rw [Finset.card_erase_of_mem (Finset.mem_filter.mpr ⟨hp, heq⟩)]
    · rename_i heq
      have hnot : place ∉ ctas.filter fun p => (s.slots p).kernel = u :=
        fun hin => heq (Finset.mem_filter.mp hin).2
      rw [Finset.erase_eq_of_notMem hnot]
  · intro hconc p hp
    rw [hconfig] at hconc
    rw [hold p hp]
    rcases hkernel p.gpc p.core with heq | ⟨-, hempty⟩
    · rw [heq]
      exact h.bound hconc p (hin p hp)
    · have hin' := mem_coreCtas.mpr (⟨hp, rfl, rfl⟩ : p ∈ ctas.erase place ∧ _ ∧ _)
      rw [hempty] at hin'
      exact absurd hin' (Finset.notMem_empty p)
  · intro g c u hk
    have hbound : (s.cores g c).kernel = some u := by
      rcases hkernel g c with heq | ⟨hnone, -⟩
      · exact heq ▸ hk
      · rw [hnone] at hk
        cases hk
    have hu := h.boundRunning g c u hbound
    rcases hrunning with heq | ⟨heq, -, hnot⟩
    · rw [heq]
      exact hu
    · rw [heq, h.distinct.mem_erase_iff]
      exact ⟨fun heq => hnot g c (heq ▸ hk), hu⟩
  · intro hconc g c
    rw [hconfig] at hconc
    rcases hkernel g c with heq | ⟨hnone, -⟩
    · rw [heq]
      exact h.unbound hconc g c
    · exact hnone
  · intro p hp
    rw [hold p hp]
    have hu := h.running p (hin p hp)
    rcases hrunning with heq | ⟨heq, hnone, -⟩
    · rw [heq]
      exact hu
    · rw [heq, h.distinct.mem_erase_iff]
      exact ⟨hnone p hp, hu⟩
  · rcases hrunning with heq | ⟨heq, -⟩
    · rw [heq]
      exact h.distinct
    · rw [heq]
      exact h.distinct.erase _
  · intro u hu
    rw [hnext]
    exact h.launched u (hrun u hu)
  · intro u hu
    rw [hblocks, hconfig]
    exact h.blocks u (hrun u hu)
  · intro g c i hi
    obtain ⟨hi, hne⟩ := hranges g c i hi
    rw [hconfig]
    exact ⟨(h.ranges g c i hi).1, Finset.mem_erase.mpr ⟨hne, (h.ranges g c i hi).2⟩⟩

/-- What the release of a CTA does, besides the books. -/
structure Releases (s t : CtaGpu) (place : CtaPlace) : Prop where
  slots : t.slots = Function.update s.slots place { s.released place with pendingRelease := none }
  log : t.log = s.log ++ [.release place s.now]
  gpcs : t.gpcs = s.gpcs
  now : t.now = s.now
  config : t.config = s.config
  kernels : ∀ u, ∃ n, t.kernels u = { s.kernels u with numCoresRunning := n }
  nextKernelUid : t.nextKernelUid = s.nextKernelUid
  running : ∀ u ∈ t.running, u ∈ s.running
  cluster : t.lastClusterIssue = s.lastClusterIssue
  launched : t.totalCtaLaunched = s.totalCtaLaunched

theorem unbindEmpty_ok (h : (s.cores place.gpc place.core).kernel = some uid ∨
      (s.cores place.gpc place.core).kernel = none) :
    s.unbindEmpty place uid =
      .ok (if (s.cores place.gpc place.core).nActiveCta = 0 then
        s.setCore place.gpc place.core { s.cores place.gpc place.core with kernel := none }
      else s) := by
  unfold unbindEmpty
  dsimp only
  split
  · rw [require_pass]
    · rfl
    · rcases h with h | h
      · simp [h]
      · simp [h]
  · rfl

theorem setKernelDone_ok (hrun : uid ∈ s.running) :
    s.setKernelDone uid = .ok (s.kernelDone uid) := by
  unfold setKernelDone
  rw [require_pass (List.contains_iff_mem.mpr hrun)]
  rfl

/-- The kernel with one CTA less on the SMs. -/
def retired (s : CtaGpu) (uid : Nat) : CtaGpu :=
  s.setKernel uid { s.kernels uid with numCoresRunning := (s.kernels uid).numCoresRunning - 1 }

theorem retireCta_ok (hruns : 0 < (s.kernels uid).numCoresRunning) (hrun : uid ∈ s.running) :
    s.retireCta uid = .ok (s.retired uid) ∨
      (s.kernels uid).numCoresRunning = 1 ∧
        s.retireCta uid = .ok ((s.retired uid).kernelDone uid) := by
  unfold retireCta
  dsimp only
  rw [require_pass (decide_eq_true hruns)]
  dsimp only [bind, Except.bind]
  split
  · rename_i hlast
    rw [Bool.and_eq_true, decide_eq_true_eq] at hlast
    have hone : (s.kernels uid).numCoresRunning = 1 := by
      have hzero := hlast.2
      simp only [setKernel, Function.update_self] at hzero
      omega
    exact .inr ⟨hone, setKernelDone_ok hrun⟩
  · exact .inl rfl

theorem kernels_retired (s : CtaGpu) (uid u : Nat) : (s.retired uid).kernels u =
    if uid = u then { s.kernels u with numCoresRunning := (s.kernels u).numCoresRunning - 1 }
    else s.kernels u := by
  unfold retired setKernel
  rcases eq_or_ne uid u with rfl | hne
  · simp
  · rw [if_neg hne]
    exact Function.update_of_ne hne.symm _ _

/-- The state between the end of a CTA and the end of its kernel. -/
def vacated (s : CtaGpu) (place : CtaPlace) (uid : Nat) : CtaGpu :=
  let left := s.leaveContext place
  let c := left.cores place.gpc place.core
  (if c.nActiveCta = 0 then left.setCore place.gpc place.core { c with kernel := none }
    else left).releaseResources place uid

/-- Only the SM of the CTA differs after the CTA is gone. -/
theorem vacated_frame (s : CtaGpu) (place : CtaPlace) (uid : Nat) :
    ∃ cores, s.vacated place uid = { s.leaveContext place with cores := cores } := by
  unfold vacated releaseResources
  dsimp only
  split
  · split <;> exact ⟨_, rfl⟩
  · split <;> exact ⟨_, rfl⟩

theorem cores_vacated_other {gpc core : Nat} (h : ¬ (gpc = place.gpc ∧ core = place.core)) :
    (s.vacated place uid).cores gpc core = s.cores gpc core := by
  unfold vacated releaseResources leaveContext
  dsimp only
  split
  · split <;> simp [setCore, record, setSlot, h]
  · split <;> simp [setCore, record, setSlot, h]

/-- The SM of the CTA after the CTA is gone and its resources are free again. -/
theorem cores_vacated (s : CtaGpu) (place : CtaPlace) (uid : Nat) :
    let old := s.cores place.gpc place.core
    let c := (s.vacated place uid).cores place.gpc place.core
    c.nActiveCta = old.nActiveCta - 1 ∧ c.notCompleted = old.notCompleted ∧
      (c.kernel = old.kernel ∨ c.kernel = none ∧ old.nActiveCta - 1 = 0) ∧
      c.occupancy.ctaToHwtid = if s.config.concurrentKernelSm then
        Function.update old.occupancy.ctaToHwtid place.slot none
      else old.occupancy.ctaToHwtid := by
  unfold vacated releaseResources leaveContext
  dsimp only
  split
  · rename_i hzero
    simp only [record, setSlot, setCore, and_self, if_true] at hzero
    split
    · rename_i hconc
      simp only [record, setSlot, setCore] at hconc
      simp [setCore, record, setSlot, Occupancy.release, hzero, hconc]
    · rename_i hconc
      simp only [record, setSlot, setCore] at hconc
      simp [setCore, record, setSlot, hzero, hconc]
  · split
    · rename_i hconc
      simp only [record, setSlot, setCore] at hconc
      simp [setCore, record, setSlot, Occupancy.release, hconc]
    · rename_i hconc
      simp only [record, setSlot, setCore] at hconc
      simp [setCore, record, setSlot, hconc]

/-- Every assertion before the end of the kernel holds for a CTA whose threads are gone. -/
theorem releaseFinishedCta_eq (hstatus : (s.slots place).status = 0)
    (hpending : (s.slots place).pendingRelease = none)
    (hactive : (s.slots place).lifecycle.active = true)
    (hkernel : (s.slots place).lifecycle.kernelUid = uid)
    (hadm : (s.slots place).lifecycle.admitCycle ≤ s.now)
    (hexited : (s.slots place).lifecycle.threadsExited = true ∧
      (s.slots place).lifecycle.threadsExitCycle ≤ s.now)
    (hbound : (s.cores place.gpc place.core).kernel = some uid ∨
      (s.cores place.gpc place.core).kernel = none) :
    s.releaseFinishedCta place uid = (s.vacated place uid).retireCta uid := by
  have hleft : ((s.leaveContext place).cores place.gpc place.core).kernel =
      (s.cores place.gpc place.core).kernel := by
    simp [leaveContext, record, setCore, setSlot]
  unfold CtaGpu.releaseFinishedCta
  dsimp only
  rw [require_pass (decide_eq_true hstatus), hpending, require_pass Option.isNone_none,
    require_pass hactive, require_pass (decide_eq_true hkernel),
    require_pass (by simp [hadm, hexited.1, hexited.2])]
  dsimp only [bind, Except.bind]
  rw [unbindEmpty_ok (by rw [hleft]; exact hbound)]
  rfl

/-- The release of a CTA whose threads are gone passes every assertion and keeps the books. -/
theorem Accounts.releaseFinishedCta (h : s.Accounts ctas) (hp : place ∈ ctas)
    (hstatus : (s.slots place).status = 0) :
    ∃ t, (s.setSlot place { s.slots place with pendingRelease := none }).releaseFinishedCta place
        (s.slots place).kernel = .ok t ∧ t.Accounts (ctas.erase place) ∧ Releases s t place := by
  obtain ⟨x, hx⟩ : ∃ x, { s.slots place with pendingRelease := none } = x := ⟨_, rfl⟩
  obtain ⟨uid, huid⟩ : ∃ uid, (s.slots place).kernel = uid := ⟨_, rfl⟩
  rw [hx, huid]
  have hheld := h.held place hp
  have hexited := hheld.exited hstatus
  have hactive := (h.active place).mp hp
  have hself : (s.setSlot place x).slots place = x := Function.update_self _ _ _
  have hbound : (s.cores place.gpc place.core).kernel = some uid ∨
      (s.cores place.gpc place.core).kernel = none := by
    cases hconc : s.config.concurrentKernelSm with
    | true => exact .inr (h.unbound hconc _ _)
    | false => exact .inl (huid ▸ h.bound hconc place hp)
  have hrun : uid ∈ s.running := huid ▸ h.running place hp
  have hcard : (s.kernels uid).numCoresRunning =
      (ctas.filter fun p => (s.slots p).kernel = uid).card := h.runs uid
  have hin : place ∈ ctas.filter fun p => (s.slots p).kernel = uid :=
    Finset.mem_filter.mpr ⟨hp, huid⟩
  have hpos : 0 < (s.kernels uid).numCoresRunning := by
    rw [hcard]
    exact Finset.card_pos.mpr ⟨place, hin⟩
  obtain ⟨v, hv⟩ : ∃ v, (s.setSlot place x).vacated place uid = v := ⟨_, rfl⟩
  obtain ⟨cores, hframe⟩ := vacated_frame (s.setSlot place x) place uid
  have hcore := cores_vacated (s.setSlot place x) place uid
  have hother : ∀ gpc core, ¬ (gpc = place.gpc ∧ core = place.core) →
      v.cores gpc core = s.cores gpc core := by
    rw [← hv]
    exact fun _ _ hne => cores_vacated_other hne
  have hok : (s.setSlot place x).releaseFinishedCta place uid = v.retireCta uid := by
    rw [← hv]
    apply releaseFinishedCta_eq
    · rw [hself, ← hx]
      exact hstatus
    · rw [hself, ← hx]
    · rw [hself, ← hx]
      exact hactive
    · rw [hself, ← hx]
      exact hheld.kernelUid.trans huid
    · rw [hself, ← hx]
      exact hheld.admitted
    · rw [hself, ← hx]
      exact hexited
    · exact hbound
  have hreleased : (s.setSlot place x).released place =
      { s.released place with pendingRelease := none } := by
    unfold released
    rw [hself, ← hx]
    rfl
  have hslots : v.slots =
      Function.update s.slots place { s.released place with pendingRelease := none } := by
    rw [← hv, hframe, ← hreleased]
    exact Function.update_idem _ _ _
  have hvreleases : Releases s v place := by
    refine ⟨hslots, ?_, ?_, ?_, ?_, ?_, ?_, ?_, ?_, ?_⟩
    all_goals rw [← hv, hframe]
    · rfl
    · rfl
    · rfl
    · rfl
    · exact fun u => ⟨_, rfl⟩
    · rfl
    · exact fun u hu => hu
    · rfl
    · rfl
  have hkernels : v.kernels = s.kernels := by rw [← hv, hframe]; rfl
  have hrunning : v.running = s.running := by rw [← hv, hframe]; rfl
  rw [hv] at hcore
  -- the SMs once the CTA is gone, all of them
  have hcount : ∀ g c, (v.cores g c).nActiveCta = if place.gpc = g ∧ place.core = c then
      (s.cores g c).nActiveCta - 1 else (s.cores g c).nActiveCta := by
    intro g c
    split
    · rename_i heq
      rw [← heq.1, ← heq.2]
      exact hcore.1
    · rename_i hne
      rw [hother g c fun heq => hne ⟨heq.1.symm, heq.2.symm⟩]
  have hthreads : ∀ g c, (v.cores g c).notCompleted = (s.cores g c).notCompleted := by
    intro g c
    by_cases heq : g = place.gpc ∧ c = place.core
    · rw [heq.1, heq.2]
      exact hcore.2.1
    · rw [hother g c heq]
  have hkernel : ∀ g c, (v.cores g c).kernel = (s.cores g c).kernel ∨
      (v.cores g c).kernel = none ∧ coreCtas (ctas.erase place) g c = ∅ := by
    intro g c
    by_cases heq : g = place.gpc ∧ c = place.core
    · rw [heq.1, heq.2]
      apply hcore.2.2.1.imp_right
      rintro ⟨hnone, hzero⟩
      refine ⟨hnone, ?_⟩
      rw [coreCtas_erase, ← Finset.card_eq_zero,
        Finset.card_erase_of_mem (mem_coreCtas.mpr ⟨hp, rfl, rfl⟩), ← h.nActive]
      exact hzero
    · rw [hother g c heq]
      exact .inl rfl
  have hranges : ∀ g c i, ((v.cores g c).occupancy.ctaToHwtid i).isSome →
      ((s.cores g c).occupancy.ctaToHwtid i).isSome ∧ (⟨g, c, i⟩ : CtaPlace) ≠ place := by
    intro g c i hi
    by_cases heq : g = place.gpc ∧ c = place.core
    · rw [heq.1, heq.2] at hi ⊢
      rw [hcore.2.2.2] at hi
      split at hi
      · rcases eq_or_ne i place.slot with rfl | hne
        · simp [setSlot] at hi
        · rw [Function.update_of_ne hne] at hi
          exact ⟨hi, fun hplace => hne (hplace ▸ rfl)⟩
      · rename_i hconc
        exact absurd (h.ranges _ _ _ hi).1 hconc
    · rw [hother g c heq] at hi
      exact ⟨hi, fun hplace => heq ⟨hplace ▸ rfl, hplace ▸ rfl⟩⟩
  have hruns : ∀ u, ((v.retired uid).kernels u).numCoresRunning =
      if (s.slots place).kernel = u then (s.kernels u).numCoresRunning - 1
      else (s.kernels u).numCoresRunning := by
    intro u
    rw [kernels_retired, hkernels, huid]
    split <;> rfl
  have hblocks : ∀ u, ((v.retired uid).kernels u).threadsPerCta = (s.kernels u).threadsPerCta := by
    intro u
    rw [kernels_retired, hkernels]
    split <;> rfl
  have hkeep : ∀ u, ∃ n, (v.retired uid).kernels u = { s.kernels u with numCoresRunning := n } := by
    intro u
    rw [kernels_retired, hkernels]
    split
    · exact ⟨_, rfl⟩
    · exact ⟨(s.kernels u).numCoresRunning, rfl⟩
  have hfree : ({ s.released place with pendingRelease := none } : CtaSlot).Free :=
    ⟨hstatus, rfl, rfl, rfl⟩
  rw [hok]
  rcases retireCta_ok (hkernels ▸ hpos) (hrunning ▸ hrun) with hret | ⟨hone, hret⟩
  · refine ⟨_, hret, ?_, ?_⟩
    · exact h.dismiss hp hfree rfl hstatus hcount hthreads hkernel hranges hruns hblocks
        hvreleases.config hvreleases.now hslots (.inl hrunning) hvreleases.nextKernelUid
    · exact { hvreleases with kernels := hkeep }
  · have hlast : ∀ p ∈ ctas.erase place, (s.slots p).kernel ≠ uid := by
      intro p hp' heq
      rw [hkernels, hcard, Finset.card_eq_one] at hone
      obtain ⟨a, ha⟩ := hone
      have hpa : p ∈ ({a} : Finset CtaPlace) :=
        ha ▸ Finset.mem_filter.mpr ⟨Finset.mem_of_mem_erase hp', heq⟩
      have hplace : place ∈ ({a} : Finset CtaPlace) := ha ▸ hin
      rw [Finset.mem_singleton] at hpa hplace
      exact Finset.ne_of_mem_erase hp' (hpa.trans hplace.symm)
    refine ⟨_, hret, ?_, ?_⟩
    · refine h.dismiss hp hfree rfl hstatus ?_ ?_ ?_ ?_ hruns hblocks hvreleases.config
        hvreleases.now hslots (.inr ⟨?_, ?_, ?_⟩) hvreleases.nextKernelUid
      · intro g c
        rw [← hcount]
        unfold kernelDone retired setKernel
        dsimp only
        split <;> rfl
      · intro g c
        rw [← hthreads]
        unfold kernelDone retired setKernel
        dsimp only
        split <;> rfl
      · intro g c
        unfold kernelDone retired setKernel
        dsimp only
        split
        · rename_i hbound
          refine .inr ⟨rfl, ?_⟩
          have hsome : (s.cores g c).kernel = some uid := by
            rcases hkernel g c with heq | ⟨hnone, -⟩
            · exact heq ▸ hbound
            · exact absurd (hbound.symm.trans hnone) (by simp)
          rw [Finset.eq_empty_iff_forall_notMem]
          intro p hpc
          obtain ⟨hpe, rfl, rfl⟩ := mem_coreCtas.mp hpc
          cases hconc : s.config.concurrentKernelSm with
          | true => exact absurd (hsome.symm.trans (h.unbound hconc _ _)) (by simp)
          | false =>
            have hpk := h.bound hconc p (Finset.mem_of_mem_erase hpe)
            exact hlast p hpe (Option.some.inj (hpk.symm.trans hsome))
        · exact hkernel g c
      · intro g c i hi
        apply hranges g c i
        unfold kernelDone retired setKernel at hi
        dsimp only at hi
        split at hi <;> exact hi
      · rw [huid, ← hrunning]
        rfl
      · rw [huid]
        exact hlast
      · intro g c
        unfold kernelDone
        dsimp only
        rw [huid]
        split
        · exact fun hnone => by cases hnone
        · assumption
    · exact { hvreleases with
        kernels := hkeep
        running := fun u hu => hvreleases.running u (List.mem_of_mem_erase hu) }

end CtaGpu

end FlashGpuSim
