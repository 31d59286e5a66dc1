import FlashGpuSim.Cluster.CtaIssue

/-!
The end of a CTA: its threads exit one by one, and its context is released when nothing of the
CTA is outstanding, at once or when the SM polls the CTAs whose release was put off. The
operations of a run come last.
-/

namespace FlashGpuSim

open Lib

namespace CtaGpu

variable (s : CtaGpu)

/-- `tb_cluster_group_has_live_threads` -/
def groupHasLiveThreads (place : CtaPlace) : Bool :=
  let group := (s.slots place).group
  (s.gpcs place.gpc).groupSizes group |>.any fun _ =>
    (List.range (s.config.numCores place.gpc)).any fun core =>
      (List.range maxCtaPerShader).any fun slot =>
        let peer : CtaPlace := ⟨place.gpc, core, slot⟩
        decide (peer ≠ place) && decide ((s.slots peer).group = group) &&
          decide (0 < (s.slots peer).status)

/-- The CTA cannot be released: an operation of its own is outstanding, or a CTA of its cluster
has a live thread. -/
def releaseBlocked (place : CtaPlace) : Bool :=
  decide (0 < (s.slots place).tmaPending) || decide (0 < (s.slots place).dsmPending) ||
    s.groupHasLiveThreads place

/-- The state without a kernel that is done. -/
def kernelDone (uid : Nat) : CtaGpu :=
  { s with
    cores := fun gpc core =>
      let c := s.cores gpc core
      if c.kernel = some uid then { c with kernel := none } else c
    running := s.running.erase uid }

/-- `set_kernel_done` -/
def setKernelDone (uid : Nat) : Except CtaFailure CtaGpu := do
  require (s.running.contains uid) .notRunning
  return s.kernelDone uid

/-- The context after its release. -/
def released (place : CtaPlace) : CtaSlot :=
  let slot := s.slots place
  { slot with
    smem := none
    group := noGroup
    rank := 0
    tmaPending := 0
    lifecycle := { slot.lifecycle with
      active := false
      lastReleaseCycle := s.now
      replacementReadyCycle := s.now + s.config.replacementLatency } }

/-- An SM without CTAs gives up its kernel. -/
def unbindEmpty (place : CtaPlace) (uid : Nat) : Except CtaFailure CtaGpu :=
  let c := s.cores place.gpc place.core
  if c.nActiveCta = 0 then do
    require (decide (c.kernel = some uid) || c.kernel.isNone || !s.kernelMoreCtaLeft c.kernel)
      .otherKernelBound
    return s.setCore place.gpc place.core { c with kernel := none }
  else .ok s

/-- The end of `release_finished_cta`: the kernel runs one CTA less. -/
def retireCta (uid : Nat) : Except CtaFailure CtaGpu := do
  let k := s.kernels uid
  require (decide (0 < k.numCoresRunning)) .notRunning
  let s := s.setKernel uid { k with numCoresRunning := k.numCoresRunning - 1 }
  if !s.kernelMoreCtaLeft (some uid) && decide ((s.kernels uid).numCoresRunning = 0) then
    s.setKernelDone uid
  else .ok s

/-- The CTA is gone from its context. -/
def leaveContext (place : CtaPlace) : CtaGpu :=
  let c := s.cores place.gpc place.core
  ((s.setSlot place (s.released place)).setCore place.gpc place.core
    { c with nActiveCta := c.nActiveCta - 1 }).record (.release place s.now)

/-- `release_shader_resource_1block` -/
def releaseResources (place : CtaPlace) (uid : Nat) : CtaGpu :=
  let c := s.cores place.gpc place.core
  if s.config.concurrentKernelSm then
    s.setCore place.gpc place.core
      { c with occupancy := c.occupancy.release s.config (s.kernels uid) place.slot }
  else s

/-- `release_finished_cta` -/
def releaseFinishedCta (place : CtaPlace) (uid : Nat) : Except CtaFailure CtaGpu := do
  let slot := s.slots place
  require (decide (slot.status = 0)) .releaseLive
  require slot.pendingRelease.isNone .releasePending
  require slot.lifecycle.active .releaseInactive
  require (decide (slot.lifecycle.kernelUid = uid)) .releaseKernel
  require (decide (slot.lifecycle.admitCycle ≤ s.now) && slot.lifecycle.threadsExited &&
    decide (slot.lifecycle.threadsExitCycle ≤ s.now)) .releaseTime
  let s ← (s.leaveContext place).unbindEmpty place uid
  (s.releaseResources place uid).retireCta uid

/-- A CTA has one live thread less, and so has its SM. -/
def exitThread (place : CtaPlace) : CtaGpu :=
  let slot := s.slots place
  let c := s.cores place.gpc place.core
  (s.setSlot place { slot with status := slot.status - 1 }).setCore place.gpc place.core
    { c with notCompleted := c.notCompleted - 1 }

/-- The last thread of a CTA is gone. -/
def noteThreadsExit (place : CtaPlace) (pending : Bool) : CtaGpu :=
  let slot := s.slots place
  (s.setSlot place { slot with lifecycle := { slot.lifecycle with
    threadsExited := true
    threadsExitCycle := s.now
    pendingTma := pending } }).record (.threadsExit place)

/-- An entry of `m_pending_tma_cta_releases`. -/
def deferRelease (place : CtaPlace) (uid : Nat) : CtaGpu :=
  s.setSlot place { s.slots place with pendingRelease := some uid }

/-- `register_cta_thread_exit`, and the count of the threads of the SM. -/
def registerCtaThreadExit (place : CtaPlace) : Except CtaFailure CtaGpu := do
  let uid := (s.slots place).kernel
  require (decide (0 < (s.slots place).status)) .noLiveThread
  let s := s.exitThread place
  if (s.slots place).status = 0 then do
    require (s.slots place).lifecycle.active .exitInactive
    require (decide ((s.slots place).lifecycle.kernelUid = uid)) .exitKernel
    let pending := s.releaseBlocked place
    let s := s.noteThreadsExit place pending
    if pending then do
      require (s.slots place).pendingRelease.isNone .pendingTwice
      return s.deferRelease place uid
    else s.releaseFinishedCta place uid
  else .ok s

/-- One release of `release_pending_tma_ctas`. -/
def releasePending (gpc core slot : Nat) : Except CtaFailure CtaGpu :=
  let place : CtaPlace := ⟨gpc, core, slot⟩
  match (s.slots place).pendingRelease with
  | none => .ok s
  | some uid =>
    (s.setSlot place { s.slots place with pendingRelease := none }).releaseFinishedCta place uid

/-- `release_pending_tma_ctas` -/
def releasePendingTmaCtas (gpc core : Nat) : Except CtaFailure CtaGpu :=
  ((s.pendingReleases gpc core).filter fun slot => !s.releaseBlocked ⟨gpc, core, slot⟩).foldlM
    (fun s slot => s.releasePending gpc core slot) s

/-- A kernel is launched. -/
def launch (gridDim blockDim : Dim3) (smem regs : Nat) (cluster : Option Dim3) : CtaGpu :=
  let k := KernelInfo.launch gridDim blockDim smem regs
  let k := match cluster with
    | some clusterDim => k.setClusterLaunch clusterDim
    | none => k
  { s.setKernel s.nextKernelUid k with
    nextKernelUid := s.nextKernelUid + 1
    running := s.running ++ [s.nextKernelUid] }

/-- The outstanding operations of a context. -/
def setPending (place : CtaPlace) (tma dsm : Nat) : CtaGpu :=
  s.setSlot place { s.slots place with tmaPending := tma, dsmPending := dsm }

end CtaGpu

inductive CtaOp
  | launch (gridDim blockDim : Dim3) (smem regs : Nat) (cluster : Option Dim3)
  | issue (cluster : Option Nat) (select : Nat → Nat → Option Nat)
  | threadExit (place : CtaPlace)
  | cycle (gpc core : Nat)
  | tick
  | tmaStart (place : CtaPlace)
  | tmaDone (place : CtaPlace)
  | dsmStart (place : CtaPlace)
  | dsmDone (place : CtaPlace)

namespace CtaGpu

variable (s : CtaGpu)

def step : CtaOp → Except CtaFailure CtaGpu
  | .launch gridDim blockDim smem regs cluster => .ok (s.launch gridDim blockDim smem regs cluster)
  | .issue cluster select => s.issueBlock2core cluster select
  | .threadExit place => s.registerCtaThreadExit place
  | .cycle gpc core => s.releasePendingTmaCtas gpc core
  | .tick => .ok { s with now := s.now + 1 }
  | .tmaStart place =>
    .ok (s.setPending place ((s.slots place).tmaPending + 1) (s.slots place).dsmPending)
  | .tmaDone place =>
    .ok (s.setPending place ((s.slots place).tmaPending - 1) (s.slots place).dsmPending)
  | .dsmStart place =>
    .ok (s.setPending place (s.slots place).tmaPending ((s.slots place).dsmPending + 1))
  | .dsmDone place =>
    .ok (s.setPending place (s.slots place).tmaPending ((s.slots place).dsmPending - 1))

/-- The SM and the context exist. -/
def Exists (place : CtaPlace) : Prop :=
  place.gpc < s.config.numGpcs ∧ place.core < s.config.numCores place.gpc ∧
    place.slot < maxCtaPerShader

instance (place : CtaPlace) : Decidable (s.Exists place) :=
  inferInstanceAs (Decidable (_ ∧ _ ∧ _))

/-- A thread exits while it is live, and an operation of a CTA starts while a thread of the CTA
is live or another operation of its kind goes on. -/
def Valid : CtaOp → Prop
  | .launch _ blockDim _ _ _ =>
    0 < u32 blockDim.prod ∧ u32 blockDim.prod ≤ s.config.nThreadPerShader
  | .issue _ _ => True
  | .threadExit place => s.Exists place ∧ 0 < (s.slots place).status
  | .cycle gpc core => gpc < s.config.numGpcs ∧ core < s.config.numCores gpc
  | .tick => True
  | .tmaStart place =>
    s.Exists place ∧ (0 < (s.slots place).status ∨ 0 < (s.slots place).tmaPending)
  | .tmaDone place => s.Exists place ∧ 0 < (s.slots place).tmaPending
  | .dsmStart place =>
    s.Exists place ∧ (0 < (s.slots place).status ∨ 0 < (s.slots place).dsmPending)
  | .dsmDone place => s.Exists place ∧ 0 < (s.slots place).dsmPending

instance (op : CtaOp) : Decidable (s.Valid op) :=
  match op with
  | .launch _ _ _ _ _ => inferInstanceAs (Decidable (_ ∧ _))
  | .issue _ _ => inferInstanceAs (Decidable True)
  | .threadExit _ => inferInstanceAs (Decidable (_ ∧ _))
  | .cycle _ _ => inferInstanceAs (Decidable (_ ∧ _))
  | .tick => inferInstanceAs (Decidable True)
  | .tmaStart _ => inferInstanceAs (Decidable (_ ∧ _))
  | .tmaDone _ => inferInstanceAs (Decidable (_ ∧ _))
  | .dsmStart _ => inferInstanceAs (Decidable (_ ∧ _))
  | .dsmDone _ => inferInstanceAs (Decidable (_ ∧ _))

end CtaGpu

end FlashGpuSim
