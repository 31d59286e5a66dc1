import FlashGpuSim.Cluster.KernelWalk
import FlashGpuSim.GpuTopology
import FlashGpuSim.Lib.Reach

/-!
The placement of CTAs on the SMs of a GPU: `issue_block2core` of the GPU, of a GPC and of an SM,
the exit of threads and the release of a CTA context. Which kernel `select_kernel` returns is up
to the environment, and so are the TMA and DSM operations of a CTA.
-/

namespace FlashGpuSim

open Lib

/-- `MAX_CTA_PER_SHADER` -/
def maxCtaPerShader : Nat := 32

/-- `(unsigned)-1`, the group of no cluster. -/
def noGroup : Nat := 2 ^ 32 - 1

structure CtaConfig where
  topo : GpuTopology
  concurrentKernelSm : Bool := false
  ctaLoadBalance : Bool := false
  /-- `gpu_max_cta_opt`; zero is no limit. -/
  gpuMaxCta : Nat := 0
  replacementLatency : Nat := 0
  warpSize : Nat := 32
  nThreadPerShader : Nat := 2048
  shmemSize : Nat := 2 ^ 18
  registers : Nat := 2 ^ 16
  maxCtaPerCore : Nat
  /-- `max_cta` of a kernel. -/
  maxCta : Nat → Nat
  maxCtaPerCore_le : maxCtaPerCore ≤ maxCtaPerShader
  maxCta_le : ∀ uid, maxCta uid ≤ maxCtaPerShader

namespace CtaConfig

variable (cfg : CtaConfig)

/-- `n_simt_clusters` -/
def numGpcs : Nat := cfg.topo.smsInGpc.length

def numCores (gpc : Nat) : Nat := cfg.topo.numSmsInGpc gpc

/-- `num_shader` -/
def numShader : Nat := cfg.topo.smsInGpc.sum

/-- The most CTAs of a kernel on one SM. -/
def ctaLimit (uid : Nat) : Nat :=
  if cfg.concurrentKernelSm then cfg.maxCtaPerCore else cfg.maxCta uid

def paddedCtaSize (k : KernelInfo) : Nat :=
  if k.threadsPerCta % cfg.warpSize = 0 then k.threadsPerCta
  else (k.threadsPerCta / cfg.warpSize + 1) * cfg.warpSize

def usedRegs (k : KernelInfo) : Nat := cfg.paddedCtaSize k * ((k.regs + 3) / 4 * 4)

end CtaConfig

/-- Threads, shared memory and registers in use on an SM that runs several kernels. -/
structure Occupancy where
  nThreads : Nat := 0
  shmem : Nat := 0
  regs : Nat := 0
  ctas : Nat := 0
  hwtid : Nat → Bool := fun _ => false
  ctaToHwtid : Nat → Option Nat := fun _ => none

namespace Occupancy

variable (o : Occupancy) (cfg : CtaConfig) (k : KernelInfo)

/-- `find_available_hwtid`, a free range of threads that starts at a multiple of its size. -/
def findAvailableHwtid (ctaSize : Nat) : Option Nat :=
  ((List.range cfg.nThreadPerShader).filter (· % ctaSize = 0)).find? fun step =>
    (List.range ctaSize).all fun i => !o.hwtid (step + i)

/-- `occupy_shader_resource_1block` without the update. -/
def fits : Bool :=
  decide (o.nThreads + cfg.paddedCtaSize k ≤ cfg.nThreadPerShader) &&
    (o.findAvailableHwtid cfg (cfg.paddedCtaSize k)).isSome &&
    decide (o.shmem + k.smem ≤ cfg.shmemSize) &&
    decide (o.regs + cfg.usedRegs k ≤ cfg.registers) &&
    decide (o.ctas + 1 ≤ cfg.maxCtaPerCore)

def occupy : Occupancy :=
  { o with
    nThreads := o.nThreads + cfg.paddedCtaSize k
    shmem := o.shmem + k.smem
    regs := o.regs + cfg.usedRegs k
    ctas := o.ctas + 1 }

/-- The threads of a CTA. -/
def setHwtid (slot start size : Nat) : Occupancy :=
  { o with
    hwtid := fun t => (decide (start ≤ t ∧ t < start + size)) || o.hwtid t
    ctaToHwtid := Function.update o.ctaToHwtid slot (some start) }

/-- `release_shader_resource_1block` -/
def release (slot : Nat) : Occupancy :=
  let start := (o.ctaToHwtid slot).getD 0
  { nThreads := o.nThreads - cfg.paddedCtaSize k
    shmem := o.shmem - k.smem
    regs := o.regs - cfg.usedRegs k
    ctas := o.ctas - 1
    hwtid := fun t => o.hwtid t && !decide (start ≤ t ∧ t < start + cfg.paddedCtaSize k)
    ctaToHwtid := Function.update o.ctaToHwtid slot none }

end Occupancy

structure CtaLifecycle where
  active : Bool := false
  everUsed : Bool := false
  threadsExited : Bool := false
  pendingTma : Bool := false
  kernelUid : Nat := 0
  logicalCtaId : Nat := 0
  generation : Nat := 0
  admitCycle : Nat := 0
  threadsExitCycle : Nat := 0
  lastReleaseCycle : Nat := 0
  replacementReadyCycle : Nat := 0
  deriving DecidableEq, Repr

/-- A CTA context of an SM. -/
structure CtaSlot where
  /-- The threads that are live. -/
  status : Nat := 0
  /-- `m_cta_smem`, by its index in `shared_memory_lookup`. -/
  smem : Option Nat := none
  group : Nat := noGroup
  rank : Nat := 0
  lifecycle : CtaLifecycle := {}
  /-- The entry of `m_pending_tma_cta_releases`, with its kernel. -/
  pendingRelease : Option Nat := none
  /-- The kernel and the CTA of the threads. -/
  kernel : Nat := 0
  ctaid : Dim3 := .zero
  /-- Outstanding TMA and `cp.async` operations. -/
  tmaPending : Nat := 0
  /-- `m_dsm_cta_pending` -/
  dsmPending : Nat := 0
  deriving DecidableEq, Repr

structure ShaderCore where
  kernel : Option Nat := none
  totalCtasIssued : Nat := 0
  nActiveCta : Nat := 0
  notCompleted : Nat := 0
  occupancy : Occupancy := {}

/-- What a GPC keeps of its TB clusters. -/
structure GpcGroups where
  ctaIssueNextCore : Nat
  nextTbClusterGroupId : Nat := 0
  groupSizes : Nat → Option Nat := fun _ => none
  groupIssued : Nat → Option Nat := fun _ => none

structure CtaPlace where
  gpc : Nat
  core : Nat
  slot : Nat
  deriving DecidableEq, Repr

inductive CtaFailure
  | resources
  | noContext
  | noThreadRange
  | threadRangeTaken
  | contextActive
  | noThreads
  | noLiveThread
  | exitInactive
  | exitKernel
  | pendingTwice
  | releaseLive
  | releasePending
  | releaseInactive
  | releaseKernel
  | releaseTime
  | otherKernelBound
  | notRunning
  | notSelected
  deriving DecidableEq, Repr

/-- The history of the CTA contexts. -/
inductive CtaEvent
  | admitted (place : CtaPlace) (slot : CtaSlot)
  | threadsExit (place : CtaPlace)
  | release (place : CtaPlace) (now : Nat)
  deriving DecidableEq, Repr

structure CtaGpu where
  config : CtaConfig
  now : Nat := 0
  slots : CtaPlace → CtaSlot := fun _ => {}
  cores : Nat → Nat → ShaderCore := fun _ _ => {}
  gpcs : Nat → GpcGroups
  kernels : Nat → KernelInfo := fun _ => { gridDim := .zero }
  nextKernelUid : Nat := 0
  running : List Nat := []
  lastClusterIssue : Nat
  totalCtaLaunched : Nat := 0
  log : List CtaEvent := []

namespace GpcGroups

variable (g : GpcGroups)

/-- `m_tb_cluster_group_issued[group]++` -/
def noteIssued (group : Nat) : GpcGroups :=
  { g with groupIssued :=
      Function.update g.groupIssued group (some ((g.groupIssued group).getD 0 + 1)) }

/-- `allocate_cta_cluster_group` -/
def allocateCtaClusterGroup (groupSize forceGroup : Nat) : Nat × GpcGroups :=
  let group := g.nextTbClusterGroupId
  if forceGroup ≠ noGroup then (forceGroup, g.noteIssued forceGroup)
  else if 0 < groupSize then
    (group, { g with
      nextTbClusterGroupId := u32 (group + 1)
      groupSizes := Function.update g.groupSizes group (some groupSize)
      groupIssued := Function.update g.groupIssued group (some 0) })
  else (group, { g with nextTbClusterGroupId := u32 (group + 1) })

def tbClusterGroupSize (group : Nat) : Nat := (g.groupSizes group).getD 1

end GpcGroups

/-- `gpc_cta_issue_visit` -/
def ctaIssueVisit (i rrStart n : Nat) : Nat := (i + rrStart + 1) % n

namespace CtaSlot

/-- `cta_context_ready` -/
def contextReady (slot : CtaSlot) (now : Nat) : Bool :=
  decide (slot.status = 0) && slot.pendingRelease.isNone &&
    (!slot.lifecycle.everUsed || decide (slot.lifecycle.replacementReadyCycle ≤ now))

/-- `is_cta_slot_active` -/
def slotActive (slot : CtaSlot) : Bool := decide (0 < slot.status) && slot.smem.isSome

end CtaSlot

namespace CtaGpu

variable (s : CtaGpu)

def init (config : CtaConfig) : CtaGpu :=
  { config := config
    gpcs := fun gpc => { ctaIssueNextCore := config.numCores gpc - 1 }
    lastClusterIssue := config.numGpcs - 1 }

def setSlot (place : CtaPlace) (slot : CtaSlot) : CtaGpu :=
  { s with slots := Function.update s.slots place slot }

def setCore (gpc core : Nat) (c : ShaderCore) : CtaGpu :=
  { s with cores := fun gpc' core' =>
      if gpc' = gpc ∧ core' = core then c else s.cores gpc' core' }

def setGpc (gpc : Nat) (g : GpcGroups) : CtaGpu :=
  { s with gpcs := Function.update s.gpcs gpc g }

def setKernel (uid : Nat) (k : KernelInfo) : CtaGpu :=
  { s with kernels := Function.update s.kernels uid k }

def record (e : CtaEvent) : CtaGpu := { s with log := s.log ++ [e] }

def hitMaxCtaCount : Bool :=
  s.config.gpuMaxCta ≠ 0 && decide (s.config.gpuMaxCta ≤ s.totalCtaLaunched)

def kernelMoreCtaLeft (kernel : Option Nat) : Bool :=
  !s.hitMaxCtaCount && kernel.any fun uid => !(s.kernels uid).noMoreCtasToRun

/-- `select_kernel` returns some running kernel that has CTAs left, or none. -/
def selectKernel (choice : Option Nat) : Option Nat :=
  choice.filter fun uid => s.running.contains uid && !(s.kernels uid).noMoreCtasToRun

/-- The entries of `m_pending_tma_cta_releases`, in the order of the map. -/
def pendingReleases (gpc core : Nat) : List Nat :=
  (List.range maxCtaPerShader).filter fun slot =>
    (s.slots ⟨gpc, core, slot⟩).pendingRelease.isSome

/-- `get_not_completed` -/
def getNotCompleted (gpc core : Nat) : Nat :=
  (s.cores gpc core).notCompleted + if s.pendingReleases gpc core = [] then 0 else 1

/-- The first context that can take a CTA. -/
def readyContext (gpc core limit : Nat) : Option Nat :=
  (List.range limit).find? fun slot => (s.slots ⟨gpc, core, slot⟩).contextReady s.now

def canIssue1block (gpc core uid : Nat) : Bool :=
  let c := s.cores gpc core
  (s.readyContext gpc core (s.config.ctaLimit uid)).isSome &&
    if s.config.concurrentKernelSm then
      decide (1 ≤ s.config.maxCta uid) && c.occupancy.fits s.config (s.kernels uid)
    else decide (c.nActiveCta < s.config.maxCta uid)

/-- The threads and other resources of a CTA on an SM that runs several kernels. -/
def occupyResources (gpc core slot uid : Nat) : Except CtaFailure Occupancy :=
  let o := (s.cores gpc core).occupancy
  let k := s.kernels uid
  if s.config.concurrentKernelSm then do
    require (o.fits s.config k) .resources
    match o.findAvailableHwtid s.config (s.config.paddedCtaSize k) with
    | none => .error .noThreadRange
    | some start => do
      require (o.ctaToHwtid slot).isNone .threadRangeTaken
      return (o.occupy s.config k).setHwtid slot start (s.config.paddedCtaSize k)
  else .ok o

/-- `m_shared_mem` of the threads of a context. -/
def sharedMemory (place : CtaPlace) : Nat :=
  place.slot * s.config.numShader + s.config.topo.smIdAt place.gpc place.core

/-- The context of a new CTA of a kernel. -/
def admitted (place : CtaPlace) (uid group : Nat) : CtaSlot :=
  let k := s.kernels uid
  let old := s.slots place
  { old with
    status := k.threadsPerCta
    smem := some (s.sharedMemory place)
    group := group
    rank := k.issueRank k.nextCtaIdSingle
    lifecycle := { old.lifecycle with
      active := true
      everUsed := true
      threadsExited := false
      pendingTma := false
      kernelUid := uid
      logicalCtaId := k.nextCtaIdSingle
      generation := old.lifecycle.generation + 1
      admitCycle := s.now
      threadsExitCycle := 0 }
    kernel := uid
    ctaid := k.nextCta }

/-- The state after a CTA of a kernel took a context. -/
def takeContext (place : CtaPlace) (uid forceGroup groupSize : Nat) (occupancy : Occupancy) :
    CtaGpu :=
  let k := s.kernels uid
  let c := s.cores place.gpc place.core
  let (group, g) := (s.gpcs place.gpc).allocateCtaClusterGroup groupSize forceGroup
  let taken := s.admitted place uid group
  { s with
    slots := Function.update s.slots place taken
    cores := (s.setCore place.gpc place.core { c with
      totalCtasIssued := c.totalCtasIssued + 1
      nActiveCta := c.nActiveCta + 1
      notCompleted := c.notCompleted + k.threadsPerCta
      occupancy := occupancy }).cores
    gpcs := Function.update s.gpcs place.gpc g
    kernels := Function.update s.kernels uid { k.incrementCtaId with
      numCoresRunning := k.numCoresRunning + 1 }
    log := s.log ++ [.admitted place taken] }

/-- `shader_core_ctx::issue_block2core` -/
def issueCta (gpc core uid forceGroup groupSize : Nat) : Except CtaFailure CtaGpu :=
  let k := s.kernels uid
  match s.readyContext gpc core (s.config.ctaLimit uid) with
  | none => .error .noContext
  | some slot => do
    let place : CtaPlace := ⟨gpc, core, slot⟩
    let occupancy ← s.occupyResources gpc core slot uid
    require (!(s.slots place).lifecycle.active) .contextActive
    require (decide (0 < k.threadsPerCta ∧ k.threadsPerCta ≤ s.config.nThreadPerShader) &&
      !k.noMoreCtasToRun) .noThreads
    return s.takeContext place uid forceGroup groupSize occupancy

/-- `set_kernel` -/
def bindKernel (gpc core uid : Nat) : CtaGpu :=
  s.setCore gpc core { s.cores gpc core with kernel := some uid, totalCtasIssued := 0 }

/-- A CTA of the kernel would not break the balance of the SMs. -/
def balanced (gpc core uid : Nat) : Bool :=
  let k := s.kernels uid
  !s.config.ctaLoadBalance || k.isClusterLaunch ||
    decide ((s.cores gpc core).totalCtasIssued <
      (k.numBlocks + s.config.numShader - 1) / s.config.numShader)

/-- The SM with the kernel bound to it, when it can take the kernel. -/
def bindFor (gpc core uid : Nat) : Option CtaGpu :=
  let bound := (s.cores gpc core).kernel
  if s.config.concurrentKernelSm then some s
  else if s.kernelMoreCtaLeft bound then if bound = some uid then some s else none
  else if s.getNotCompleted gpc core = 0 then some (s.bindKernel gpc core uid) else none

def setIssueNextCore (gpc core : Nat) : CtaGpu :=
  s.setGpc gpc { s.gpcs gpc with ctaIssueNextCore := core }

/-- The group size that goes with a CTA of the kernel. -/
def issueGroupSize (uid : Nat) : Nat :=
  if (s.kernels uid).isClusterLaunch then (s.kernels uid).ctasPerCluster else 0

/-- The loop of `issue_block2core_for_kernel`, over the SMs still to visit. -/
def visitForKernel (gpc uid forceGroup rrStart : Nat) :
    List Nat → CtaGpu → Except CtaFailure (Nat × CtaGpu)
  | [], s => .ok (0, s)
  | i :: rest, s =>
    let core := ctaIssueVisit i rrStart (s.config.numCores gpc)
    match s.bindFor gpc core uid with
    | none => visitForKernel gpc uid forceGroup rrStart rest s
    | some s =>
      if s.canIssue1block gpc core uid && s.balanced gpc core uid then do
        let s ← s.issueCta gpc core uid forceGroup (s.issueGroupSize uid)
        return (1, s.setIssueNextCore gpc core)
      else visitForKernel gpc uid forceGroup rrStart rest s

/-- `issue_block2core_for_kernel` -/
def issueForKernel (gpc uid forceGroup : Nat) : Except CtaFailure (Nat × CtaGpu) :=
  if s.kernelMoreCtaLeft (some uid) then
    visitForKernel gpc uid forceGroup (s.gpcs gpc).ctaIssueNextCore
      (List.range (s.config.numCores gpc)) s
  else .ok (0, s)

/-- The kernel that the ordinary path finds for an SM. -/
def kernelForCore (gpc core : Nat) (choice : Option Nat) : Option Nat × CtaGpu :=
  let bound := (s.cores gpc core).kernel
  if s.config.concurrentKernelSm then (s.selectKernel choice, s)
  else if s.kernelMoreCtaLeft bound then (bound, s)
  else if s.getNotCompleted gpc core = 0 then
    match s.selectKernel choice with
    | some uid => (some uid, s.bindKernel gpc core uid)
    | none => (none, s)
  else (bound, s)

/-- One iteration of `simt_core_cluster::issue_block2core`. -/
def issueOnCore (gpc core : Nat) (choice : Option Nat) : Except CtaFailure (Nat × CtaGpu) :=
  let (kernel, s) := s.kernelForCore gpc core choice
  match kernel with
  | none => .ok (0, s)
  | some uid =>
    if !(s.kernels uid).isClusterLaunch && s.kernelMoreCtaLeft (some uid) &&
        s.canIssue1block gpc core uid && s.balanced gpc core uid then do
      let s ← s.issueCta gpc core uid noGroup 0
      return (1, s.setIssueNextCore gpc core)
    else .ok (0, s)

/-- `simt_core_cluster::issue_block2core` -/
def issueGpc (gpc : Nat) (select : Nat → Option Nat) : Except CtaFailure (Nat × CtaGpu) :=
  let n := s.config.numCores gpc
  let rrStart := (s.gpcs gpc).ctaIssueNextCore
  (List.range n).foldlM (fun (issued, s) i => do
    let core := ctaIssueVisit i rrStart n
    let (num, s) ← s.issueOnCore gpc core (select core)
    return (issued + num, s)) (0, s)

def countFreeCtaSlotsOn (gpc core uid : Nat) : Nat :=
  if s.config.concurrentKernelSm then if s.config.maxCta uid < 1 then 0 else 1
  else s.config.maxCta uid - (s.cores gpc core).nActiveCta

def countFreeCtaSlots (gpc uid : Nat) : Nat :=
  ((List.range (s.config.numCores gpc)).map fun core => s.countFreeCtaSlotsOn gpc core uid).sum

/-- The loop that completes the open TB cluster of a kernel, with the CTAs still missing. -/
def resumeCluster (gpc uid group : Nat) : Nat → CtaGpu → Except CtaFailure (Nat × CtaGpu)
  | 0, s => .ok (0, s)
  | n + 1, s => do
    let (num, s) ← s.issueForKernel gpc uid group
    if num = 0 then return (0, s)
    let (issued, s) ← resumeCluster gpc uid group n
      (s.setKernel uid (s.kernels uid).consumeOpenTbCta)
    return (issued + num, s)

/-- The loop that issues the CTAs of a new TB cluster. -/
def issueCluster (gpc uid group : Nat) : Nat → CtaGpu → Except CtaFailure (Nat × CtaGpu)
  | 0, s => .ok (0, s)
  | n + 1, s => do
    let (num, s) ← s.issueForKernel gpc uid group
    if num = 0 then return (0, s)
    let (issued, s) ← issueCluster gpc uid group n s
    return (issued + num, s)

/-- `m_last_cluster_issue` and `m_total_cta_launched` -/
def noteLaunched (gpc issued : Nat) : CtaGpu :=
  { s with lastClusterIssue := gpc, totalCtaLaunched := s.totalCtaLaunched + issued }

/-- The search for a GPC that takes a new TB cluster. -/
def startCluster (uid ctasPer lastIssued : Nat) : List Nat → CtaGpu → Except CtaFailure CtaGpu
  | [], s => .ok s
  | i :: rest, s =>
    let gpc := (i + lastIssued + 1) % s.config.numGpcs
    if s.countFreeCtaSlots gpc uid < ctasPer then startCluster uid ctasPer lastIssued rest s
    else do
      let (group, g) := (s.gpcs gpc).allocateCtaClusterGroup ctasPer noGroup
      let (issued, s) ← issueCluster gpc uid group ctasPer (s.setGpc gpc g)
      if issued = 0 then startCluster uid ctasPer lastIssued rest s
      else
        let s := if issued < ctasPer then
            s.setKernel uid ((s.kernels uid).openTbCluster gpc group (ctasPer - issued))
          else s
        return s.noteLaunched gpc issued

/-- An open TB cluster is completed, or a new one is started. -/
def issueClusterKernel (uid : Nat) : Except CtaFailure CtaGpu :=
  let k := s.kernels uid
  if k.hasOpenTbCluster then
    if k.openTbPhysCluster < s.config.numGpcs then do
      let (issued, s) ← resumeCluster k.openTbPhysCluster uid k.openTbClusterGroup
        k.openTbRemaining s
      return if issued = 0 then s else s.noteLaunched k.openTbPhysCluster issued
    else .ok s
  else startCluster uid k.tbClusterCtas s.lastClusterIssue (List.range s.config.numGpcs) s

/-- The first part of `gpgpu_sim::issue_block2core`: the TB clusters. -/
def issueClusters (cluster : Option Nat) : Except CtaFailure CtaGpu :=
  match s.selectKernel cluster with
  | some uid =>
    if (s.kernels uid).isClusterLaunch && s.kernelMoreCtaLeft (some uid) then
      s.issueClusterKernel uid
    else .ok s
  | none => .ok s

/-- The second part of `gpgpu_sim::issue_block2core`: the ordinary launches. -/
def issueOrdinary (select : Nat → Nat → Option Nat) : Except CtaFailure CtaGpu :=
  let lastIssued := s.lastClusterIssue
  (List.range s.config.numGpcs).foldlM (fun s i => do
    let gpc := (i + lastIssued + 1) % s.config.numGpcs
    let (num, s) ← s.issueGpc gpc (select gpc)
    return if num = 0 then s else s.noteLaunched gpc num) s

/-- `gpgpu_sim::issue_block2core`. `cluster` and `select` are the answers of `select_kernel`. -/
def issueBlock2core (cluster : Option Nat) (select : Nat → Nat → Option Nat) :
    Except CtaFailure CtaGpu := do
  let s ← s.issueClusters cluster
  s.issueOrdinary select

end CtaGpu

end FlashGpuSim
