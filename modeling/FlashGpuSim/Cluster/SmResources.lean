import FlashGpuSim.Cluster.CtaIssue

/-!
The resources of one SM that runs several kernels, with every way in which an admission, an issue
or a release can stop: the assertions of the code and the bounds that its bit set checks. The
counters are `unsigned`. Whether the replacement time of a context is over and whether `max_cta`
admits a kernel at all is up to the environment.
-/

namespace FlashGpuSim

open Lib

/-- `MAX_THREAD_PER_SM` -/
def maxThreadPerSm : Nat := 2 ^ 11

/-- A configuration that passed `shader_core_config::init`. -/
structure SmConfig extends CtaConfig where
  threads_le : nThreadPerShader ≤ maxThreadPerSm
  warpSize_pos : 0 < warpSize
  warps : nThreadPerShader % warpSize = 0

/-- A kernel that passed the checks of `gpgpu_sim::launch`. -/
structure SmKernel (cfg : SmConfig) where
  info : KernelInfo
  threads_le : info.threadsPerCta ≤ cfg.nThreadPerShader

inductive SmFailure
  /-- `std::bitset` throws. -/
  | hwtidOutOfRange
  /-- `max_cta` divides by the padded size of the CTA. -/
  | divideByZero
  | resources
  | noContext
  | noThreadRange
  | threadRangeTaken
  | contextActive
  | noThreads
  | releaseThreads
  | releaseShmem
  | releaseRegs
  | releaseCtas
  deriving DecidableEq, Repr

/-- `m_occupied_hwtid.test` for a range of threads, up to the first occupied one. -/
def Occupancy.rangeFree (o : Occupancy) (hwtid : Nat) : Nat → Except SmFailure Bool
  | 0 => .ok true
  | n + 1 =>
    if maxThreadPerSm ≤ hwtid then .error .hwtidOutOfRange
    else if o.hwtid hwtid then .ok false
    else o.rangeFree (hwtid + 1) n

/-- The loop of `find_available_hwtid`, over the starts still to try. -/
def Occupancy.searchHwtid (o : Occupancy) (ctaSize : Nat) : List Nat → Except SmFailure (Option Nat)
  | [] => .ok none
  | step :: rest => do
    if ← o.rangeFree step ctaSize then return some step
    else o.searchHwtid ctaSize rest

/-- An SM, with the kernel of the CTA in each context. -/
structure SmResources (cfg : SmConfig) where
  occupancy : Occupancy := {}
  resident : Nat → Option (SmKernel cfg) := fun _ => none

namespace SmResources

variable {cfg : SmConfig} (s : SmResources cfg) (k : SmKernel cfg)

def paddedCtaSize (k : SmKernel cfg) : Nat := cfg.paddedCtaSize k.info

def totalSmem (k : SmKernel cfg) : Nat := u32 k.info.smem

def usedRegs (k : SmKernel cfg) : Nat := u32 (cfg.usedRegs k.info)

/-- The first context that can take a CTA. A context whose CTA was not released has live threads
or a release that was put off. -/
def readyContext (elapsed : Nat → Bool) : Option Nat :=
  (List.range cfg.maxCtaPerCore).find? fun slot => (s.resident slot).isNone && elapsed slot

def findAvailableHwtid (ctaSize : Nat) : Except SmFailure (Option Nat) :=
  s.occupancy.searchHwtid ctaSize ((List.range cfg.nThreadPerShader).filter (· % ctaSize = 0))

/-- `occupy_shader_resource_1block` without the update. -/
def occupyShaderResource1block : Except SmFailure Bool :=
  let o := s.occupancy
  if cfg.nThreadPerShader < u32 (o.nThreads + paddedCtaSize k) then .ok false
  else do
    let found ← s.findAvailableHwtid (paddedCtaSize k)
    return found.isSome && decide (u32 (o.shmem + totalSmem k) ≤ cfg.shmemSize) &&
      decide (u32 (o.regs + usedRegs k) ≤ cfg.registers) && decide (o.ctas + 1 ≤ cfg.maxCtaPerCore)

/-- The update of `occupy_shader_resource_1block`. -/
def occupied : Occupancy :=
  let o := s.occupancy
  { o with
    nThreads := u32 (o.nThreads + paddedCtaSize k)
    shmem := u32 (o.shmem + totalSmem k)
    regs := u32 (o.regs + usedRegs k)
    ctas := o.ctas + 1 }

def canIssue1block (elapsed : Nat → Bool) (fits : Bool) : Except SmFailure Bool :=
  if (s.readyContext elapsed).isNone then .ok false
  else do
    require (decide (paddedCtaSize k ≠ 0)) .divideByZero
    if fits then s.occupyShaderResource1block k else return false

/-- The SM after a CTA of a kernel took a context and a range of threads. -/
def takeRange (slot start : Nat) : SmResources cfg where
  occupancy := (s.occupied k).setHwtid slot start (paddedCtaSize k)
  resident := Function.update s.resident slot (some k)

/-- `shader_core_ctx::issue_block2core` -/
def issueBlock2core (elapsed : Nat → Bool) : Except SmFailure (SmResources cfg) := do
  let fits ← s.occupyShaderResource1block k
  require fits .resources
  match s.readyContext elapsed with
  | none => .error .noContext
  | some slot => do
    match ← s.findAvailableHwtid (paddedCtaSize k) with
    | none => .error .noThreadRange
    | some start => do
      require (s.occupancy.ctaToHwtid slot).isNone .threadRangeTaken
      require (s.resident slot).isNone .contextActive
      require (decide (0 < k.info.threadsPerCta ∧ k.info.threadsPerCta ≤ cfg.nThreadPerShader))
        .noThreads
      return s.takeRange k slot start

/-- The SM after the CTA of a kernel left its context. -/
def leaveRange (slot : Nat) : SmResources cfg :=
  let o := s.occupancy
  let start := (o.ctaToHwtid slot).getD 0
  { occupancy := {
      nThreads := o.nThreads - paddedCtaSize k
      shmem := o.shmem - totalSmem k
      regs := o.regs - usedRegs k
      ctas := o.ctas - 1
      hwtid := fun t => o.hwtid t && !decide (start ≤ t ∧ t < start + paddedCtaSize k)
      ctaToHwtid := Function.update o.ctaToHwtid slot none }
    resident := Function.update s.resident slot none }

/-- `release_shader_resource_1block` -/
def releaseShaderResource1block (slot : Nat) : Except SmFailure (SmResources cfg) := do
  let o := s.occupancy
  require (decide (paddedCtaSize k ≤ o.nThreads)) .releaseThreads
  let start := (o.ctaToHwtid slot).getD 0
  require (decide (paddedCtaSize k = 0 ∨ start + paddedCtaSize k ≤ maxThreadPerSm)) .hwtidOutOfRange
  require (decide (totalSmem k ≤ o.shmem)) .releaseShmem
  require (decide (usedRegs k ≤ o.regs)) .releaseRegs
  require (decide (1 ≤ o.ctas)) .releaseCtas
  return s.leaveRange k slot

end SmResources

/-- A CTA is offered to the SM, or the CTA in a context is released. -/
inductive SmOp (cfg : SmConfig)
  | issue (k : SmKernel cfg) (elapsed : Nat → Bool) (fits : Bool)
  | release (slot : Nat)

namespace SmResources

variable {cfg : SmConfig} (s : SmResources cfg)

def step : SmOp cfg → Except SmFailure (SmResources cfg)
  | .issue k elapsed fits => do
    if ← s.canIssue1block k elapsed fits then s.issueBlock2core k elapsed else return s
  | .release slot =>
    match s.resident slot with
    | none => .ok s
    | some k => s.releaseShaderResource1block k slot

end SmResources

end FlashGpuSim
