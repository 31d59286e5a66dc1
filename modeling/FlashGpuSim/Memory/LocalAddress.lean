import FlashGpuSim.Memory.Windows
import FlashGpuSim.Coalesce.Coalescer
import FlashGpuSim.Cluster.SmAccounting

/-!
The linear addresses that the timing model gives to local memory. The CTA size and the number of
CTAs that the mapping by CTAs computes with are kept in each SM, and only an issue to an SM that
runs one kernel at a time sets them.
-/

namespace FlashGpuSim

open Lib SmResources

/-- A configuration that passed `init`, which aborts with more SMs than the windows hold. -/
structure LocalMapConfig extends SmConfig where
  /-- `gpgpu_local_mem_map` -/
  localMemMap : Bool
  /-- The limits of `max_cta` by shared memory, registers, contexts and the size of the grid. -/
  otherLimits : KernelInfo → Nat
  numShader_le : toCtaConfig.numShader ≤ maxStreamingMultiprocessors

namespace LocalMapConfig

variable (cfg : LocalMapConfig)

/-- `max_cta`. A kernel that fits nowhere gets one CTA where the limits are ignored. -/
def maxCtas (k : SmKernel cfg.toSmConfig) : Nat :=
  let result := min (cfg.nThreadPerShader / paddedCtaSize k) (cfg.otherLimits k.info)
  if result < 1 then 1 else result

end LocalMapConfig

/-- A CTA whose threads are live. -/
structure HwCta (cfg : SmConfig) where
  kernel : SmKernel cfg
  slot : Nat
  startThread : Nat

/-- An SM, as far as its local addresses go. `radices` has `kernel_padded_threads_per_cta` and
`kernel_max_cta_per_shader` once they are set. -/
structure LocalSm (cfg : SmConfig) where
  kernel : Option (SmKernel cfg) := none
  radices : Option (Nat × Nat) := none
  ctas : List (HwCta cfg) := []

/-- All SMs. -/
abbrev LocalGpu (cfg : LocalMapConfig) := Nat → LocalSm cfg.toSmConfig

namespace LocalGpu

variable {cfg : LocalMapConfig}

/-! ### The mapping -/

/-- `thread_base` and `max_concurrent_threads`, unless it computes with unset numbers or divides
by zero. -/
def threadBase (cfg : LocalMapConfig) (radices : Option (Nat × Nat)) (sid tid : Nat) :
    Option (Nat × Nat) :=
  if cfg.localMemMap then
    match radices with
    | none => none
    | some (padded, maxCta) =>
      if padded = 0 then none
      else some
        (u32 (4 * (padded * (sid + cfg.numShader * (tid / padded)) + tid % padded)),
          u32 (padded * maxCta * cfg.numShader))
  else some
    (u32 (4 * (cfg.nThreadPerShader * sid + tid)), u32 (cfg.numShader * cfg.nThreadPerShader))

/-- `translate_local_memaddr`; `none` where an assertion fires. -/
def translateLocalMemaddr (cfg : LocalMapConfig) (radices : Option (Nat × Nat))
    (sid tid localaddr datasize : Nat) : Option (List Nat) :=
  match threadBase cfg radices sid tid with
  | none => none
  | some (base, maxThreads) =>
    if u32 (4 * maxThreads) ≤ base then none
    else if 4 ≤ datasize then
      if datasize % 4 = 0 ∧ datasize / 4 ≤ maxAccessesPerInsnPerThread ∧ localaddr % 4 = 0 then
        some ((List.range (datasize / 4)).map fun i =>
          wrapAddr ((localaddr / 4 + i) * maxThreads * 4 + base + localGenericStart))
      else none
    else if 0 < datasize ∧ wrapAddr (localaddr + datasize - 1) / 4 = localaddr / 4 then
      some [wrapAddr
        (localaddr / 4 * maxThreads * 4 + localaddr % 4 + base + localGenericStart)]
    else none

/-! ### Issue -/

inductive LocalEvent (cfg : LocalMapConfig)
  | issue (sid : Nat) (k : SmKernel cfg.toSmConfig) (slot start : Nat)
  | finish (sid slot : Nat)

/-- An SM bound to a kernel takes a CTA of it. -/
def bindCta (g : LocalGpu cfg) (sid : Nat) (k : SmKernel cfg.toSmConfig) (slot : Nat) :
    LocalGpu cfg :=
  Function.update g sid
    { kernel := some k
      radices := some (paddedCtaSize k, cfg.maxCtas k)
      ctas := ⟨k, slot, slot * paddedCtaSize k⟩ :: (g sid).ctas }

/-- An SM that runs several kernels takes a CTA at a range of threads. -/
def addCta (g : LocalGpu cfg) (sid : Nat) (k : SmKernel cfg.toSmConfig) (slot start : Nat) :
    LocalGpu cfg :=
  Function.update g sid { g sid with ctas := ⟨k, slot, start⟩ :: (g sid).ctas }

def removeCta (g : LocalGpu cfg) (sid slot : Nat) : LocalGpu cfg :=
  Function.update g sid { g sid with ctas := (g sid).ctas.filter (·.slot ≠ slot) }

/-- An SM that runs one kernel at a time is bound to the kernel and sets its numbers; one that runs
several finds a range of threads. A CTA goes when its threads have exited. -/
inductive Step (g : LocalGpu cfg) : LocalEvent cfg → LocalGpu cfg → Prop
  | issueBound {sid : Nat} {k : SmKernel cfg.toSmConfig} {slot : Nat}
      (hsid : sid < cfg.numShader) (halone : cfg.concurrentKernelSm = false)
      (hbind : (g sid).kernel = some k ∨ (g sid).ctas = []) (hslot : slot < cfg.maxCtas k)
      (hfree : ∀ c ∈ (g sid).ctas, c.slot ≠ slot) :
      Step g (.issue sid k slot (slot * paddedCtaSize k)) (g.bindCta sid k slot)
  | issueShared {sid : Nat} {k : SmKernel cfg.toSmConfig} {slot start : Nat}
      (hsid : sid < cfg.numShader) (hshared : cfg.concurrentKernelSm = true)
      (hfits : start + paddedCtaSize k ≤ cfg.nThreadPerShader) :
      Step g (.issue sid k slot start) (g.addCta sid k slot start)
  | finish {sid slot : Nat} : Step g (.finish sid slot) (g.removeCta sid slot)

/-- A thread of a CTA on the SM. -/
def Resident (g : LocalGpu cfg) (sid tid : Nat) : Prop :=
  ∃ c ∈ (g sid).ctas, c.startThread ≤ tid ∧ tid < c.startThread + c.kernel.info.threadsPerCta

/-! ### What the mapping is for -/

/-- The local addresses that count: far above the 16 KiB a thread may have, and their linear
addresses fit 64 bits. -/
def localLimit : Nat := 2 ^ 42

/-- Aligned accesses of whole words, and smaller ones inside a word. -/
def LocalAccess (addr size : Nat) : Prop :=
  addr + size ≤ localLimit ∧
    (4 ≤ size ∧ size ≤ 32 ∧ size % 4 = 0 ∧ addr % 4 = 0 ∨
      0 < size ∧ size < 4 ∧ addr % 4 + size ≤ 4)

/-- The words of an access. -/
def accessWords (addr size : Nat) : List Nat :=
  (List.range ((addr % 4 + size + 3) / 4)).map (addr / 4 + ·)

/-- No two words of resident threads have the same linear word. -/
def NoAlias (g : LocalGpu cfg) : Prop :=
  ∃ linear : Nat → Nat → Nat → Nat,
    (∀ sid tid, Resident g sid tid → ∀ addr size, LocalAccess addr size →
      translateLocalMemaddr cfg (g sid).radices sid tid addr size =
        some ((accessWords addr size).map fun w => 4 * linear sid tid w + addr % 4)) ∧
    ∀ sid tid sid' tid' w w', Resident g sid tid → Resident g sid' tid' →
      linear sid tid w = linear sid' tid' w' → sid = sid' ∧ tid = tid' ∧ w = w'

/-- With the mapping by CTAs, an issue to an SM that runs one kernel at a time, at which all other
SMs with CTAs compute with the same numbers. -/
def Meets (g : LocalGpu cfg) : LocalEvent cfg → Prop
  | .issue sid k _ _ => cfg.localMemMap = true →
    cfg.concurrentKernelSm = false ∧ ∀ sid', sid' ≠ sid → (g sid').ctas ≠ [] →
      (g sid').radices = some (paddedCtaSize k, cfg.maxCtas k)
  | .finish .. => True

/-- The runs whose steps all meet a condition. -/
inductive Runs (ok : LocalGpu cfg → LocalEvent cfg → Prop) (g : LocalGpu cfg) : LocalGpu cfg → Prop
  | refl : Runs ok g g
  | step {h i : LocalGpu cfg} {e : LocalEvent cfg} (hrun : Runs ok g h) (hok : ok h e)
      (hstep : Step h e i) : Runs ok g i

/-- No kernel was issued yet. -/
def reset : LocalGpu cfg := fun _ => {}

end LocalGpu

end FlashGpuSim
