import Mathlib.Algebra.Order.BigOperators.Group.List
import Mathlib.Algebra.Order.Ring.Nat

/-!
The part of `gpu_topology_t` the intra-GPC fabric reads: how many SMs a GPC has
and in which CPC slot each of them sits.
-/

namespace FlashGpuSim

def kSmSlotsPerCpc : Nat := 6

structure SmLocation where
  smId : Nat
  gpcId : Nat
  localSmId : Nat
  cpcId : Nat
  cpcSlot : Nat
  deriving DecidableEq, Repr

/-- `gpu_topology_t` after `build`. The two proof fields are the checks at which
`build` aborts. -/
structure GpuTopology where
  cpcsPerGpc : Nat
  smsInGpc : List Nat
  gpcNonempty : ∀ n ∈ smsInGpc, 0 < n
  fitsSlots : ∀ n ∈ smsInGpc, n ≤ kSmSlotsPerCpc * cpcsPerGpc

namespace GpuTopology

def build (smsPerGpc : List Nat) (cpcsPerGpc : Nat) : Option GpuTopology :=
  if h : ∀ n ∈ smsPerGpc, 0 < n ∧ n ≤ kSmSlotsPerCpc * cpcsPerGpc then
    some ⟨cpcsPerGpc, smsPerGpc, fun n hn => (h n hn).1, fun n hn => (h n hn).2⟩
  else none

def numSmsInGpc (topo : GpuTopology) (gpc : Nat) : Nat := topo.smsInGpc.getD gpc 0

/-- `m_gpc_sm_base`: the first SM of a GPC. -/
def gpcSmBase (topo : GpuTopology) (gpc : Nat) : Nat := (topo.smsInGpc.take gpc).sum

def smIdAt (topo : GpuTopology) (gpc localSm : Nat) : Nat :=
  topo.gpcSmBase gpc + localSm

/-- The locations `build` stores for one GPC. -/
def gpcLocations (base gpc count : Nat) : List SmLocation :=
  (List.range count).map fun localSm =>
    { smId := base + localSm
      gpcId := gpc
      localSmId := localSm
      cpcId := localSm / kSmSlotsPerCpc
      cpcSlot := localSm % kSmSlotsPerCpc }

/-- `m_sm`: the locations of all SMs, in SM order. -/
def smTable : (base gpc : Nat) → List Nat → List SmLocation
  | _, _, [] => []
  | base, gpc, count :: rest =>
    gpcLocations base gpc count ++ smTable (base + count) (gpc + 1) rest

def locateSm (topo : GpuTopology) (smId : Nat) : Option SmLocation :=
  (smTable 0 0 topo.smsInGpc)[smId]?

theorem smTable_getElem (counts : List Nat) (base gpc index localSm : Nat)
    (hlocal : localSm < counts.getD index 0) :
    (smTable base gpc counts)[(counts.take index).sum + localSm]? =
      some
        { smId := base + (counts.take index).sum + localSm
          gpcId := gpc + index
          localSmId := localSm
          cpcId := localSm / kSmSlotsPerCpc
          cpcSlot := localSm % kSmSlotsPerCpc } := by
  induction counts generalizing base gpc index with
  | nil => simp at hlocal
  | cons count rest ih =>
    cases index with
    | zero =>
      have hcount : localSm < count := by simpa using hlocal
      simp only [smTable, List.take_zero, List.sum_nil, Nat.zero_add]
      rw [List.getElem?_append_left (by simpa [gpcLocations] using hcount)]
      simp [gpcLocations, hcount]
    | succ index =>
      have hrest : localSm < rest.getD index 0 := by simpa using hlocal
      have hlen : (gpcLocations base gpc count).length = count := by
        simp [gpcLocations]
      have hindex : count + (rest.take index).sum + localSm =
          (gpcLocations base gpc count).length + ((rest.take index).sum + localSm) := by
        omega
      simp only [List.take_succ_cons, List.sum_cons, smTable]
      rw [hindex, List.getElem?_append_right (by omega), Nat.add_sub_cancel_left,
        ih (base + count) (gpc + 1) index hrest]
      congr 2
      · omega
      · omega

theorem length_smTable (counts : List Nat) (base gpc : Nat) :
    (smTable base gpc counts).length = counts.sum := by
  induction counts generalizing base gpc with
  | nil => rfl
  | cons count rest ih => simp [smTable, gpcLocations, ih]

/-- The location of an SM of a GPC. -/
theorem locateSm_local (topo : GpuTopology) {gpc localSm : Nat}
    (hlocal : localSm < topo.numSmsInGpc gpc) :
    ∃ loc, topo.locateSm (topo.smIdAt gpc localSm) = some loc ∧ loc.gpcId = gpc ∧
      loc.localSmId = localSm := by
  refine ⟨_, smTable_getElem topo.smsInGpc 0 0 gpc localSm hlocal, ?_, rfl⟩
  exact Nat.zero_add gpc

theorem smIdAt_lt (topo : GpuTopology) {gpc localSm : Nat}
    (hlocal : localSm < topo.numSmsInGpc gpc) :
    topo.smIdAt gpc localSm < topo.smsInGpc.sum := by
  obtain ⟨loc, hloc, -, -⟩ := topo.locateSm_local hlocal
  have hlt := (List.getElem?_eq_some_iff.mp hloc).1
  rw [length_smTable] at hlt
  exact hlt

/-- An SM of a GPC sits in the CPC and slot that its local number names. -/
theorem locateSm_smIdAt (topo : GpuTopology) (gpc localSm : Nat)
    (hlocal : localSm < topo.numSmsInGpc gpc) :
    ∃ loc, topo.locateSm (topo.smIdAt gpc localSm) = some loc ∧
      loc.cpcId = localSm / kSmSlotsPerCpc ∧
      loc.cpcSlot = localSm % kSmSlotsPerCpc := by
  refine ⟨_, smTable_getElem topo.smsInGpc 0 0 gpc localSm hlocal, rfl, rfl⟩

end GpuTopology

end FlashGpuSim
