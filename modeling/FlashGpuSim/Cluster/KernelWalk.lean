import FlashGpuSim.Lib.Odometer
import Mathlib.Logic.Function.Iterate

/-!
The walk of a kernel over its grid. An ordinary launch goes through the CTAs in x, then in y,
then in z; a cluster launch goes through the ranks of one cluster and then through the clusters.
Both are counters with several digits.
-/

namespace FlashGpuSim

open Lib

/-- Arithmetic of `unsigned`. -/
def u32 (n : Nat) : Nat := n % 2 ^ 32

theorem u32_of_lt {n : Nat} (h : n < 2 ^ 32) : u32 n = n := Nat.mod_eq_of_lt h

structure Dim3 where
  x : Nat
  y : Nat
  z : Nat
  deriving DecidableEq, Repr

/-- A zero extent is one. -/
def extent (n : Nat) : Nat := if n = 0 then 1 else n

theorem extent_pos (n : Nat) : 0 < extent n := by
  unfold extent
  split <;> omega

theorem extent_of_pos {n : Nat} (h : 0 < n) : extent n = n := if_neg (by omega)

namespace Dim3

/-- `dim3(0, 0, 0)` -/
def zero : Dim3 := ⟨0, 0, 0⟩

/-- The extents with every zero extent as one. -/
def extents (d : Dim3) : Dim3 := ⟨extent d.x, extent d.y, extent d.z⟩

def prod (d : Dim3) : Nat := d.x * d.y * d.z

/-- Every coordinate is below the bound. -/
def Within (i bound : Dim3) : Prop := i.x < bound.x ∧ i.y < bound.y ∧ i.z < bound.z

instance (i bound : Dim3) : Decidable (i.Within bound) :=
  inferInstanceAs (Decidable (_ ∧ _ ∧ _))

end Dim3

def incrementXThenYThenZ (i bound : Dim3) : Dim3 :=
  if i.x + 1 < bound.x then { i with x := i.x + 1 }
  else if i.y + 1 < bound.y then { i with x := 0, y := i.y + 1 }
  else ⟨0, 0, if i.z < bound.z then i.z + 1 else i.z⟩

/-- The grid is a multiple of the cluster. -/
def Divisible (grid cluster : Dim3) : Prop :=
  grid.x ≠ 0 ∧ grid.y ≠ 0 ∧ grid.z ≠ 0 ∧ grid.x % extent cluster.x = 0 ∧
    grid.y % extent cluster.y = 0 ∧ grid.z % extent cluster.z = 0

instance (grid cluster : Dim3) : Decidable (Divisible grid cluster) :=
  inferInstanceAs (Decidable (_ ∧ _ ∧ _ ∧ _ ∧ _ ∧ _))

def stepNextCta (cta grid cluster : Dim3) (clusterLaunch : Bool) : Dim3 :=
  if clusterLaunch = true ∧ Divisible grid cluster then
    let cx := extent cluster.x
    let cy := extent cluster.y
    let cz := extent cluster.z
    let rx := cta.x % cx
    let ry := cta.y % cy
    let rz := cta.z % cz
    let ox := cta.x - rx
    let oy := cta.y - ry
    let oz := cta.z - rz
    if rx + 1 < cx then ⟨ox + (rx + 1), oy + ry, oz + rz⟩
    else if ry + 1 < cy then ⟨ox, oy + (ry + 1), oz + rz⟩
    else if rz + 1 < cz then ⟨ox, oy, oz + (rz + 1)⟩
    else if ox + cx < grid.x then ⟨ox + cx, oy, oz⟩
    else if oy + cy < grid.y then ⟨0, oy + cy, oz⟩
    else if oz + cz < grid.z then ⟨0, 0, oz + cz⟩
    else ⟨grid.x, 0, 0⟩
  else incrementXThenYThenZ cta grid

/-- What the launch keeps of a kernel; `smem` is the static and dynamic shared memory of a
CTA. -/
structure KernelInfo where
  gridDim : Dim3
  blockDim : Dim3 := ⟨1, 1, 1⟩
  smem : Nat := 0
  regs : Nat := 0
  nextCta : Dim3 := .zero
  numCoresRunning : Nat := 0
  isClusterLaunch : Bool := false
  clusterDim : Dim3 := .zero
  ctasPerCluster : Nat := 1
  openTbPhysCluster : Nat := 2 ^ 32 - 1
  openTbClusterGroup : Nat := 2 ^ 32 - 1
  openTbRemaining : Nat := 0
  deriving DecidableEq, Repr

namespace KernelInfo

variable (k : KernelInfo)

/-- The constructor. -/
def launch (gridDim blockDim : Dim3) (smem regs : Nat) : KernelInfo :=
  { gridDim := gridDim, blockDim := blockDim, smem := smem, regs := regs }

def setClusterLaunch (clusterDim : Dim3) : KernelInfo :=
  let prod := u32 clusterDim.prod
  { k with
    isClusterLaunch := true
    clusterDim := clusterDim
    ctasPerCluster := if 0 < prod then prod else 1 }

def numBlocks : Nat := u32 k.gridDim.prod

def threadsPerCta : Nat := u32 k.blockDim.prod

def noMoreCtasToRun : Bool := decide ¬ k.nextCta.Within k.gridDim

/-- `get_next_cta_id_single` -/
def nextCtaIdSingle : Nat :=
  u32 (k.nextCta.x + k.gridDim.x * k.nextCta.y + k.gridDim.x * k.gridDim.y * k.nextCta.z)

def incrementCtaId : KernelInfo :=
  { k with nextCta := stepNextCta k.nextCta k.gridDim k.clusterDim k.isClusterLaunch }

def hasOpenTbCluster : Bool := decide (0 < k.openTbRemaining)

def openTbCluster (physCluster group remaining : Nat) : KernelInfo :=
  { k with
    openTbPhysCluster := physCluster
    openTbClusterGroup := group
    openTbRemaining := remaining }

def consumeOpenTbCta : KernelInfo := { k with openTbRemaining := k.openTbRemaining - 1 }

/-- The CTAs that `issue_block2core` counts for a cluster. -/
def tbClusterCtas : Nat := if k.ctasPerCluster = 0 then 1 else k.ctasPerCluster

/-- The rank of a CTA in its cluster. -/
def rankOf (cta : Dim3) : Nat :=
  let c := k.clusterDim.extents
  u32 (cta.x % c.x + c.x * (cta.y % c.y + c.y * (cta.z % c.z)))

/-- `%cluster_ctarank` of a thread of the CTA `cta` on an SM that is bound to a kernel. -/
def clusterCtarank (bound : Option KernelInfo) (cta : Dim3) : Nat :=
  match bound with
  | some k => if k.isClusterLaunch then k.rankOf cta else 0
  | none => 0

/-- The rank that `issue_block2core` gives to a CTA, by its linear id. -/
def issueRank (ctaid : Nat) : Nat :=
  if k.isClusterLaunch then
    let gx := extent k.gridDim.x
    let gy := extent k.gridDim.y
    k.rankOf ⟨ctaid % gx, (ctaid / gx) % gy, ctaid / u32 (gx * gy)⟩
  else 0

end KernelInfo

end FlashGpuSim
