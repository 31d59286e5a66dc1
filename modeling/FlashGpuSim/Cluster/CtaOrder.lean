import FlashGpuSim.Cluster.KernelWalk
import Mathlib.Algebra.BigOperators.Ring.List
import Mathlib.Data.List.Nodup
import Mathlib.Tactic.Ring

/-!
The order in which a kernel visits its CTAs. Position `p` of the walk is CTA `p % size` of
cluster `p / size`, and an ordinary launch is the case of clusters of one CTA.
-/

namespace FlashGpuSim

open Lib Odometer

namespace Dim3

/-- `s` divides `g` in each direction. -/
def Tiles (s g : Dim3) : Prop := s.x ∣ g.x ∧ s.y ∣ g.y ∧ s.z ∣ g.z

/-- The extents of the six digits of a walk: the ranks of a cluster, then the clusters. -/
def walkExtents (g s : Dim3) : List Nat := [s.x, s.y, s.z, g.x / s.x, g.y / s.y, g.z / s.z]

/-- The CTA of six digits. -/
def place (s : Dim3) : List Nat → Dim3
  | [rx, ry, rz, qx, qy, qz] => ⟨s.x * qx + rx, s.y * qy + ry, s.z * qz + rz⟩
  | _ => .zero

/-- The CTA at a position of the walk. -/
def ctaAt (g s : Dim3) (p : Nat) : Dim3 := place s (shown (walkExtents g s) p)

/-- The rank of a CTA in a cluster of shape `s`. -/
def rankIn (s cta : Dim3) : Nat := cta.x % s.x + s.x * (cta.y % s.y + s.y * (cta.z % s.z))

/-- The cluster of shape `s` that a CTA belongs to. -/
def clusterOf (s cta : Dim3) : Dim3 := ⟨cta.x / s.x, cta.y / s.y, cta.z / s.z⟩

variable {g s : Dim3} {p q : Nat}

theorem Tiles.prod (h : s.Tiles g) : (walkExtents g s).prod = g.prod := by
  obtain ⟨⟨a, ha⟩, ⟨b, hb⟩, ⟨c, hc⟩⟩ := h
  rcases Nat.eq_zero_or_pos s.x with hx | hx
  · simp [walkExtents, Dim3.prod, ha, hx]
  rcases Nat.eq_zero_or_pos s.y with hy | hy
  · simp [walkExtents, Dim3.prod, hb, hy]
  rcases Nat.eq_zero_or_pos s.z with hz | hz
  · simp [walkExtents, Dim3.prod, hc, hz]
  simp only [walkExtents, List.prod_cons, List.prod_nil, Dim3.prod, ha, hb, hc,
    Nat.mul_div_cancel_left _ hx, Nat.mul_div_cancel_left _ hy, Nat.mul_div_cancel_left _ hz]
  ring

theorem Tiles.pos (h : s.Tiles g) (hg : 0 < g.prod) : ∀ e ∈ walkExtents g s, 0 < e := by
  rw [← h.prod] at hg
  exact fun e he => Nat.pos_of_ne_zero fun hzero =>
    absurd (List.prod_eq_zero (hzero ▸ he)) (by omega)

/-- A walk stays in its grid. -/
theorem ctaAt_within (h : s.Tiles g) (hg : 0 < g.prod) : (ctaAt g s p).Within g := by
  have hpos := h.pos hg
  simp only [walkExtents, List.mem_cons, List.not_mem_nil, or_false, forall_eq_or_imp,
    forall_eq] at hpos
  obtain ⟨hx, hy, hz, hqx, hqy, hqz⟩ := hpos
  have hle : ∀ {d n e r t : Nat}, 0 < e → 0 < n / e → e ∣ n → r < e → t = d % (n / e) →
      e * t + r < n := by
    intro d n e r t he hn ⟨a, ha⟩ hr ht
    subst ha
    rw [Nat.mul_div_cancel_left _ he] at hn ht
    have hlt : t < a := ht ▸ Nat.mod_lt d hn
    have := Nat.mul_le_mul_left e hlt
    rw [Nat.mul_succ] at this
    omega
  exact ⟨hle hx hqx h.1 (Nat.mod_lt _ hx) rfl, hle hy hqy h.2.1 (Nat.mod_lt _ hy) rfl,
    hle hz hqz h.2.2 (Nat.mod_lt _ hz) rfl⟩

theorem rankIn_ctaAt : rankIn s (ctaAt g s p) = p % s.prod := by
  simp only [rankIn, ctaAt, walkExtents, shown, place, Nat.mul_add_mod, Nat.mod_mod]
  rw [Dim3.prod, Nat.mul_assoc, Nat.mod_mul, Nat.mod_mul]

theorem clusterOf_ctaAt (hx : 0 < s.x) (hy : 0 < s.y) (hz : 0 < s.z) :
    clusterOf s (ctaAt g s p) =
      place ⟨1, 1, 1⟩ (0 :: 0 :: 0 :: shown [g.x / s.x, g.y / s.y, g.z / s.z] (p / s.prod)) := by
  have hdiv : ∀ {e q r : Nat}, 0 < e → (e * q + r % e) / e = q := by
    intro e q r he
    rw [Nat.mul_add_div he, Nat.div_eq_of_lt (Nat.mod_lt r he), Nat.add_zero]
  simp only [clusterOf, ctaAt, walkExtents, shown, place, hdiv hx, hdiv hy, hdiv hz, one_mul,
    add_zero, Dim3.prod, ← Nat.div_div_eq_div_mul]

/-- Every CTA of the grid has its position. -/
theorem exists_ctaAt (h : s.Tiles g) (hg : 0 < g.prod) {cta : Dim3} (hcta : cta.Within g) :
    ∃ p < g.prod, ctaAt g s p = cta := by
  have hpos := h.pos hg
  simp only [walkExtents, List.mem_cons, List.not_mem_nil, or_false, forall_eq_or_imp,
    forall_eq] at hpos
  obtain ⟨hx, hy, hz, -⟩ := hpos
  obtain ⟨hcx, hcy, hcz⟩ := hcta
  have hq : ∀ {n e d : Nat}, e ∣ n → d < n → d / e < n / e := fun hdvd hd =>
    Nat.div_lt_div_of_lt_of_dvd hdvd hd
  let ds := [cta.x % s.x, cta.y % s.y, cta.z % s.z, cta.x / s.x, cta.y / s.y, cta.z / s.z]
  have hds : List.Forall₂ (· < ·) ds (walkExtents g s) :=
    .cons (Nat.mod_lt _ hx) (.cons (Nat.mod_lt _ hy) (.cons (Nat.mod_lt _ hz)
      (.cons (hq h.1 hcx) (.cons (hq h.2.1 hcy) (.cons (hq h.2.2 hcz) .nil)))))
  refine ⟨count (walkExtents g s) ds, h.prod ▸ count_lt hds, ?_⟩
  rw [ctaAt, shown_count hds]
  simp only [ds, place, Nat.div_add_mod]

/-- Two positions of the walk are two CTAs. -/
theorem ctaAt_injective (h : s.Tiles g) (hg : 0 < g.prod) (hp : p < g.prod) (hq : q < g.prod)
    (heq : ctaAt g s p = ctaAt g s q) : p = q := by
  have hpos := h.pos hg
  simp only [walkExtents, List.mem_cons, List.not_mem_nil, or_false, forall_eq_or_imp,
    forall_eq] at hpos
  obtain ⟨hx, hy, hz, -⟩ := hpos
  have hback : ∀ p, shown (walkExtents g s) p =
      [(ctaAt g s p).x % s.x, (ctaAt g s p).y % s.y, (ctaAt g s p).z % s.z,
        (ctaAt g s p).x / s.x, (ctaAt g s p).y / s.y, (ctaAt g s p).z / s.z] := by
    intro p
    have hdiv : ∀ {e q r : Nat}, 0 < e → (e * q + r % e) / e = q := by
      intro e q r he
      rw [Nat.mul_add_div he, Nat.div_eq_of_lt (Nat.mod_lt r he), Nat.add_zero]
    simp only [ctaAt, walkExtents, shown, place, Nat.mul_add_mod, Nat.mod_mod, hdiv hx, hdiv hy,
      hdiv hz]
  have hshown : shown (walkExtents g s) p = shown (walkExtents g s) q := by
    rw [hback p, hback q, heq]
  calc p = count (walkExtents g s) (shown (walkExtents g s) p) := (count_shown (h.prod ▸ hp)).symm
    _ = count (walkExtents g s) (shown (walkExtents g s) q) := by rw [hshown]
    _ = q := count_shown (h.prod ▸ hq)

/-- Two positions of the walk are in one cluster when they are in one block of its size. -/
theorem clusterOf_ctaAt_iff (h : s.Tiles g) (hg : 0 < g.prod) (hp : p < g.prod) (hq : q < g.prod) :
    clusterOf s (ctaAt g s p) = clusterOf s (ctaAt g s q) ↔ p / s.prod = q / s.prod := by
  have hpos := h.pos hg
  simp only [walkExtents, List.mem_cons, List.not_mem_nil, or_false, forall_eq_or_imp,
    forall_eq] at hpos
  obtain ⟨hx, hy, hz, -⟩ := hpos
  rw [clusterOf_ctaAt hx hy hz, clusterOf_ctaAt hx hy hz]
  constructor
  · intro heq
    have hclusters : g.prod = s.prod * [g.x / s.x, g.y / s.y, g.z / s.z].prod := by
      rw [← h.prod]
      simp only [walkExtents, List.prod_cons, List.prod_nil, Dim3.prod]
      ring
    have hdigits : shown [g.x / s.x, g.y / s.y, g.z / s.z] (p / s.prod) =
        shown [g.x / s.x, g.y / s.y, g.z / s.z] (q / s.prod) := by
      simpa [place, shown] using heq
    have hlt : ∀ {n : Nat}, n < g.prod →
        n / s.prod < [g.x / s.x, g.y / s.y, g.z / s.z].prod := fun hn =>
      Nat.div_lt_of_lt_mul (hclusters ▸ hn)
    rw [← count_shown (hlt hp), hdigits, count_shown (hlt hq)]
  · intro heq
    rw [heq]

end Dim3

open Dim3

variable {g s c : Dim3} {ds ds' : List Nat}

theorem add_lt_iff {e q n : Nat} (he : 0 < e) (h : e ∣ n) :
    e * q + e < n ↔ q + 1 < n / e := by
  obtain ⟨a, rfl⟩ := h
  rw [Nat.mul_div_cancel_left _ he, ← Nat.mul_succ]
  exact Nat.mul_lt_mul_left he

/-- One step of a cluster launch is one tick of the six digits. -/
theorem stepNextCta_place (h : Divisible g c)
    (hds : List.Forall₂ (· < ·) ds (walkExtents g c.extents)) :
    stepNextCta (place c.extents ds) g c true =
      match tick (walkExtents g c.extents) ds with
      | some ds' => place c.extents ds'
      | none => ⟨g.x, 0, 0⟩ := by
  have hx : extent c.x ∣ g.x := Nat.dvd_of_mod_eq_zero h.2.2.2.1
  have hy : extent c.y ∣ g.y := Nat.dvd_of_mod_eq_zero h.2.2.2.2.1
  have hz : extent c.z ∣ g.z := Nat.dvd_of_mod_eq_zero h.2.2.2.2.2
  obtain ⟨rx, ry, rz, qx, qy, qz, rfl, hrx, hry, hrz⟩ : ∃ rx ry rz qx qy qz,
      ds = [rx, ry, rz, qx, qy, qz] ∧ rx < extent c.x ∧ ry < extent c.y ∧ rz < extent c.z := by
    rcases hds with _ | ⟨hrx, _ | ⟨hry, _ | ⟨hrz, _ | ⟨_, _ | ⟨_, _ | ⟨_, _ | _⟩⟩⟩⟩⟩⟩
    exact ⟨_, _, _, _, _, _, rfl, hrx, hry, hrz⟩
  unfold stepNextCta
  rw [if_pos ⟨rfl, h⟩]
  simp only [place, walkExtents, tick, extents, Nat.mul_add_mod, Nat.mod_eq_of_lt hrx,
    Nat.mod_eq_of_lt hry, Nat.mod_eq_of_lt hrz, Nat.add_sub_cancel,
    add_lt_iff (extent_pos c.x) hx, add_lt_iff (extent_pos c.y) hy,
    add_lt_iff (extent_pos c.z) hz]
  by_cases h₁ : rx + 1 < extent c.x
  · simp [h₁]
  by_cases h₂ : ry + 1 < extent c.y
  · simp [h₁, h₂]
  by_cases h₃ : rz + 1 < extent c.z
  · simp [h₁, h₂, h₃]
  by_cases h₄ : qx + 1 < g.x / extent c.x
  · simp [h₁, h₂, h₃, h₄, Nat.mul_succ]
  by_cases h₅ : qy + 1 < g.y / extent c.y
  · simp [h₁, h₂, h₃, h₄, h₅, Nat.mul_succ]
  by_cases h₆ : qz + 1 < g.z / extent c.z
  · simp [h₁, h₂, h₃, h₄, h₅, h₆, Nat.mul_succ]
  · simp [h₁, h₂, h₃, h₄, h₅, h₆]

/-- One step of an ordinary launch is one tick of the digits of clusters of one CTA. -/
theorem incrementXThenYThenZ_place (hds : List.Forall₂ (· < ·) ds (walkExtents g ⟨1, 1, 1⟩)) :
    incrementXThenYThenZ (place ⟨1, 1, 1⟩ ds) g =
      match tick (walkExtents g ⟨1, 1, 1⟩) ds with
      | some ds' => place ⟨1, 1, 1⟩ ds'
      | none => ⟨0, 0, g.z⟩ := by
  obtain ⟨rx, ry, rz, qx, qy, qz, rfl, hrx, hry, hrz, hqz⟩ : ∃ rx ry rz qx qy qz,
      ds = [rx, ry, rz, qx, qy, qz] ∧ rx < 1 ∧ ry < 1 ∧ rz < 1 ∧ qz < g.z / 1 := by
    rcases hds with _ | ⟨hrx, _ | ⟨hry, _ | ⟨hrz, _ | ⟨_, _ | ⟨_, _ | ⟨hqz, _ | _⟩⟩⟩⟩⟩⟩
    exact ⟨_, _, _, _, _, _, rfl, hrx, hry, hrz, hqz⟩
  obtain rfl : rx = 0 := by omega
  obtain rfl : ry = 0 := by omega
  obtain rfl : rz = 0 := by omega
  rw [Nat.div_one] at hqz
  simp only [incrementXThenYThenZ, place, walkExtents, tick, Nat.div_one, one_mul, add_zero,
    if_pos hqz]
  by_cases h₄ : qx + 1 < g.x
  · simp [h₄]
  by_cases h₅ : qy + 1 < g.y
  · simp [h₄, h₅]
  by_cases h₆ : qz + 1 < g.z
  · simp [h₄, h₅, h₆]
  · have hlast : qz + 1 = g.z := by omega
    simp [h₄, h₅, hlast]

namespace KernelInfo

variable {k : KernelInfo} {p : Nat}

/-- The shape in whose blocks a kernel walks. -/
def walkShape (k : KernelInfo) : Dim3 :=
  if k.isClusterLaunch then k.clusterDim.extents else ⟨1, 1, 1⟩

/-- A grid without a zero extent, a multiple of the cluster, and a cluster whose CTAs were
counted with every zero extent as one. -/
structure Shaped (k : KernelInfo) : Prop where
  grid_pos : 0 < k.gridDim.prod
  grid_small : k.gridDim.prod < 2 ^ 32
  tiles : k.walkShape.Tiles k.gridDim
  ctas : k.isClusterLaunch = true → k.ctasPerCluster = k.walkShape.prod

/-- A kernel after `p` steps of its walk. -/
structure AtPosition (k : KernelInfo) (p : Nat) : Prop where
  le : p ≤ k.gridDim.prod
  next : p < k.gridDim.prod → k.nextCta = ctaAt k.gridDim k.walkShape p
  stop : p = k.gridDim.prod → k.noMoreCtasToRun = true

theorem Shaped.grid_extents (h : k.Shaped) :
    0 < k.gridDim.x ∧ 0 < k.gridDim.y ∧ 0 < k.gridDim.z := by
  have hpos := h.grid_pos
  unfold Dim3.prod at hpos
  refine ⟨Nat.pos_of_ne_zero ?_, Nat.pos_of_ne_zero ?_, Nat.pos_of_ne_zero ?_⟩
  all_goals
    intro hzero
    simp [hzero] at hpos

theorem AtPosition.more (h : k.AtPosition p) (hs : k.Shaped) :
    k.noMoreCtasToRun = false ↔ p < k.gridDim.prod := by
  constructor
  · intro hmore
    apply Nat.lt_of_le_of_ne h.le
    intro hlast
    rw [h.stop hlast] at hmore
    cases hmore
  · intro hlt
    unfold noMoreCtasToRun
    rw [h.next hlt]
    exact decide_eq_false (not_not.mpr (ctaAt_within hs.tiles hs.grid_pos))

theorem walkShape_pos : 0 < k.walkShape.prod := by
  unfold walkShape Dim3.prod
  split
  · have hx := extent_pos k.clusterDim.x
    have hy := extent_pos k.clusterDim.y
    have hz := extent_pos k.clusterDim.z
    exact Nat.mul_pos (Nat.mul_pos hx hy) hz
  · exact Nat.one_pos

theorem Shaped.divisible (hs : k.Shaped) (hcluster : k.isClusterLaunch = true) :
    Divisible k.gridDim k.clusterDim := by
  obtain ⟨hx, hy, hz⟩ := hs.grid_extents
  have htiles := hs.tiles
  unfold walkShape at htiles
  rw [if_pos hcluster] at htiles
  exact ⟨by omega, by omega, by omega, Nat.mod_eq_zero_of_dvd htiles.1,
    Nat.mod_eq_zero_of_dvd htiles.2.1, Nat.mod_eq_zero_of_dvd htiles.2.2⟩

theorem launch_atPosition (hs : k.Shaped) (hnext : k.nextCta = .zero) : k.AtPosition 0 := by
  have hzero : ctaAt k.gridDim k.walkShape 0 = .zero := by
    simp [ctaAt, shown_zero, walkExtents, place, Dim3.zero]
  refine ⟨Nat.zero_le _, fun _ => hnext.trans hzero.symm, fun h => ?_⟩
  have := hs.grid_pos
  omega

/-- One step of the walk goes to the next position. -/
theorem AtPosition.step (h : k.AtPosition p) (hs : k.Shaped) (hlt : p < k.gridDim.prod) :
    k.incrementCtaId.AtPosition (p + 1) := by
  have hpos := hs.tiles.pos hs.grid_pos
  have hds : List.Forall₂ (· < ·) (shown (walkExtents k.gridDim k.walkShape) p)
      (walkExtents k.gridDim k.walkShape) := shown_lt hpos
  have hprod := hs.tiles.prod
  have hstep : ∃ last : Dim3, ¬ last.Within k.gridDim ∧ k.incrementCtaId.nextCta =
      match tick (walkExtents k.gridDim k.walkShape)
        (shown (walkExtents k.gridDim k.walkShape) p) with
      | some ds' => place k.walkShape ds'
      | none => last := by
    unfold incrementCtaId
    rw [h.next hlt]
    cases hcluster : k.isClusterLaunch with
    | true =>
      have hshape : k.walkShape = k.clusterDim.extents := if_pos hcluster
      rw [hshape] at hds ⊢
      exact ⟨⟨k.gridDim.x, 0, 0⟩, fun hin => Nat.lt_irrefl _ hin.1,
        stepNextCta_place (hs.divisible hcluster) hds⟩
    | false =>
      have hshape : k.walkShape = ⟨1, 1, 1⟩ := if_neg (by simp [hcluster])
      rw [hshape] at hds ⊢
      refine ⟨⟨0, 0, k.gridDim.z⟩, fun hin => Nat.lt_irrefl _ hin.2.2, ?_⟩
      unfold stepNextCta
      rw [if_neg (by simp)]
      exact incrementXThenYThenZ_place hds
  obtain ⟨last, hlast, hnext⟩ := hstep
  refine ⟨hlt, fun hlt' => ?_, fun hstop => ?_⟩
  · rw [hnext, tick_shown hpos (hprod ▸ hlt')]
    rfl
  · unfold noMoreCtasToRun
    rw [hnext, tick_last hpos (hprod ▸ hstop)]
    exact decide_eq_true hlast

/-- The linear id of a CTA gives its coordinates back. -/
theorem single_coordinates {x y z gx gy : Nat} (hx : x < gx) (hy : y < gy) :
    (x + gx * y + gx * gy * z) % gx = x ∧ (x + gx * y + gx * gy * z) / gx % gy = y ∧
      (x + gx * y + gx * gy * z) / (gx * gy) = z := by
  have hsum : x + gx * y + gx * gy * z = gx * (gy * z + y) + x := by ring
  have hdiv : (gx * (gy * z + y) + x) / gx = gy * z + y := by
    rw [Nat.mul_add_div (by omega), Nat.div_eq_of_lt hx, Nat.add_zero]
  refine ⟨?_, ?_, ?_⟩
  · rw [hsum, Nat.mul_add_mod, Nat.mod_eq_of_lt hx]
  · rw [hsum, hdiv, Nat.mul_add_mod, Nat.mod_eq_of_lt hy]
  · rw [hsum, ← Nat.div_div_eq_div_mul, hdiv, Nat.mul_add_div (by omega), Nat.div_eq_of_lt hy,
      Nat.add_zero]

theorem Shaped.rankOf (hs : k.Shaped) (hcluster : k.isClusterLaunch = true) :
    k.rankOf (ctaAt k.gridDim k.walkShape p) = p % k.ctasPerCluster := by
  have hshape : k.walkShape = k.clusterDim.extents := if_pos hcluster
  have hsmall : p % k.walkShape.prod < 2 ^ 32 := by
    have hle : k.walkShape.prod ≤ k.gridDim.prod := by
      obtain ⟨hx, hy, hz⟩ := hs.grid_extents
      exact Nat.mul_le_mul (Nat.mul_le_mul (Nat.le_of_dvd hx hs.tiles.1)
        (Nat.le_of_dvd hy hs.tiles.2.1)) (Nat.le_of_dvd hz hs.tiles.2.2)
    have := Nat.mod_lt p k.walkShape_pos
    have := hs.grid_small
    omega
  have hrank : rankIn k.walkShape (ctaAt k.gridDim k.walkShape p) = p % k.walkShape.prod :=
    rankIn_ctaAt
  rw [hs.ctas hcluster, ← u32_of_lt hsmall, ← hrank]
  unfold KernelInfo.rankOf rankIn
  rw [hshape]

/-- `issue_block2core` computes the rank that the threads of the CTA read: the position in the
walk modulo the cluster size. -/
theorem AtPosition.issueRank (h : k.AtPosition p) (hs : k.Shaped) (hlt : p < k.gridDim.prod)
    (hcluster : k.isClusterLaunch = true) :
    k.issueRank k.nextCtaIdSingle = p % k.ctasPerCluster ∧
      clusterCtarank (some k) k.nextCta = p % k.ctasPerCluster := by
  obtain ⟨hx, hy, hz⟩ := hs.grid_extents
  have hin : k.nextCta.Within k.gridDim := by
    rw [h.next hlt]
    exact ctaAt_within hs.tiles hs.grid_pos
  have hrank : k.rankOf k.nextCta = p % k.ctasPerCluster := by
    rw [h.next hlt]
    exact hs.rankOf hcluster
  have hxy : k.gridDim.x * k.gridDim.y ≤ k.gridDim.prod := Nat.le_mul_of_pos_right _ hz
  have hsmall := hs.grid_small
  have hid : k.nextCta.x + k.gridDim.x * k.nextCta.y +
      k.gridDim.x * k.gridDim.y * k.nextCta.z < 2 ^ 32 := by
    refine Nat.lt_of_lt_of_le ?_ (Nat.le_of_lt hsmall)
    have hy1 := Nat.mul_le_mul_left k.gridDim.x (Nat.succ_le_of_lt hin.2.1)
    have hz1 := Nat.mul_le_mul_left (k.gridDim.x * k.gridDim.y) (Nat.succ_le_of_lt hin.2.2)
    rw [Nat.mul_succ] at hy1 hz1
    have := hin.1
    unfold Dim3.prod
    omega
  obtain ⟨hcx, hcy, hcz⟩ := single_coordinates (z := k.nextCta.z) hin.1 hin.2.1
  constructor
  · unfold KernelInfo.issueRank KernelInfo.nextCtaIdSingle
    rw [if_pos hcluster, extent_of_pos hx, extent_of_pos hy, u32_of_lt hid]
    dsimp only
    rw [u32_of_lt (by omega : k.gridDim.x * k.gridDim.y < 2 ^ 32), hcx, hcy, hcz]
    exact hrank
  · unfold clusterCtarank
    dsimp only
    rw [if_pos hcluster]
    exact hrank

/-- The CTAs that a kernel gives out, in their order. -/
def walk : (fuel : Nat) → KernelInfo → List Dim3
  | 0, _ => []
  | fuel + 1, k =>
    if k.noMoreCtasToRun then [] else k.nextCta :: walk fuel k.incrementCtaId

/-- From a position of the walk the positions behind it follow. -/
theorem AtPosition.walk {fuel : Nat} (h : k.AtPosition p) (hs : k.Shaped)
    (hfuel : k.gridDim.prod - p ≤ fuel) :
    walk fuel k = (List.range' p (k.gridDim.prod - p)).map (ctaAt k.gridDim k.walkShape) := by
  induction fuel generalizing k p with
  | zero =>
    have hnone : k.gridDim.prod - p = 0 := by omega
    simp [KernelInfo.walk, hnone]
  | succ fuel ih =>
    unfold KernelInfo.walk
    by_cases hlt : p < k.gridDim.prod
    · have hmore := (h.more hs).mpr hlt
      have hnext : k.incrementCtaId.Shaped := ⟨hs.grid_pos, hs.grid_small, hs.tiles, hs.ctas⟩
      have hrest : walk fuel k.incrementCtaId =
          (List.range' (p + 1) (k.gridDim.prod - (p + 1))).map (ctaAt k.gridDim k.walkShape) :=
        ih (h.step hs hlt) hnext (show k.gridDim.prod - (p + 1) ≤ fuel by omega)
      have hcount : k.gridDim.prod - p = k.gridDim.prod - (p + 1) + 1 := by omega
      rw [hmore, hrest, h.next hlt, hcount, List.range'_succ, List.map_cons]
      rfl
    · have hlast : p = k.gridDim.prod := Nat.le_antisymm h.le (Nat.le_of_not_lt hlt)
      rw [h.stop hlast, if_pos rfl, hlast, Nat.sub_self]
      rfl

/-- A launched kernel gives out every CTA of its grid once and no other. In a cluster launch
the ranks follow each other, and the CTAs of a cluster come one behind the other. -/
theorem walk_visits_once {fuel : Nat} (hs : k.Shaped) (hnext : k.nextCta = .zero)
    (hfuel : k.gridDim.prod ≤ fuel) :
    (walk fuel k).Nodup ∧ (∀ cta, cta ∈ walk fuel k ↔ cta.Within k.gridDim) ∧
      (k.isClusterLaunch = true → ∀ p q cta cta', (walk fuel k)[p]? = some cta →
        (walk fuel k)[q]? = some cta' → k.rankOf cta = p % k.ctasPerCluster ∧
          (clusterOf k.clusterDim.extents cta = clusterOf k.clusterDim.extents cta' ↔
            p / k.ctasPerCluster = q / k.ctasPerCluster)) := by
  have hwalk : walk fuel k = (List.range k.gridDim.prod).map (ctaAt k.gridDim k.walkShape) := by
    have h := (launch_atPosition hs hnext).walk hs hfuel
    rwa [Nat.sub_zero, ← List.range_eq_range'] at h
  rw [hwalk]
  refine ⟨?_, fun cta => ?_, fun hcluster p q cta cta' hp hq => ?_⟩
  · refine List.Nodup.map_on ?_ List.nodup_range
    intro a ha b hb heq
    exact ctaAt_injective hs.tiles hs.grid_pos (List.mem_range.mp ha) (List.mem_range.mp hb) heq
  · constructor
    · intro hcta
      obtain ⟨a, -, rfl⟩ := List.mem_map.mp hcta
      exact ctaAt_within hs.tiles hs.grid_pos
    · intro hcta
      obtain ⟨a, ha, hat⟩ := exists_ctaAt hs.tiles hs.grid_pos hcta
      exact List.mem_map.mpr ⟨a, List.mem_range.mpr ha, hat⟩
  · have hpos : ∀ {n : Nat} {cta : Dim3},
        ((List.range k.gridDim.prod).map (ctaAt k.gridDim k.walkShape))[n]? = some cta →
          n < k.gridDim.prod ∧ ctaAt k.gridDim k.walkShape n = cta := by
      intro n cta hn
      rw [List.getElem?_map] at hn
      obtain ⟨m, hm, hcta⟩ := Option.map_eq_some_iff.mp hn
      obtain ⟨hlt, hat⟩ := List.getElem?_eq_some_iff.mp hm
      rw [List.length_range] at hlt
      rw [List.getElem_range] at hat
      exact ⟨hlt, hat ▸ hcta⟩
    obtain ⟨hlt, rfl⟩ := hpos hp
    obtain ⟨hlt', rfl⟩ := hpos hq
    have hshape : k.walkShape = k.clusterDim.extents := if_pos hcluster
    refine ⟨hs.rankOf hcluster, ?_⟩
    rw [← hshape, hs.ctas hcluster]
    exact clusterOf_ctaAt_iff hs.tiles hs.grid_pos hlt hlt'

/-- Clusters of two CTAs. -/
def pairs : KernelInfo := (launch ⟨4, 2, 1⟩ ⟨32, 1, 1⟩ 0 0).setClusterLaunch ⟨2, 1, 1⟩

theorem walk_visits_once_witness :
    (walk 8 pairs).Nodup ∧ (∀ cta, cta ∈ walk 8 pairs ↔ cta.Within pairs.gridDim) ∧
      (pairs.isClusterLaunch = true → ∀ p q cta cta', (walk 8 pairs)[p]? = some cta →
        (walk 8 pairs)[q]? = some cta' → pairs.rankOf cta = p % pairs.ctasPerCluster ∧
          (clusterOf pairs.clusterDim.extents cta = clusterOf pairs.clusterDim.extents cta' ↔
            p / pairs.ctasPerCluster = q / pairs.ctasPerCluster)) :=
  walk_visits_once ⟨by decide, by decide, ⟨by decide, by decide, by decide⟩, fun _ => by decide⟩
    rfl (by decide)

end KernelInfo

end FlashGpuSim
