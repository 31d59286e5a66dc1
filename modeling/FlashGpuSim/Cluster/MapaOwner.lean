import FlashGpuSim.Cluster.CtaBooks

/-!
Addresses of the shared memory of a TB cluster: `mapa` looks a CTA up by its rank and keeps the
SM, and an access with the address looks the CTA up again, by the SM alone.
-/

namespace FlashGpuSim

open Lib

/-- `GLOBAL_HEAP_START` -/
def globalHeapStart : Nat := 0xC00000000

/-- `SHARED_MEM_SIZE_MAX` -/
def sharedMemSizeMax : Nat := 1024 * 2 ^ 10

/-- `MAX_STREAMING_MULTIPROCESSORS` -/
def maxStreamingMultiprocessors : Nat := 1024

/-- `TOTAL_SHARED_MEM` -/
def totalSharedMem : Nat := maxStreamingMultiprocessors * sharedMemSizeMax

/-- `SHARED_GENERIC_START` -/
def sharedGenericStart : Nat := globalHeapStart - totalSharedMem

/-- The SM and the offset of an address of the shared window. -/
def decodeSharedGeneric (addr : Nat) : Option (Nat × Nat) :=
  if addr < sharedGenericStart then none
  else
    let rel := addr - sharedGenericStart
    if totalSharedMem ≤ rel then none
    else some (rel / sharedMemSizeMax, rel % sharedMemSizeMax)

theorem decodeSharedGeneric_at {smId offset : Nat} (hoffset : offset < sharedMemSizeMax)
    (hwindow : smId * sharedMemSizeMax + offset < totalSharedMem) :
    decodeSharedGeneric (sharedGenericStart + smId * sharedMemSizeMax + offset) =
      some (smId, offset) := by
  have hpos : 0 < sharedMemSizeMax := Nat.lt_of_le_of_lt (Nat.zero_le _) hoffset
  have hrel : sharedGenericStart + smId * sharedMemSizeMax + offset - sharedGenericStart =
      offset + smId * sharedMemSizeMax := by omega
  unfold decodeSharedGeneric
  dsimp only
  rw [if_neg (by omega), hrel, if_neg (by omega), Nat.add_mul_div_right _ _ hpos,
    Nat.add_mul_mod_self_right, Nat.div_eq_of_lt hoffset, Nat.mod_eq_of_lt hoffset, Nat.zero_add]

/-- `tb_cluster_target_t`. `core` is the SM of the GPC. -/
structure TbClusterTarget where
  core : Nat × Nat
  smId : Nat
  localSm : Nat
  ctaSlot : Nat
  smem : Nat
  deriving DecidableEq, Repr

namespace CtaGpu

variable (s : CtaGpu)

/-- `get_sid` -/
def getSid (gpc core : Nat) : Nat := s.config.topo.smIdAt gpc core

/-- `fill_target` -/
def fillTarget (peer : CtaPlace) : Option TbClusterTarget := do
  let smem ← (s.slots peer).smem
  let loc ← s.config.topo.locateSm (s.getSid peer.gpc peer.core)
  return { core := (peer.gpc, peer.core), smId := s.getSid peer.gpc peer.core,
           localSm := loc.localSmId, ctaSlot := peer.slot, smem := smem }

/-- `match_group` -/
def matchGroup (requester peer : CtaPlace) : Bool :=
  (s.slots peer).slotActive &&
    if (s.slots requester).group = noGroup then decide (peer = requester)
    else decide ((s.slots peer).group = (s.slots requester).group)

/-- The CTA contexts of a GPC, SM by SM. -/
def contextsOf (gpc : Nat) : List CtaPlace :=
  (List.range (s.config.numCores gpc)).flatMap fun core =>
    (List.range maxCtaPerShader).map fun slot => ⟨gpc, core, slot⟩

/-- `resolve_tb_cluster_rank` -/
def resolveTbClusterRank (requester : CtaPlace) (targetRank : Nat) : Option TbClusterTarget :=
  let group := (s.slots requester).group
  if group = noGroup ∨ (s.gpcs requester.gpc).tbClusterGroupSize group ≤ 1 then
    if targetRank = 0 then s.fillTarget requester else none
  else
    ((s.contextsOf requester.gpc).find? fun peer =>
      s.matchGroup requester peer && decide ((s.slots peer).rank = targetRank)).bind s.fillTarget

/-- The owner lookup stops at this context. -/
def retainsFor (requester peer : CtaPlace) : Bool :=
  (s.slots peer).smem.isSome &&
    (decide ((s.slots requester).group = noGroup) ||
      decide ((s.slots peer).group = (s.slots requester).group))

/-- `gpc_id_of_sm` -/
def gpcIdOfSm (smId : Nat) : Option Nat := (s.config.topo.locateSm smId).map (·.gpcId)

/-- `resolve_tb_cluster_owner_sm` -/
def resolveTbClusterOwnerSm (requester : CtaPlace) (ownerSmId : Nat) : Option TbClusterTarget :=
  let gpc := requester.gpc
  if s.config.numShader ≤ ownerSmId then none
  else if s.gpcIdOfSm ownerSmId ≠ s.gpcIdOfSm (s.getSid gpc requester.core) then none
  else do
    let core ← (List.range (s.config.numCores gpc)).find? fun core => s.getSid gpc core = ownerSmId
    let slot ← (List.range maxCtaPerShader).find? fun slot =>
      s.retainsFor requester ⟨gpc, core, slot⟩
    s.fillTarget ⟨gpc, core, slot⟩

variable {s : CtaGpu} {a peer : CtaPlace} {t : TbClusterTarget} {rank offset : Nat}

theorem fillTarget_some (s : CtaGpu) (peer : CtaPlace)
    (hcore : peer.core < s.config.numCores peer.gpc) {smem : Nat}
    (hsmem : (s.slots peer).smem = some smem) :
    s.fillTarget peer = some { core := (peer.gpc, peer.core), smId := s.getSid peer.gpc peer.core,
                               localSm := peer.core, ctaSlot := peer.slot, smem := smem } := by
  obtain ⟨loc, hloc, -, hlocal⟩ := s.config.topo.locateSm_local hcore
  have hloc : s.config.topo.locateSm (s.getSid peer.gpc peer.core) = some loc := hloc
  unfold fillTarget
  rw [hsmem, hloc]
  simp [hlocal]

/-- Two targets at different contexts are different. -/
theorem fillTarget_eq_iff {p q : CtaPlace} (hp : p.core < s.config.numCores p.gpc)
    (hq : q.core < s.config.numCores q.gpc) (hps : (s.slots p).smem.isSome)
    (hqs : (s.slots q).smem.isSome) : s.fillTarget p = s.fillTarget q ↔ p = q := by
  obtain ⟨x, hx⟩ := Option.isSome_iff_exists.mp hps
  obtain ⟨y, hy⟩ := Option.isSome_iff_exists.mp hqs
  constructor
  · rw [fillTarget_some _ _ hp hx, fillTarget_some _ _ hq hy]
    intro heq
    simp only [Option.some.injEq, TbClusterTarget.mk.injEq, Prod.mk.injEq] at heq
    obtain ⟨⟨hgpc, hcore⟩, -, -, hslot, -⟩ := heq
    cases p
    cases q
    simp_all
  · rintro rfl
    rfl

theorem mem_contextsOf {gpc : Nat} {p : CtaPlace} : p ∈ s.contextsOf gpc ↔
    p.gpc = gpc ∧ p.core < s.config.numCores gpc ∧ p.slot < maxCtaPerShader := by
  unfold contextsOf
  simp only [List.mem_flatMap, List.mem_map, List.mem_range]
  constructor
  · rintro ⟨core, hcore, slot, hslot, rfl⟩
    exact ⟨rfl, hcore, hslot⟩
  · rintro ⟨rfl, hcore, hslot⟩
    exact ⟨p.core, hcore, p.slot, hslot, rfl⟩

/-- The CTA that a rank names is active, on the GPC of the requester, and the owner lookup would
accept it. -/
theorem resolveTbClusterRank_some (hexist : s.Exists a) (hactive : (s.slots a).slotActive = true)
    (h : s.resolveTbClusterRank a rank = some t) :
    ∃ peer, s.fillTarget peer = some t ∧ peer.gpc = a.gpc ∧ s.Exists peer ∧
      (s.slots peer).slotActive = true ∧ s.retainsFor a peer = true := by
  have hretained : ∀ peer, (s.slots peer).slotActive = true → (s.slots peer).smem.isSome := by
    intro peer hpeer
    unfold CtaSlot.slotActive at hpeer
    rw [Bool.and_eq_true] at hpeer
    exact hpeer.2
  unfold resolveTbClusterRank at h
  dsimp only at h
  split at h
  · split at h
    · refine ⟨a, h, rfl, hexist, hactive, ?_⟩
      simp [retainsFor, hretained a hactive]
    · cases h
  · rename_i hgroup
    obtain ⟨peer, hfind, hfill⟩ := Option.bind_eq_some_iff.mp h
    obtain ⟨hgpc, hcore, hslot⟩ := mem_contextsOf.mp (List.mem_of_find?_eq_some hfind)
    have htest := List.find?_some hfind
    rw [Bool.and_eq_true] at htest
    have hmatch := htest.1
    unfold matchGroup at hmatch
    rw [Bool.and_eq_true, if_neg fun hno => hgroup (.inl hno), decide_eq_true_eq] at hmatch
    refine ⟨peer, hfill, hgpc, ⟨hgpc ▸ hexist.1, hgpc ▸ hcore, hslot⟩, hmatch.1, ?_⟩
    simp [retainsFor, hretained peer hmatch.1, hmatch.2]

/-- The owner lookup yields the first context of the SM that it accepts. -/
theorem resolveTbClusterOwnerSm_eq (ha : a.core < s.config.numCores a.gpc) {core : Nat}
    (hcore : core < s.config.numCores a.gpc) :
    s.resolveTbClusterOwnerSm a (s.getSid a.gpc core) =
      ((List.range maxCtaPerShader).find? fun slot => s.retainsFor a ⟨a.gpc, core, slot⟩).bind
        fun slot => s.fillTarget ⟨a.gpc, core, slot⟩ := by
  obtain ⟨loc, hloc, hgpc, -⟩ := s.config.topo.locateSm_local hcore
  obtain ⟨loc', hloc', hgpc', -⟩ := s.config.topo.locateSm_local ha
  have hlt : s.getSid a.gpc core < s.config.numShader := s.config.topo.smIdAt_lt hcore
  have hsame : s.gpcIdOfSm (s.getSid a.gpc core) = s.gpcIdOfSm (s.getSid a.gpc a.core) := by
    unfold gpcIdOfSm getSid
    rw [hloc, hloc', Option.map_some, Option.map_some, hgpc, hgpc']
  have hfind : (List.range (s.config.numCores a.gpc)).find? (fun core' =>
      s.getSid a.gpc core' = s.getSid a.gpc core) = some core := by
    rw [List.find?_range_eq_some]
    refine ⟨decide_eq_true rfl, List.mem_range.mpr hcore, fun j hj => ?_⟩
    have hne : s.getSid a.gpc j ≠ s.getSid a.gpc core := by
      unfold getSid GpuTopology.smIdAt
      omega
    simp [hne]
  unfold resolveTbClusterOwnerSm
  dsimp only
  rw [if_neg (Nat.not_le_of_lt hlt), if_neg (not_not_intro hsame), hfind]
  rfl

/-- Whatever the owner lookup of a CTA of a cluster yields is a context of that cluster. -/
theorem owner_same_group (ha : a.core < s.config.numCores a.gpc) {core : Nat}
    (hcore : core < s.config.numCores a.gpc) (hgroup : (s.slots a).group ≠ noGroup)
    (h : s.resolveTbClusterOwnerSm a (s.getSid a.gpc core) = some t) :
    t.core = (a.gpc, core) ∧ (s.slots ⟨a.gpc, core, t.ctaSlot⟩).smem = some t.smem ∧
      (s.slots ⟨a.gpc, core, t.ctaSlot⟩).group = (s.slots a).group := by
  rw [resolveTbClusterOwnerSm_eq ha hcore] at h
  obtain ⟨slot, hfind, hfill⟩ := Option.bind_eq_some_iff.mp h
  have htest := List.find?_some hfind
  unfold retainsFor at htest
  simp only [Bool.and_eq_true, Bool.or_eq_true, decide_eq_true_eq] at htest
  obtain ⟨smem, hsmem⟩ := Option.isSome_iff_exists.mp htest.1
  rw [fillTarget_some _ _ hcore hsmem] at hfill
  cases hfill
  exact ⟨rfl, hsmem, htest.2.resolve_left hgroup⟩

/-- A GPU with one SM that takes two CTAs of every kernel. -/
def oneSm : CtaConfig where
  topo := ⟨1, [1], by decide, by decide⟩
  maxCtaPerCore := 2
  maxCta := fun _ => 2
  maxCtaPerCore_le := by decide
  maxCta_le := fun _ => by decide

/-- A cluster of two CTAs is launched and issued. -/
def pairOnOneSm : List CtaOp :=
  [.launch ⟨2, 1, 1⟩ ⟨1, 1, 1⟩ 0 0 (some ⟨2, 1, 1⟩), .issue (some 0) fun _ _ => none]

end CtaGpu

end FlashGpuSim
