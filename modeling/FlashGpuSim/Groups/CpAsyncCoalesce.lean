import FlashGpuSim.Cache.TagArray
import Mathlib.Data.List.SplitBy
import Mathlib.Data.List.Sort

/-!
The accesses of a `cp.async` instruction and how they are merged into larger requests. No
access is lost, and a merged access has the lanes and the bytes of all its parts.
-/

namespace FlashGpuSim

abbrev maxWarpSize : Nat := 32
abbrev ActiveMask := BitVec maxWarpSize

/-- `mem_access_t` -/
structure MemAccess where
  type : MemAccessType
  addr : NewAddrType
  size : Nat
  isWrite : Bool
  warpMask : ActiveMask
  byteMask : MemAccessByteMask
  sectorMask : MemAccessSectorMask
  deriving DecidableEq, Repr

abbrev MemAccess.maxMemoryAccessSize : Nat := 128

def effectiveCpAsyncRequestGranularity (granularity : Nat) : Nat :=
  if MemAccess.maxMemoryAccessSize ≤ granularity then MemAccess.maxMemoryAccessSize
  else if 2 * sectorSize.toNat ≤ granularity then 2 * sectorSize.toNat
  else sectorSize.toNat

def alignDown (addr : NewAddrType) (alignment : Nat) : NewAddrType :=
  addr - addr % BitVec.ofNat 64 alignment

/-- The bits of `num` sectors. -/
def sectorBits (start num : Nat) : MemAccessSectorMask :=
  BitVec.ofNat sectorChunckSize (2 ^ num - 1) <<< start

namespace MemAccess

def mergeCandidate (access : MemAccess) (granularity : Nat) (base : NewAddrType) : Bool :=
  if access.type ≠ .cpAsyncAccR ∨ access.isWrite then false
  else if access.size = 0 ∨ granularity < access.size then false
  else if access.addr.toNat % sectorSize.toNat ≠ 0 ∨ access.size % sectorSize.toNat ≠ 0 then false
  else base ≤ access.addr ∧
    access.addr + BitVec.ofNat 64 access.size ≤ base + BitVec.ofNat 64 granularity

/-- An access without a sector mask has the sectors of its range. -/
def sectors (access : MemAccess) : MemAccessSectorMask :=
  if access.sectorMask = 0 then
    sectorBits (access.addr.toNat % maxMemoryAccessSize / sectorSize.toNat)
      (access.size / sectorSize.toNat)
  else access.sectorMask

end MemAccess

/-- What `append_cp_async_access_group` appends for a group. -/
def cpAsyncAccessGroup (group : List MemAccess) (granularity : Nat) : List MemAccess :=
  match group with
  | [] => []
  | [access] => [access]
  | first :: _ =>
    let base := alignDown first.addr granularity
    if group.all (·.mergeCandidate granularity base) then
      let activeMask := group.foldl (fun mask access => mask ||| access.warpMask) 0
      let byteMask := group.foldl (fun mask access => mask ||| access.byteMask) 0
      let sectorMask := group.foldl (fun mask access => mask ||| access.sectors) 0
      let requiredSectors := sectorBits (base.toNat % MemAccess.maxMemoryAccessSize / sectorSize.toNat)
        (granularity / sectorSize.toNat)
      if sectorMask &&& requiredSectors ≠ requiredSectors then group
      else [⟨.cpAsyncAccR, base, granularity, false, activeMask, byteMask, requiredSectors⟩]
    else group

/-- `std::sort` leaves open the order of accesses to the same address; here they stay in
order. -/
def coalesceCpAsyncAccesses (accesses : List MemAccess) (granularity : Nat) : List MemAccess :=
  if granularity ≤ sectorSize.toNat ∨ accesses.length ≤ 1 then accesses
  else
    let sorted := accesses.insertionSort (fun a b => a.addr ≤ b.addr)
    let groups := sorted.splitBy fun a b =>
      alignDown a.addr granularity == alignDown b.addr granularity
    groups.flatMap (cpAsyncAccessGroup · granularity)

/-- An access that stands for its parts: it covers them and has their lanes and bytes. -/
structure Merges (access : MemAccess) (parts : List MemAccess) : Prop where
  nonempty : parts ≠ []
  lanes : ∀ lane, access.warpMask.getLsbD lane = true ↔
    ∃ part ∈ parts, part.warpMask.getLsbD lane = true
  bytes : ∀ i, access.byteMask.getLsbD i = true ↔ ∃ part ∈ parts, part.byteMask.getLsbD i = true
  covers : ∀ part ∈ parts, access.addr.toNat ≤ part.addr.toNat ∧
    part.addr.toNat + part.size ≤ access.addr.toNat + access.size

section Merging

variable {access : MemAccess} {group accesses : List MemAccess} {granularity i : Nat}

theorem merges_self (access : MemAccess) : Merges access [access] where
  nonempty := by simp
  lanes := by simp
  bytes := by simp
  covers := by simp

/-- The bits of a mask that is gathered over a group. -/
theorem getLsbD_foldl_or {n : Nat} (mask : MemAccess → BitVec n) (group : List MemAccess)
    (start : BitVec n) :
    (group.foldl (fun acc access => acc ||| mask access) start).getLsbD i = true ↔
      start.getLsbD i = true ∨ ∃ access ∈ group, (mask access).getLsbD i = true := by
  induction group generalizing start with
  | nil => simp
  | cons access rest ih =>
    rw [List.foldl_cons, ih]
    simp [or_assoc]

/-- The accesses of a group as they are. -/
theorem merges_each (group : List MemAccess) :
    List.Forall₂ Merges group (group.map fun access => [access]) := by
  induction group with
  | nil => exact .nil
  | cons access rest ih => exact .cons (merges_self access) ih

theorem merges_each_flatten (group : List MemAccess) :
    (group.map fun access => [access]).flatten = group := by
  induction group with
  | nil => rfl
  | cons access rest ih => exact congrArg (access :: ·) ih

theorem alignDown_toNat (addr : NewAddrType) (hsmall : granularity < 2 ^ 64) :
    (alignDown addr granularity).toNat = addr.toNat - addr.toNat % granularity := by
  unfold alignDown
  have hle := Nat.mod_le addr.toNat granularity
  have haddr := addr.isLt
  rw [BitVec.toNat_sub, BitVec.toNat_umod, BitVec.toNat_ofNat, Nat.mod_eq_of_lt hsmall]
  omega

/-- A candidate of a group lies in the block of the group. -/
theorem MemAccess.mergeCandidate_covers (hgran : granularity = 64 ∨ granularity = 128)
    (h : access.mergeCandidate granularity (alignDown access.addr granularity) = true) :
    (alignDown access.addr granularity).toNat ≤ access.addr.toNat ∧
      access.addr.toNat + access.size ≤
        (alignDown access.addr granularity).toNat + granularity := by
  unfold mergeCandidate at h
  split at h
  · cases h
  split at h
  · cases h
  rename_i hsize
  split at h
  · cases h
  rename_i hsectors
  have hsmall : granularity < 2 ^ 64 := by omega
  have hbase := alignDown_toNat access.addr hsmall
  have haddr := access.addr.isLt
  obtain ⟨-, hend⟩ := of_decide_eq_true h
  rw [BitVec.le_def, BitVec.toNat_add, BitVec.toNat_add, BitVec.toNat_ofNat,
    BitVec.toNat_ofNat] at hend
  have hsector : sectorSize.toNat = 32 := rfl
  rw [hsector] at hsectors
  obtain rfl | rfl := hgran
  · omega
  · omega

theorem cpAsyncAccessGroup_merges (hgran : granularity = 64 ∨ granularity = 128)
    (hsame : ∀ a ∈ group, ∀ b ∈ group, alignDown a.addr granularity = alignDown b.addr granularity) :
    ∃ parts : List (List MemAccess), parts.flatten = group ∧
      List.Forall₂ Merges (cpAsyncAccessGroup group granularity) parts := by
  have heach : ∃ parts : List (List MemAccess), parts.flatten = group ∧
      List.Forall₂ Merges group parts :=
    ⟨_, merges_each_flatten group, merges_each group⟩
  unfold cpAsyncAccessGroup
  split
  · exact heach
  · exact heach
  · rename_i first rest hlong
    dsimp only
    split
    · rename_i hall
      split
      · exact heach
      · rename_i hsectors
        refine ⟨[first :: rest], by simp, .cons ?_ .nil⟩
        constructor
        · simp
        · intro lane
          exact (getLsbD_foldl_or MemAccess.warpMask _ _).trans (by simp)
        · intro j
          exact (getLsbD_foldl_or MemAccess.byteMask _ _).trans (by simp)
        · intro part hpart
          have hcandidate := List.all_eq_true.mp hall part hpart
          have hbase := hsame first List.mem_cons_self part hpart
          rw [hbase] at hcandidate ⊢
          exact part.mergeCandidate_covers hgran hcandidate
    · exact heach

theorem flatMap_merges (hgran : granularity = 64 ∨ granularity = 128)
    (groups : List (List MemAccess)) (hsame : ∀ group ∈ groups, ∀ a ∈ group, ∀ b ∈ group,
      alignDown a.addr granularity = alignDown b.addr granularity) :
    ∃ parts : List (List MemAccess), parts.flatten = groups.flatten ∧
      List.Forall₂ Merges (groups.flatMap (cpAsyncAccessGroup · granularity)) parts := by
  induction groups with
  | nil => exact ⟨[], rfl, .nil⟩
  | cons group rest ih =>
    obtain ⟨parts, hflat, hparts⟩ := cpAsyncAccessGroup_merges hgran
      (hsame group List.mem_cons_self)
    obtain ⟨parts', hflat', hparts'⟩ := ih fun g hg => hsame g (List.mem_cons_of_mem _ hg)
    refine ⟨parts ++ parts', ?_, ?_⟩
    · rw [List.flatten_append, hflat, hflat', List.flatten_cons]
    · rw [List.flatMap_cons]
      exact List.rel_append hparts hparts'

/-- The accesses of a group have one base. -/
theorem same_base {groups : List (List MemAccess)}
    (hgroups : groups = accesses.splitBy fun a b =>
      alignDown a.addr granularity == alignDown b.addr granularity) :
    ∀ group ∈ groups, ∀ a ∈ group, ∀ b ∈ group,
      alignDown a.addr granularity = alignDown b.addr granularity := by
  intro group hgroup
  subst hgroups
  have hchain := List.isChain_of_mem_splitBy hgroup
  have hfirst : ∀ first rest, group = first :: rest → ∀ a ∈ group,
      alignDown first.addr granularity = alignDown a.addr granularity := by
    intro first rest hcons a ha
    subst hcons
    have hbases : (List.map (fun a => alignDown a.addr granularity) (first :: rest)).IsChain
        (· = ·) := by
      rw [List.isChain_map]
      exact hchain.imp fun x y hxy => eq_of_beq hxy
    rw [List.mem_cons] at ha
    obtain rfl | ha := ha
    · rfl
    · exact hbases.rel_cons (List.mem_map_of_mem ha)
  cases group with
  | nil => exact absurd rfl (List.ne_nil_of_mem_splitBy hgroup)
  | cons first rest =>
    intro a ha b hb
    exact (hfirst first rest rfl a ha).symm.trans (hfirst first rest rfl b hb)

/-- Each access is merged into one request, and each request stands for the accesses that
are merged into it. -/
theorem coalesceCpAsyncAccesses_merges (accesses : List MemAccess) (granularity : Nat) :
    ∃ parts : List (List MemAccess), parts.flatten.Perm accesses ∧
      List.Forall₂ Merges (coalesceCpAsyncAccesses accesses
        (effectiveCpAsyncRequestGranularity granularity)) parts := by
  have heach : ∃ parts : List (List MemAccess), parts.flatten.Perm accesses ∧
      List.Forall₂ Merges accesses parts :=
    ⟨_, .of_eq (merges_each_flatten accesses), merges_each accesses⟩
  unfold coalesceCpAsyncAccesses
  split
  · exact heach
  · rename_i hlong
    dsimp only
    have hgran : effectiveCpAsyncRequestGranularity granularity = 64 ∨
        effectiveCpAsyncRequestGranularity granularity = 128 := by
      unfold effectiveCpAsyncRequestGranularity at hlong ⊢
      split
      · exact Or.inr rfl
      · split
        · exact Or.inl rfl
        · rename_i hlow hlower
          rw [if_neg hlow, if_neg hlower] at hlong
          exact absurd (Or.inl le_rfl) hlong
    generalize effectiveCpAsyncRequestGranularity granularity = g at hgran
    obtain ⟨parts, hflat, hparts⟩ := flatMap_merges hgran _ (same_base rfl)
    refine ⟨parts, ?_, hparts⟩
    rw [hflat, List.flatten_splitBy]
    exact List.perm_insertionSort _ accesses

end Merging

end FlashGpuSim
