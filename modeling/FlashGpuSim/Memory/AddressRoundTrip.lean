import FlashGpuSim.Memory.GenericAddress

/-!
Which addresses survive the conversion to generic addresses and back. A stack pointer is added with
every step, and a compact address has no way back to a generic one.
-/

namespace FlashGpuSim

/-! ### Numbers -/

theorem sharedMemSizeMax_eq : sharedMemSizeMax = 1048576 := rfl

theorem totalSharedMem_eq : totalSharedMem = 1073741824 := rfl

theorem sharedGenericStart_eq : sharedGenericStart = 50465865728 := rfl

theorem globalHeapStart_eq : globalHeapStart = 51539607552 := rfl

theorem localGenericStart_eq : localGenericStart = 16106127360 := rfl

theorem staticAllocLimit_eq : staticAllocLimit = 16106127360 := rfl

theorem totalLocalMemPerSm_eq : totalLocalMemPerSm = 33554432 := rfl

theorem localMemSizeMax_eq : localMemSizeMax = 16384 := rfl

variable {t : AddressThread} {addr owner offset : Nat}

/-! ### Windows -/

/-- A generic address of shared memory. -/
def genericShared (owner offset : Nat) : Nat :=
  sharedGenericStart + owner * sharedMemSizeMax + offset

theorem genericShared_bounds (howner : owner < maxStreamingMultiprocessors)
    (hoffset : offset < sharedMemSizeMax) :
    50465865728 ≤ genericShared owner offset ∧ genericShared owner offset < 51539607552 := by
  have howner : owner < 1024 := howner
  unfold genericShared
  rw [sharedMemSizeMax_eq, sharedGenericStart_eq] at *
  omega

theorem whichspace_shared (hge : 50465865728 ≤ addr) (hlt : addr < 51539607552) :
    whichspace addr = .sharedSpace := by
  unfold whichspace
  rw [globalHeapStart_eq, staticAllocLimit_eq, sharedGenericStart_eq, if_neg (by omega),
    if_pos hge]

theorem whichspace_local (hge : 16106127360 ≤ addr) (hlt : addr < 50465865728) :
    whichspace addr = .localSpace := by
  unfold whichspace
  rw [globalHeapStart_eq, staticAllocLimit_eq, sharedGenericStart_eq, if_neg (by omega),
    if_neg (by omega)]

theorem whichspace_global (h : isspaceGlobal addr = true) : whichspace addr = .globalSpace :=
  if_pos (of_decide_eq_true h)

theorem decodeSharedGeneric_shared (howner : owner < maxStreamingMultiprocessors)
    (hoffset : offset < sharedMemSizeMax) :
    decodeSharedGeneric (genericShared owner offset) = some (owner, offset) := by
  refine decodeSharedGeneric_at hoffset ?_
  have howner : owner < 1024 := howner
  rw [sharedMemSizeMax_eq, totalSharedMem_eq] at *
  omega

theorem sharedToGeneric_shared (howner : owner < maxStreamingMultiprocessors)
    (hoffset : offset < sharedMemSizeMax) :
    sharedToGeneric owner offset = some (genericShared owner offset) := by
  have hbounds := genericShared_bounds howner hoffset
  unfold sharedToGeneric
  rw [if_pos hoffset]
  exact congrArg some (Nat.mod_eq_of_lt (by unfold genericShared at hbounds; omega))

theorem decodeGeneric_of_shared (hspace : whichspace addr = .sharedSpace)
    (hdecode : decodeSharedGeneric addr = some (owner, offset)) :
    decodeGeneric t addr = sharedPlace t owner offset := by
  unfold decodeGeneric
  rw [hspace, hdecode]

theorem decodeGeneric_of_local (hspace : whichspace addr = .localSpace)
    (hlocal : genericToLocal t.smid t.hwtid addr = some offset) :
    decodeGeneric t addr = some (.localMem offset) := by
  unfold decodeGeneric
  rw [hspace, hlocal]
  rfl

theorem decodeGeneric_of_global (hspace : whichspace addr = .globalSpace) :
    decodeGeneric t addr = some (.globalMem addr) := by
  unfold decodeGeneric
  rw [hspace]
  rfl

theorem decodeGeneric_shared (howner : owner < maxStreamingMultiprocessors)
    (hoffset : offset < sharedMemSizeMax) :
    decodeGeneric t (genericShared owner offset) = sharedPlace t owner offset := by
  obtain ⟨hge, hlt⟩ := genericShared_bounds howner hoffset
  exact decodeGeneric_of_shared (whichspace_shared hge hlt)
    (decodeSharedGeneric_shared howner hoffset)

theorem decodeExplicit_plain (hoffset : offset < sharedMemSizeMax) :
    decodeExplicit t .sharedSpace offset = sharedPlace t t.smid offset := by
  unfold decodeExplicit
  rw [sharedMemSizeMax_eq] at *
  have hcut : u32 offset = offset := u32_of_lt (by omega)
  simp only [sharedGenericStart_eq, hcut, show offset < 50465865728 by omega, if_true,
    Nat.not_le.mpr hoffset, if_false, Nat.mod_eq_of_lt hoffset]

theorem decodeExplicit_compact (howner : owner < maxStreamingMultiprocessors)
    (hoffset : offset < sharedMemSizeMax) :
    decodeExplicit t .sharedSpace (compactShared owner offset) = sharedPlace t owner offset := by
  have howner : owner < 1024 := howner
  unfold decodeExplicit compactShared
  rw [sharedMemSizeMax_eq] at *
  have hcut : u32 ((owner + 1) * 1048576 + offset) = (owner + 1) * 1048576 + offset :=
    u32_of_lt (by omega)
  have hdiv : ((owner + 1) * 1048576 + offset) / 1048576 - 1 = owner := by omega
  have hmod : ((owner + 1) * 1048576 + offset) % 1048576 = offset := by omega
  simp only [sharedGenericStart_eq, hcut, hdiv, hmod,
    show (owner + 1) * 1048576 + offset < 50465865728 by omega, if_true,
    show 1048576 ≤ (owner + 1) * 1048576 + offset by omega, u32_of_lt (show owner < 2 ^ 32 by omega)]

/-- No compact address has a generic one. -/
theorem cvta_compact (h : sharedMemSizeMax ≤ addr) : cvta t .sharedSpace addr = none :=
  if_neg (Nat.not_lt.mpr h)

/-! ### Local memory -/

theorem localWindow_bounds (smid : Fin maxStreamingMultiprocessors) (hwtid : Fin maxThreadPerSm) :
    16106127360 ≤ localWindow smid hwtid ∧ localWindow smid hwtid + 16384 ≤ 50465865728 := by
  have hsmid : smid.val < 1024 := smid.isLt
  have hhwtid : hwtid.val < 2048 := hwtid.isLt
  unfold localWindow
  rw [localGenericStart_eq, totalLocalMemPerSm_eq, localMemSizeMax_eq]
  omega

theorem isspaceLocal_iff {smid hwtid : Nat} : isspaceLocal smid hwtid addr = true ↔
    localWindow smid hwtid ≤ addr ∧ addr < localWindow smid hwtid + localMemSizeMax := by
  unfold isspaceLocal
  rw [decide_eq_true_iff, localWindow, Nat.mul_succ, ← Nat.add_assoc]

theorem genericToLocal_window {smid hwtid : Nat} (hoffset : offset < localMemSizeMax) :
    genericToLocal smid hwtid (localWindow smid hwtid + offset) = some offset := by
  unfold genericToLocal
  rw [if_pos (isspaceLocal_iff.mpr ⟨by omega, by omega⟩), Nat.add_sub_cancel_left]

theorem decodeGeneric_local (hoffset : offset < localMemSizeMax) :
    decodeGeneric t (localWindow t.smid t.hwtid + offset) = some (.localMem offset) := by
  have hbounds := localWindow_bounds t.smid t.hwtid
  have hlt : offset < 16384 := hoffset
  exact decodeGeneric_of_local (whichspace_local (by omega) (by omega))
    (genericToLocal_window hoffset)

theorem decodeExplicit_local (h : addr < 2 ^ 32) :
    decodeExplicit t .localSpace addr = some (.localMem (addr + t.stackPointer)) := by
  have hlt := t.stackPointer_lt
  have hcut : wrapAddr (addr + t.stackPointer) = addr + t.stackPointer :=
    Nat.mod_eq_of_lt (by omega)
  unfold decodeExplicit
  rw [hcut]

theorem cvta_local (h : addr < localMemSizeMax) :
    cvta t .localSpace addr = some (localWindow t.smid t.hwtid + addr + t.stackPointer) := by
  have hbounds := localWindow_bounds t.smid t.hwtid
  have hlt := t.stackPointer_lt
  have haddr : addr < 16384 := h
  have hcut : wrapAddr (localWindow t.smid t.hwtid + addr) = localWindow t.smid t.hwtid + addr :=
    Nat.mod_eq_of_lt (by omega)
  have hcut' : wrapAddr (localWindow t.smid t.hwtid + addr + t.stackPointer) =
      localWindow t.smid t.hwtid + addr + t.stackPointer := Nat.mod_eq_of_lt (by omega)
  unfold cvta localToGeneric
  rw [if_pos h, hcut]
  exact congrArg some hcut'

/-! ### There and back -/

theorem cvtaTo_of_decode (h : decodeSharedGeneric addr = some (owner, offset)) :
    cvtaTo t .sharedSpace addr =
      some (if owner = t.smid then offset else wrapAddr (compactShared owner offset)) := by
  unfold cvtaTo
  rw [h]

theorem cvtaTo_own (howner : owner = t.smid) (hoffset : offset < sharedMemSizeMax) :
    cvtaTo t .sharedSpace (genericShared owner offset) = some offset := by
  have hlt : owner < maxStreamingMultiprocessors := howner ▸ t.smid.isLt
  rw [cvtaTo_of_decode (decodeSharedGeneric_shared hlt hoffset), if_pos howner]

theorem compactShared_lt (howner : owner < maxStreamingMultiprocessors)
    (hoffset : offset < sharedMemSizeMax) : compactShared owner offset < 2 ^ 32 := by
  have howner : owner < 1024 := howner
  unfold compactShared
  rw [sharedMemSizeMax_eq] at *
  omega

theorem cvtaTo_peer (hpeer : owner ≠ t.smid) (howner : owner < maxStreamingMultiprocessors)
    (hoffset : offset < sharedMemSizeMax) :
    cvtaTo t .sharedSpace (genericShared owner offset) = some (compactShared owner offset) := by
  have hlt := compactShared_lt howner hoffset
  rw [cvtaTo_of_decode (decodeSharedGeneric_shared howner hoffset), if_neg hpeer, wrapAddr,
    Nat.mod_eq_of_lt (by omega)]

theorem cvta_own (hoffset : offset < sharedMemSizeMax) :
    cvta t .sharedSpace offset = some (genericShared t.smid offset) :=
  sharedToGeneric_shared t.smid.isLt hoffset

theorem explicitRight_shared :
    ExplicitRight t .sharedSpace addr ↔ addr < sharedMemSizeMax := by
  constructor
  · rintro ⟨g, e, hg, -⟩
    by_contra hlarge
    rw [cvta_compact (Nat.le_of_not_lt hlarge)] at hg
    cases hg
  · intro hplain
    exact ⟨_, addr, cvta_own hplain, cvtaTo_own rfl hplain,
      (decodeGeneric_shared t.smid.isLt hplain).trans (decodeExplicit_plain hplain).symm, rfl⟩

theorem explicitRight_local (hframe : addr + t.stackPointer < localMemSizeMax) :
    ExplicitRight t .localSpace addr ↔ t.stackPointer = 0 := by
  have hframe' : addr + t.stackPointer < 16384 := hframe
  have hgeneric := cvta_local (t := t) (Nat.lt_of_le_of_lt (Nat.le_add_right _ _) hframe)
  have hto : cvtaTo t .localSpace (localWindow t.smid t.hwtid + addr + t.stackPointer) =
      some (addr + t.stackPointer) := by
    rw [Nat.add_assoc]
    exact genericToLocal_window hframe
  have hplace := decodeExplicit_local (t := t) (show addr < 2 ^ 32 by omega)
  have hback := decodeExplicit_local (t := t) (show addr + t.stackPointer < 2 ^ 32 by omega)
  constructor
  · rintro ⟨g, e, hg, he, -, hsame⟩
    rw [hgeneric] at hg
    cases hg
    rw [hto] at he
    cases he
    rw [hback, hplace] at hsame
    have hoffset := MemoryPlace.localMem.inj (Option.some.inj hsame)
    omega
  · intro hzero
    refine ⟨_, _, hgeneric, hto, ?_, ?_⟩
    · rw [Nat.add_assoc, decodeGeneric_local hframe, hplace]
    · rw [hback, hplace, hzero]

theorem explicitRight_global (hglobal : isspaceGlobal addr = true) :
    ExplicitRight t .globalSpace addr :=
  ⟨addr, addr, rfl, rfl, decodeGeneric_of_global (whichspace_global hglobal), rfl⟩

theorem explicitRight_iff (space : GenericSpace) (hvalid : ValidExplicit t space addr) :
    ExplicitRight t space addr ↔ ExplicitDefined t space addr := by
  cases space with
  | sharedSpace => exact explicitRight_shared
  | localSpace => exact explicitRight_local hvalid
  | globalSpace => exact iff_of_true (explicitRight_global hvalid.1) trivial

theorem isspaceShared_iff {smid : Nat} (hoffset : offset < sharedMemSizeMax) :
    isspaceShared smid (genericShared owner offset) = true ↔ owner = smid := by
  unfold isspaceShared genericShared
  rw [decide_eq_true_iff, sharedMemSizeMax_eq] at *
  omega

theorem genericRight_shared (howner : owner < maxStreamingMultiprocessors)
    (hoffset : offset < sharedMemSizeMax) :
    GenericRight t .sharedSpace (genericShared owner offset) ↔ owner = t.smid := by
  constructor
  · rintro ⟨e, g, he, hg, -⟩
    by_contra hpeer
    rw [cvtaTo_peer hpeer howner hoffset] at he
    cases he
    have hlarge : sharedMemSizeMax ≤ compactShared owner offset := by
      unfold compactShared
      rw [Nat.succ_mul]
      omega
    rw [cvta_compact hlarge] at hg
    cases hg
  · rintro rfl
    exact ⟨offset, _, cvtaTo_own rfl hoffset, cvta_own hoffset,
      (decodeExplicit_plain hoffset).trans (decodeGeneric_shared howner hoffset).symm, rfl⟩

theorem genericRight_local (hoffset : offset < localMemSizeMax) :
    GenericRight t .localSpace (localWindow t.smid t.hwtid + offset) ↔ t.stackPointer = 0 := by
  have hoffset' : offset < 16384 := hoffset
  have hto : cvtaTo t .localSpace (localWindow t.smid t.hwtid + offset) = some offset :=
    genericToLocal_window hoffset
  have hback := decodeExplicit_local (t := t) (show offset < 2 ^ 32 by omega)
  have hplace := decodeGeneric_local (t := t) hoffset
  constructor
  · rintro ⟨e, g, he, -, hsame, -⟩
    rw [hto] at he
    cases he
    rw [hback, hplace] at hsame
    have hoffset := MemoryPlace.localMem.inj (Option.some.inj hsame)
    omega
  · intro hzero
    refine ⟨_, _, hto, cvta_local hoffset, ?_, ?_⟩
    · rw [hback, hzero, hplace, Nat.add_zero]
    · rw [hzero, Nat.add_zero]

theorem genericRight_global (hglobal : isspaceGlobal addr = true) :
    GenericRight t .globalSpace addr :=
  ⟨addr, addr, rfl, rfl, (decodeGeneric_of_global (whichspace_global hglobal)).symm, rfl⟩

theorem genericRight_iff (space : GenericSpace) (hvalid : ValidGeneric t space addr) :
    GenericRight t space addr ↔ GenericDefined t space addr := by
  cases space with
  | sharedSpace =>
    obtain ⟨owner, offset, howner, hoffset, rfl, -⟩ := hvalid
    exact (genericRight_shared howner hoffset).trans (isspaceShared_iff hoffset).symm
  | localSpace =>
    obtain ⟨hge, hlt⟩ := isspaceLocal_iff.mp hvalid
    obtain ⟨offset, rfl⟩ := Nat.exists_eq_add_of_le hge
    exact genericRight_local (Nat.add_lt_add_iff_left.mp hlt)
  | globalSpace => exact iff_of_true (genericRight_global hvalid.1) trivial

/-! ### Classes and `mapa` -/

theorem whichspace_valid (space : GenericSpace) (hvalid : ValidGeneric t space addr) :
    whichspace addr = space := by
  cases space with
  | sharedSpace =>
    obtain ⟨owner, offset, howner, hoffset, rfl, -⟩ := hvalid
    obtain ⟨hge, hlt⟩ := genericShared_bounds howner hoffset
    exact whichspace_shared hge hlt
  | localSpace =>
    obtain ⟨hge, hlt⟩ := isspaceLocal_iff.mp hvalid
    have hbounds := localWindow_bounds t.smid t.hwtid
    rw [localMemSizeMax_eq] at hlt
    exact whichspace_local (by omega) (by omega)
  | globalSpace => exact whichspace_global hvalid.1

/-- Every case of `isspacep_impl` runs into the `abort`. -/
theorem isspacepImpl_none (t : AddressThread) (space : GenericSpace) (addr : Nat) :
    isspacepImpl t space addr = none := by
  cases space <;> rfl

theorem not_isspacepRight (t : AddressThread) (space : GenericSpace) (addr : Nat) :
    ¬ IsspacepRight t space addr := by
  unfold IsspacepRight
  rw [isspacepImpl_none]
  exact Option.some_ne_none _ ∘ Eq.symm

theorem mapaImpl_offset (wide : Bool) (found : Nat) {form : Nat}
    (hoffset : offset < sharedMemSizeMax) (howner : owner < maxStreamingMultiprocessors)
    (hform : form ∈ sharedForms t owner offset) :
    mapaImpl t wide found form = mapaTarget wide found offset := by
  have howner' : owner < 1024 := howner
  have hoffset' : offset < 1048576 := hoffset
  have hcases : form = compactShared owner offset ∨ form = genericShared owner offset ∨
      owner = t.smid ∧ form = offset := by
    unfold sharedForms at hform
    split at hform
    · rename_i hown
      simp only [List.cons_append, List.nil_append, List.mem_cons, List.not_mem_nil, or_false]
        at hform
      rcases hform with h | h | h
      · exact .inl h
      · exact .inr (.inl h)
      · exact .inr (.inr ⟨hown, h⟩)
    · simp only [List.append_nil, List.mem_cons, List.not_mem_nil, or_false] at hform
      rcases hform with h | h
      · exact .inl h
      · exact .inr (.inl h)
  -- Below the window an address keeps its low bits.
  have hlow : ∀ a, a < 2 ^ 32 → a % 1048576 = offset →
      mapaImpl t wide found a = mapaTarget wide found offset := by
    intro a ha hmod
    have hcut : (if wide then wrapAddr a else u32 a) = a := by
      split
      · exact Nat.mod_eq_of_lt (by omega)
      · exact u32_of_lt ha
    have hnone : decodeSharedGeneric a = none := if_pos (by rw [sharedGenericStart_eq]; omega)
    unfold mapaImpl
    simp only [hcut, hnone, sharedMemSizeMax_eq, hmod]
    split
    · rename_i hsmall
      rw [Nat.mod_eq_of_lt hsmall] at hmod
      rw [hmod]
    · rfl
  rcases hcases with rfl | rfl | ⟨-, rfl⟩
  · refine hlow _ ?_ ?_
    · unfold compactShared
      rw [sharedMemSizeMax_eq]
      omega
    · unfold compactShared
      rw [sharedMemSizeMax_eq]
      omega
  · obtain ⟨hge, hlt⟩ := genericShared_bounds howner hoffset
    have hmod : genericShared owner offset % 1048576 = offset := by
      unfold genericShared
      rw [sharedGenericStart_eq, sharedMemSizeMax_eq]
      omega
    cases wide with
    | true =>
      have hcut : wrapAddr (genericShared owner offset) = genericShared owner offset :=
        Nat.mod_eq_of_lt (by omega)
      have hlarge : ¬ genericShared owner offset < 1048576 := by omega
      unfold mapaImpl
      simp only [if_true, hcut, decodeSharedGeneric_shared howner hoffset, sharedMemSizeMax_eq,
        hlarge, if_false, hmod, ite_self]
    | false =>
      have hsame : mapaImpl t false found (genericShared owner offset) =
          mapaImpl t false found (u32 (genericShared owner offset)) := by
        have hcut : u32 (u32 (genericShared owner offset)) = u32 (genericShared owner offset) :=
          Nat.mod_mod _ _
        unfold mapaImpl
        simp only [Bool.false_eq_true, if_false, hcut]
      rw [hsame]
      refine hlow _ (Nat.mod_lt _ (by decide)) ?_
      unfold u32
      omega
  · exact hlow _ (by omega) (Nat.mod_eq_of_lt hoffset')

theorem mapaTarget_wide {found : Nat} (hfound : found < maxStreamingMultiprocessors)
    (hoffset : offset < sharedMemSizeMax) :
    mapaTarget true found offset = some (genericShared found offset) := by
  unfold mapaTarget
  rw [if_pos rfl, sharedToGeneric_shared hfound hoffset]

theorem mapaTarget_narrow {found : Nat} (hfound : found < maxStreamingMultiprocessors)
    (hoffset : offset < sharedMemSizeMax) :
    mapaTarget false found offset = some (compactShared found offset) := by
  unfold mapaTarget
  rw [if_neg (by decide), if_pos (compactShared_lt hfound hoffset)]

theorem mapaRight (t : AddressThread) : MapaRight t := by
  intro wide owner found offset hoffset
  have htarget : ∃ target, mapaTarget wide found offset = some target := by
    cases wide with
    | true => exact ⟨_, mapaTarget_wide found.isLt hoffset⟩
    | false => exact ⟨_, mapaTarget_narrow found.isLt hoffset⟩
  obtain ⟨target, htarget⟩ := htarget
  exact ⟨target, htarget, fun form hform =>
    (mapaImpl_offset wide found hoffset owner.isLt hform).trans htarget⟩

/-- Conversions there and back keep exactly the own shared memory, global memory, and local memory
while the stack pointer is zero; classes and `mapa` are right, and `isspacep` never is. -/
theorem addresses_iff (t : AddressThread) (space : GenericSpace) (addr : Nat) :
    (ValidExplicit t space addr → (ExplicitRight t space addr ↔ ExplicitDefined t space addr)) ∧
    (ValidGeneric t space addr → (GenericRight t space addr ↔ GenericDefined t space addr)) ∧
    (ValidGeneric t space addr → whichspace addr = space) ∧
    ¬ IsspacepRight t space addr ∧ MapaRight t :=
  ⟨explicitRight_iff space, genericRight_iff space, whichspace_valid space,
    not_isspacepRight t space addr, mapaRight t⟩

/-- A thread in a called function, with one other SM in its cluster. -/
def calledThread : AddressThread := ⟨⟨0, by decide⟩, ⟨0, by decide⟩, 64, by decide, fun _ => true⟩

/-- The compact and the generic address of a peer, the frame of a called function, and any
`isspacep`. -/
theorem not_addresses :
    (ValidExplicit calledThread .sharedSpace (compactShared 1 8) ∧
      ¬ ExplicitRight calledThread .sharedSpace (compactShared 1 8)) ∧
    (ValidGeneric calledThread .sharedSpace (genericShared 1 8) ∧
      ¬ GenericRight calledThread .sharedSpace (genericShared 1 8)) ∧
    (ValidExplicit calledThread .localSpace 8 ∧ ¬ ExplicitRight calledThread .localSpace 8) ∧
    ¬ IsspacepRight calledThread .globalSpace 8 := by
  have hcompact : ValidExplicit calledThread .sharedSpace (compactShared 1 8) := by
    refine ⟨by decide, ?_⟩
    rw [decodeExplicit_compact (by decide) (by decide)]
    decide
  have hgeneric : ValidGeneric calledThread .sharedSpace (genericShared 1 8) :=
    ⟨1, 8, by decide, by decide, rfl, by decide⟩
  have hframe : ValidExplicit calledThread .localSpace 8 := by
    show 8 + 64 < localMemSizeMax
    decide
  refine ⟨⟨hcompact, ?_⟩, ⟨hgeneric, ?_⟩, ⟨hframe, ?_⟩, not_isspacepRight _ _ _⟩
  · rw [explicitRight_iff _ hcompact]
    show ¬ compactShared 1 8 < sharedMemSizeMax
    decide
  · rw [genericRight_iff _ hgeneric]
    show ¬ isspaceShared 0 (genericShared 1 8) = true
    decide
  · rw [explicitRight_iff _ hframe]
    show ¬ 64 = 0
    decide

end FlashGpuSim
