import FlashGpuSim.Cache.TagArray

/-!
What a probe finds and what an access does to the lines, in terms of the sectors that
are reserved. Every change of a tag array is one of two: the lines retain what they
reserve, or one line is placed for a block and a sector.
-/

namespace FlashGpuSim

open Lib

/-! ### One line -/

namespace CacheBlock

variable {k : CacheType} {b b' b'' : CacheBlock k} {s u : Fin k.sectors} {w : Bool}
  {status : CacheRequestStatus}

/-- `b'` reserves the sectors that `b` reserves, for the same block. -/
structure Retains (b b' : CacheBlock k) : Prop where
  reserved : ∀ s, b'.status s = .reserved ↔ b.status s = .reserved
  tag : b'.tag = b.tag
  invalid : (∀ s, b.status s = .invalid) → ∀ s, b'.status s = .invalid

theorem Retains.of_same (hstatus : b'.status = b.status) (htag : b'.tag = b.tag) :
    Retains b b' where
  reserved := fun s => by rw [hstatus]
  tag := htag
  invalid := fun h s => by rw [hstatus]; exact h s

theorem Retains.refl (b : CacheBlock k) : Retains b b := .of_same rfl rfl

theorem Retains.trans (h : Retains b b') (h' : Retains b' b'') : Retains b b'' where
  reserved := fun s => (h'.reserved s).trans (h.reserved s)
  tag := h'.tag.trans h.tag
  invalid := fun hb => h'.invalid (h.invalid hb)

theorem setStatus_status (b : CacheBlock k) (x : CacheBlockState) (s u : Fin k.sectors) :
    (b.setStatus x s).status u = if u = s then x else b.status u := by
  simp only [setStatus, Function.update_apply]

/-- A status that reserves nothing replaces one that reserves nothing. -/
theorem retains_setStatus {x : CacheBlockState} (hs : b.status s ≠ .reserved)
    (hx : x ≠ .reserved) (hinv : x = .invalid ∨ b.status s ≠ .invalid) :
    Retains b (b.setStatus x s) where
  reserved := fun u => by
    rw [setStatus_status]
    split
    · rename_i hu
      subst hu
      exact ⟨fun h => absurd h hx, fun h => absurd h hs⟩
    · exact Iff.rfl
  tag := rfl
  invalid := fun h u => by
    rw [setStatus_status]
    split
    · rcases hinv with rfl | hinv
      · rfl
      · exact absurd (h s) hinv
    · exact h u

theorem tagMatch_hit (h : b.tagMatch w s = some .hit) :
    b.status s ≠ .reserved ∧ b.status s ≠ .invalid := by
  unfold tagMatch at h
  split at h
  · cases h
  · rename_i hs
    exact ⟨by simp [hs], by simp [hs]⟩
  · rename_i hs
    exact ⟨by simp [hs], by simp [hs]⟩
  · split at h <;> cases h

theorem tagMatch_reserved : b.tagMatch w s = some .hitReserved ↔ b.status s = .reserved := by
  unfold tagMatch
  cases hs : b.status s with
  | reserved => simp
  | valid => simp
  | modified =>
    dsimp only
    split <;> simp
  | invalid =>
    dsimp only
    split <;> simp

theorem tagMatch_some (h : b.tagMatch w s = some status) :
    status = .hit ∨ status = .hitReserved ∨ status = .sectorMiss := by
  unfold tagMatch at h
  split at h
  · cases h
    exact .inr (.inl rfl)
  · cases h
    exact .inl rfl
  · split at h
    · cases h
      exact .inl rfl
    · cases h
      exact .inr (.inr rfl)
  · split at h
    · cases h
      exact .inr (.inr rfl)
    · cases h

theorem isValidLine_ne_invalid (h : b.isValidLine = true) : ∃ u, b.status u ≠ .invalid := by
  cases k with
  | normal =>
    refine ⟨⟨0, Nat.one_pos⟩, ?_⟩
    rw [of_decide_eq_true h]
    exact CacheBlockState.noConfusion
  | sector =>
    by_contra hall
    rw [not_exists] at hall
    have hinv : b.isInvalidLine = true := decide_eq_true (fun u => not_not.mp (hall u))
    have hvalid : (!b.isInvalidLine) = true := h
    rw [hinv] at hvalid
    cases hvalid

/-- A line that the probe answers from is not invalid. -/
theorem tagMatch_some_ne_invalid (h : b.tagMatch w s = some status) :
    ∃ u, b.status u ≠ .invalid := by
  cases hs : b.status s with
  | invalid =>
    unfold tagMatch at h
    rw [hs] at h
    dsimp only at h
    split at h
    · rename_i hvalid
      exact isValidLine_ne_invalid hvalid
    · cases h
  | reserved => exact ⟨s, by rw [hs]; exact CacheBlockState.noConfusion⟩
  | valid => exact ⟨s, by rw [hs]; exact CacheBlockState.noConfusion⟩
  | modified => exact ⟨s, by rw [hs]; exact CacheBlockState.noConfusion⟩

/-- A line of the right tag that the probe passes over is invalid. -/
theorem tagMatch_none (h : b.tagMatch w s = none) (u : Fin k.sectors) :
    b.status u = .invalid := by
  unfold tagMatch at h
  split at h
  · cases h
  · cases h
  · split at h <;> cases h
  · rename_i hs
    split at h
    · cases h
    · rename_i hvalid
      cases k with
      | normal =>
        have hus : u = s := Subsingleton.elim (α := Fin 1) u s
        rw [hus]
        exact hs
      | sector =>
        by_contra hu
        apply hvalid
        unfold isValidLine isInvalidLine
        rw [Bool.not_eq_true', decide_eq_false_iff_not]
        exact fun hall => hu (hall u)

theorem cleared_ne_reserved (h : b.status u ≠ .reserved) : b.cleared.status u ≠ .reserved := by
  cases k with
  | normal => exact h
  | sector => exact CacheBlockState.noConfusion

/-- A write is answered from the lines that a read is answered from. -/
theorem tagMatch_read (b : CacheBlock k) (s : Fin k.sectors) :
    (b.tagMatch false s = none ∧ b.tagMatch true s = none) ∨
    ∃ x y, b.tagMatch false s = some x ∧ b.tagMatch true s = some y ∧
      (x = .hit → y = .hit) := by
  unfold tagMatch
  cases b.status s with
  | reserved => exact .inr ⟨_, _, rfl, rfl, id⟩
  | valid => exact .inr ⟨_, _, rfl, rfl, id⟩
  | modified => exact .inr ⟨_, _, (apply_ite _ _ _ _).symm, rfl, fun _ => rfl⟩
  | invalid =>
    dsimp only
    split
    · exact .inr ⟨_, _, rfl, rfl, id⟩
    · exact .inl ⟨rfl, rfl⟩

theorem isReservedLine_eq_false : b.isReservedLine = false ↔ ∀ s, b.status s ≠ .reserved := by
  unfold isReservedLine
  rw [decide_eq_false_iff_not, not_exists]

end CacheBlock

/-! ### The probe -/

namespace TagArray

variable {cfg : CacheConfig} {t t' t'' : TagArray cfg.cacheType} {tag addr : NewAddrType}
  {mask : MemAccessSectorMask} {w : Bool} {status : CacheRequestStatus} {idx : Option Nat}
  {ways all : List Nat} {r : Replacement} {i j : Nat}

/-- A line the replacement may take. -/
def Free (t : TagArray cfg.cacheType) (all : List Nat) (i : Nat) : Prop :=
  i ∈ all ∧ ∀ s, (t.lines i).status s ≠ .reserved

/-- The candidates of a replacement are free lines. -/
structure Candidates (t : TagArray cfg.cacheType) (all : List Nat) (r : Replacement) : Prop where
  invalid : ∀ i, r.invalidLine = some i → t.Free all i
  valid : ∀ i, r.validLine = some i → t.Free all i

theorem Candidates.consider (h : t.Candidates all r) (hi : i ∈ all) :
    t.Candidates all (t.consider i r) := by
  unfold TagArray.consider
  dsimp only
  split
  · rename_i hfree
    rw [Bool.and_eq_true, Bool.not_eq_true', CacheBlock.isReservedLine_eq_false] at hfree
    split
    · exact ⟨fun j hj => Option.some.inj hj ▸ ⟨hi, hfree.1⟩, h.valid⟩
    · split
      · exact ⟨h.invalid, fun j hj => Option.some.inj hj ▸ ⟨hi, hfree.1⟩⟩
      · exact ⟨h.invalid, h.valid⟩
  · exact h

/-- The probe found the line of the block. -/
def Found (t : TagArray cfg.cacheType) (ways : List Nat) (tag : NewAddrType)
    (mask : MemAccessSectorMask) (w : Bool) (status : CacheRequestStatus) (i : Nat) : Prop :=
  i ∈ ways ∧ (t.lines i).tag = tag ∧
    ∃ s, cfg.cacheType.getSectorIndex mask = .ok s ∧ (t.lines i).tagMatch w s = some status

/-- No line of the set holds the block. -/
def Absent (t : TagArray cfg.cacheType) (ways : List Nat) (tag : NewAddrType) : Prop :=
  ∀ i ∈ ways, (t.lines i).tag = tag → ∀ s, (t.lines i).status s = .invalid

theorem verdict_none (h : t.verdict tag mask w i = .ok none) (htag : (t.lines i).tag = tag) :
    ∀ s, (t.lines i).status s = .invalid := by
  unfold verdict at h
  rw [if_pos htag] at h
  obtain ⟨s, -, h⟩ := bind_eq_ok h
  exact CacheBlock.tagMatch_none (Except.ok.inj h)

theorem verdict_some (h : t.verdict tag mask w i = .ok (some status)) :
    (t.lines i).tag = tag ∧ ∃ s, cfg.cacheType.getSectorIndex mask = .ok s ∧
      (t.lines i).tagMatch w s = some status := by
  unfold verdict at h
  split at h
  · rename_i htag
    obtain ⟨s, hs, h⟩ := bind_eq_ok h
    exact ⟨htag, s, hs, Except.ok.inj h⟩
  · cases h

theorem probeWays_spec (hok : t.probeWays tag mask w ways r = .ok (status, idx))
    (hsub : ∀ i ∈ ways, i ∈ all) (hr : t.Candidates all r) :
    (∃ i, idx = some i ∧ t.Found ways tag mask w status i) ∨
    (t.Absent ways tag ∧ (status = .reservationFail ∧ idx = none ∨
      status = .miss ∧ ∃ i, idx = some i ∧ t.Free all i)) := by
  induction ways generalizing r with
  | nil =>
    refine .inr ⟨fun i hi => absurd hi List.not_mem_nil, ?_⟩
    unfold probeWays at hok
    split at hok
    · split at hok
      · cases hok
        exact .inl ⟨rfl, rfl⟩
      · cases hok
    · cases hinv : r.invalidLine with
      | some index =>
        rw [hinv] at hok
        cases hok
        exact .inr ⟨rfl, index, rfl, hr.invalid _ hinv⟩
      | none =>
        cases hval : r.validLine with
        | some index =>
          rw [hinv, hval] at hok
          cases hok
          exact .inr ⟨rfl, index, rfl, hr.valid _ hval⟩
        | none =>
          rw [hinv, hval] at hok
          cases hok
  | cons index rest ih =>
    unfold probeWays at hok
    obtain ⟨v, hv, hok⟩ := bind_eq_ok hok
    cases v with
    | some st =>
      cases hok
      exact .inl ⟨index, rfl, List.mem_cons_self, verdict_some hv⟩
    | none =>
      have hrest := ih hok (fun i hi => hsub i (List.mem_cons_of_mem _ hi))
        (hr.consider (hsub index List.mem_cons_self))
      rcases hrest with ⟨i, hi, hmem, hfound⟩ | ⟨habsent, hfail⟩
      · exact .inl ⟨i, hi, List.mem_cons_of_mem _ hmem, hfound⟩
      · refine .inr ⟨fun i hi htag => ?_, hfail⟩
        rcases List.mem_cons.mp hi with rfl | hi
        · exact verdict_none hv htag
        · exact habsent i hi htag

theorem probe_spec (hok : t.probe addr mask w = .ok (status, idx)) :
    (∃ i, idx = some i ∧ t.Found (cfg.ways addr) (cfg.tag addr) mask w status i) ∨
    (t.Absent (cfg.ways addr) (cfg.tag addr) ∧ (status = .reservationFail ∧ idx = none ∨
      status = .miss ∧ ∃ i, idx = some i ∧ t.Free (cfg.ways addr) i)) :=
  probeWays_spec hok (fun _ hi => hi)
    ⟨fun _ hi => absurd hi (Option.some_ne_none _).symm,
      fun _ hi => absurd hi (Option.some_ne_none _).symm⟩

/-- Where a read is answered with a hit or finds no line to take, so is a write. -/
theorem probeWays_write {st : CacheRequestStatus}
    (hok : t.probeWays tag mask false ways r = .ok (st, idx)) :
    ∃ x, t.probeWays tag mask true ways r = .ok (x, idx) ∧ (st = .hit → x = .hit) ∧
      (st = .reservationFail → x = .reservationFail) := by
  induction ways generalizing r with
  | nil => exact ⟨st, hok, id, id⟩
  | cons index rest ih =>
    unfold probeWays verdict at hok ⊢
    split at hok
    · rename_i htag
      rw [if_pos htag]
      obtain ⟨v, hv, hok⟩ := bind_eq_ok hok
      obtain ⟨s, hs, hv⟩ := bind_eq_ok hv
      cases hv
      rw [hs]
      rcases CacheBlock.tagMatch_read (t.lines index) s with ⟨hread, hwrite⟩ | ⟨x, y, hread, hwrite, hxy⟩
      · rw [hread] at hok
        obtain ⟨z, hz, hhit, hfail⟩ := ih hok
        refine ⟨z, ?_, hhit, hfail⟩
        dsimp only [bind, Except.bind, pure, Except.pure]
        rw [hwrite]
        exact hz
      · rw [hread] at hok
        cases hok
        refine ⟨y, ?_, hxy, ?_⟩
        · dsimp only [bind, Except.bind, pure, Except.pure]
          rw [hwrite]
        · rintro rfl
          rcases CacheBlock.tagMatch_some hread with h | h | h <;> cases h
    · rename_i htag
      rw [if_neg htag]
      exact ih hok

/-! ### The lines after an access -/

theorem setLine_lines (t : TagArray cfg.cacheType) (i j : Nat) (line : CacheBlock cfg.cacheType) :
    (t.setLine i line).lines j = if j = i then line else t.lines j := by
  simp only [setLine, Function.update_apply]

/-- The lines keep their blocks and statuses. -/
def Steady (t t' : TagArray cfg.cacheType) : Prop :=
  ∀ i, (t'.lines i).status = (t.lines i).status ∧ (t'.lines i).tag = (t.lines i).tag

/-- Every line retains what it reserves. -/
def Retains (t t' : TagArray cfg.cacheType) : Prop := ∀ i, (t.lines i).Retains (t'.lines i)

theorem Steady.retains (h : t.Steady t') : t.Retains t' := fun i => .of_same (h i).1 (h i).2

theorem Retains.refl (t : TagArray cfg.cacheType) : t.Retains t := fun _ => .refl _

theorem Retains.trans (h : t.Retains t') (h' : t'.Retains t'') : t.Retains t'' :=
  fun i => (h i).trans (h' i)

theorem steady_setLine {line : CacheBlock cfg.cacheType} (hstatus : line.status = (t.lines i).status)
    (htag : line.tag = (t.lines i).tag) : t.Steady (t.setLine i line) := by
  intro j
  rw [setLine_lines]
  split
  · rename_i hj
    subst hj
    exact ⟨hstatus, htag⟩
  · exact ⟨rfl, rfl⟩

theorem retains_setLine {line : CacheBlock cfg.cacheType} (h : (t.lines i).Retains line) :
    t.Retains (t.setLine i line) := by
  intro j
  rw [setLine_lines]
  split
  · rename_i hj
    subst hj
    exact h
  · exact .refl _

/-- A block lies in at most one line of its set. -/
def Unique (t : TagArray cfg.cacheType) : Prop :=
  ∀ i j, i ∈ cfg.ways (t.lines i).tag → j ∈ cfg.ways (t.lines i).tag →
    (t.lines j).tag = (t.lines i).tag → (∃ s, (t.lines i).status s ≠ .invalid) →
    (∃ s, (t.lines j).status s ≠ .invalid) → i = j

/-- Line `i` now belongs to `tag`, and what happened to it happened to sector `s`. -/
structure Placed (t t' : TagArray cfg.cacheType) (i : Nat) (tag : NewAddrType)
    (s : Fin cfg.cacheType.sectors) : Prop where
  mem : i ∈ cfg.ways tag
  others : ∀ j ≠ i, (t.lines j).Retains (t'.lines j)
  holds : (t'.lines i).tag = tag
  keeps : ∀ u ≠ s, (t'.lines i).status u = .reserved ↔ (t.lines i).status u = .reserved
  free : (t.lines i).status s ≠ .reserved
  owner : ∀ u, (t.lines i).status u = .reserved → (t.lines i).tag = tag
  alone : ∀ j ∈ cfg.ways tag, (t.lines j).tag = tag →
    (∃ u, (t.lines j).status u ≠ .invalid) → j = i

theorem Placed.retains {s : Fin cfg.cacheType.sectors} (h : t.Placed t' i tag s)
    (h' : t'.Retains t'') : t.Placed t'' i tag s where
  mem := h.mem
  others := fun j hj => (h.others j hj).trans (h' j)
  holds := (h' i).tag.trans h.holds
  keeps := fun u hu => ((h' i).reserved u).trans (h.keeps u hu)
  free := h.free
  owner := h.owner
  alone := h.alone

/-- The sector of a placed line may also take another status. -/
theorem Placed.setStatus {s : Fin cfg.cacheType.sectors} (h : t.Placed t' i tag s)
    (x : CacheBlockState) : t.Placed (t'.setLine i ((t'.lines i).setStatus x s)) i tag s where
  mem := h.mem
  others := fun j hj => by
    rw [setLine_lines, if_neg hj]
    exact h.others j hj
  holds := by
    rw [setLine_lines, if_pos rfl]
    exact h.holds
  keeps := fun u hu => by
    rw [setLine_lines, if_pos rfl, CacheBlock.setStatus_status, if_neg hu]
    exact h.keeps u hu
  free := h.free
  owner := h.owner
  alone := h.alone

theorem Found.unique (hfound : t.Found (cfg.ways tag) tag mask w status i) (hunique : t.Unique)
    (hj : j ∈ cfg.ways tag) (htag : (t.lines j).tag = tag)
    (hvalid : ∃ u, (t.lines j).status u ≠ .invalid) : j = i := by
  obtain ⟨hi, htagi, s, -, hmatch⟩ := hfound
  apply hunique j i
  · rwa [htag]
  · rwa [htag]
  · rw [htag, htagi]
  · exact hvalid
  · exact CacheBlock.tagMatch_some_ne_invalid hmatch

/-- A reserved sector is found as such. -/
theorem Found.reserved {s : Fin cfg.cacheType.sectors}
    (hfound : t.Found (cfg.ways tag) tag mask w status i) (hunique : t.Unique)
    (hs : cfg.cacheType.getSectorIndex mask = .ok s) (hj : j ∈ cfg.ways tag)
    (htag : (t.lines j).tag = tag) (hreserved : (t.lines j).status s = .reserved) :
    status = .hitReserved := by
  have hij : j = i := hfound.unique hunique hj htag ⟨s, by rw [hreserved]; exact CacheBlockState.noConfusion⟩
  subst hij
  obtain ⟨-, -, s', hs', hmatch⟩ := hfound
  rw [hs] at hs'
  cases hs'
  rw [CacheBlock.tagMatch_reserved.mpr hreserved] at hmatch
  exact (Option.some.inj hmatch).symm

/-- A miss takes a free line for the block. -/
theorem placed_allocate (s : Fin cfg.cacheType.sectors) (time dirty : BitVec 32)
    (hfree : t.Free (cfg.ways tag) i) (habsent : t.Absent (cfg.ways tag) tag) :
    t.Placed { t.setLine i ((t.lines i).allocate tag tag time s) with dirty := dirty } i tag s ∧
    ((t.setLine i ((t.lines i).allocate tag tag time s)).lines i).status s = .reserved := by
  have hline : (t.setLine i ((t.lines i).allocate tag tag time s)).lines i =
      (t.lines i).allocate tag tag time s := by
    rw [setLine_lines, if_pos rfl]
  constructor
  · constructor
    · exact hfree.1
    · intro j hj
      change (t.lines j).Retains ((t.setLine i _).lines j)
      rw [setLine_lines, if_neg hj]
      exact .refl _
    · change ((t.setLine i _).lines i).tag = _
      rw [hline]
      rfl
    · intro u hu
      change ((t.setLine i _).lines i).status u = _ ↔ _
      rw [hline]
      refine iff_of_false ?_ (hfree.2 u)
      change Function.update _ s _ u ≠ _
      rw [Function.update_of_ne hu]
      exact CacheBlock.cleared_ne_reserved (hfree.2 u)
    · exact hfree.2 s
    · intro u hu
      exact absurd hu (hfree.2 u)
    · rintro j hj htag ⟨u, hu⟩
      exact absurd (habsent j hj htag u) hu
  · rw [hline]
    exact Function.update_self ..

/-- A sector miss reserves one more sector of the line of the block. -/
theorem placed_allocateSector {s : Fin cfg.cacheType.sectors} {time : BitVec 32}
    {dirty : BitVec 32} (hfound : t.Found (cfg.ways tag) tag mask w .sectorMiss i)
    (hs : cfg.cacheType.getSectorIndex mask = .ok s) (hunique : t.Unique) :
    t.Placed { t.setLine i ((t.lines i).allocateSector time s) with dirty := dirty } i tag s ∧
    ((t.setLine i ((t.lines i).allocateSector time s)).lines i).status s = .reserved := by
  have hline : (t.setLine i ((t.lines i).allocateSector time s)).lines i =
      (t.lines i).allocateSector time s := by
    rw [setLine_lines, if_pos rfl]
  constructor
  · constructor
    · exact hfound.1
    · intro j hj
      change (t.lines j).Retains ((t.setLine i _).lines j)
      rw [setLine_lines, if_neg hj]
      exact .refl _
    · change ((t.setLine i _).lines i).tag = _
      rw [hline]
      exact hfound.2.1
    · intro u hu
      change ((t.setLine i _).lines i).status u = _ ↔ _
      rw [hline]
      change Function.update _ s _ u = _ ↔ _
      rw [Function.update_of_ne hu]
    · intro hreserved
      have hstatus := hfound.reserved hunique hs hfound.1 hfound.2.1 hreserved
      cases hstatus
    · intro u _
      exact hfound.2.1
    · intro j hj htag hvalid
      exact hfound.unique hunique hj htag hvalid
  · rw [hline]
    exact Function.update_self ..

/-- What an access to a block does: nothing to the statuses, or it places a line whose
sector it reserves. -/
theorem access_spec {time : BitVec 32} {mf : MemFetch} {a : TagAccess cfg.cacheType}
    (hok : t.access addr time mf = .ok a) (hmiss : cfg.allocPolicy = .onMiss)
    (haddr : cfg.tag addr = addr) (hblock : cfg.blockAddr addr = addr) (hunique : t.Unique) :
    t.probe addr mf.sectorMask mf.isWrite = .ok (a.status, a.idx) ∧
    ((a.status ≠ .miss ∧ a.status ≠ .sectorMiss ∧ t.Steady a.tags) ∨
      (a.status = .miss ∨ a.status = .sectorMiss) ∧
        ∃ i s, a.idx = some i ∧ cfg.cacheType.getSectorIndex mf.sectorMask = .ok s ∧
          t.Placed a.tags i addr s ∧ (a.tags.lines i).status s = .reserved) := by
  unfold access at hok
  obtain ⟨⟨status, idx⟩, hprobe, hok⟩ := bind_eq_ok hok
  have hspec := probe_spec hprobe
  rw [haddr] at hspec
  cases status with
  | hit =>
    obtain ⟨s, hs, hok⟩ := bind_eq_ok hok
    cases hok
    exact ⟨hprobe, .inl ⟨CacheRequestStatus.noConfusion, CacheRequestStatus.noConfusion,
      steady_setLine rfl rfl⟩⟩
  | hitReserved =>
    obtain ⟨s, hs, hok⟩ := bind_eq_ok hok
    cases hok
    exact ⟨hprobe, .inl ⟨CacheRequestStatus.noConfusion, CacheRequestStatus.noConfusion,
      steady_setLine rfl rfl⟩⟩
  | miss =>
    dsimp only at hok
    rw [if_pos hmiss] at hok
    obtain ⟨s, hs, hok⟩ := bind_eq_ok hok
    cases hok
    refine ⟨hprobe, .inr ⟨.inl rfl, ?_⟩⟩
    rcases hspec with ⟨i, -, -, -, s', -, hmatch⟩ | ⟨habsent, ⟨hfail, -⟩ | ⟨-, i, rfl, hfree⟩⟩
    · rcases CacheBlock.tagMatch_some hmatch with h | h | h <;> cases h
    · cases hfail
    · have hplaced := placed_allocate s time
        (if (t.lines i).isModifiedLine then t.dirty - 1 else t.dirty) hfree habsent
      refine ⟨i, s, rfl, hs, ?_⟩
      rw [haddr, hblock]
      exact hplaced
  | sectorMiss =>
    obtain ⟨-, -, hok⟩ := bind_eq_ok hok
    rw [if_pos hmiss] at hok
    obtain ⟨-, -, hok⟩ := bind_eq_ok hok
    obtain ⟨s, hs, hok⟩ := bind_eq_ok hok
    cases hok
    refine ⟨hprobe, .inr ⟨.inr rfl, ?_⟩⟩
    rcases hspec with ⟨i, rfl, hfound⟩ | ⟨-, ⟨hfail, -⟩ | ⟨hmiss, -⟩⟩
    · refine ⟨i, s, rfl, hs, ?_⟩
      exact placed_allocateSector hfound hs hunique
    · cases hfail
    · cases hmiss
  | reservationFail =>
    cases hok
    exact ⟨hprobe, .inl ⟨CacheRequestStatus.noConfusion, CacheRequestStatus.noConfusion,
      fun _ => ⟨rfl, rfl⟩⟩⟩

/-! ### The lines after a fill -/

/-- Sector `s` of line `i` has its data; nothing else changed. -/
structure Filled (t t' : TagArray cfg.cacheType) (i : Nat) (s : Fin cfg.cacheType.sectors) :
    Prop where
  others : ∀ j ≠ i, t'.lines j = t.lines j
  tag : (t'.lines i).tag = (t.lines i).tag
  filled : (t'.lines i).status s ≠ .reserved
  keeps : ∀ u ≠ s, (t'.lines i).status u = (t.lines i).status u

theorem fill_status (b : CacheBlock cfg.cacheType) (s u : Fin cfg.cacheType.sectors)
    (byteMask : MemAccessByteMask) :
    (b.fill s byteMask).tag = b.tag ∧
    (b.fill s byteMask).status u =
      if u = s then (if b.modifiedOnFill s then .modified else .valid) else b.status u := by
  unfold CacheBlock.fill
  dsimp only
  constructor
  · split <;> split <;> rfl
  · rw [← CacheBlock.setStatus_status]
    split <;> split <;> rfl

theorem fillAt_spec {mf : MemFetch} (hok : t.fillAt i mf = .ok t') :
    ∃ s, cfg.cacheType.getSectorIndex mf.sectorMask = .ok s ∧ t.Filled t' i s := by
  unfold fillAt at hok
  obtain ⟨s, hs, hok⟩ := bind_eq_ok hok
  cases hok
  have hline : (t.setLine i ((t.lines i).fill s mf.byteMask)).lines i =
      (t.lines i).fill s mf.byteMask := by
    rw [setLine_lines, if_pos rfl]
  refine ⟨s, hs, ?_, ?_, ?_, ?_⟩
  · intro j hj
    change (t.setLine i _).lines j = _
    rw [setLine_lines, if_neg hj]
  · change ((t.setLine i _).lines i).tag = _
    rw [hline]
    exact (fill_status _ s s _).1
  · change ((t.setLine i _).lines i).status s ≠ _
    rw [hline, (fill_status _ s s _).2, if_pos rfl]
    split <;> exact CacheBlockState.noConfusion
  · intro u hu
    change ((t.setLine i _).lines i).status u = _
    rw [hline, (fill_status _ s u _).2, if_neg hu]

/-- A filled sector may also become modified, as after an atomic. -/
theorem Filled.setStatus {s : Fin cfg.cacheType.sectors} (h : t.Filled t' i s)
    {t'' : TagArray cfg.cacheType} {x : CacheBlockState} (hx : x ≠ .reserved)
    (hothers : ∀ j ≠ i, t''.lines j = t'.lines j) (htag : (t''.lines i).tag = (t'.lines i).tag)
    (hstatus : (t''.lines i).status = ((t'.lines i).setStatus x s).status) :
    t.Filled t'' i s where
  others := fun j hj => (hothers j hj).trans (h.others j hj)
  tag := htag.trans h.tag
  filled := by
    rw [hstatus, CacheBlock.setStatus_status, if_pos rfl]
    exact hx
  keeps := fun u hu => by
    rw [hstatus, CacheBlock.setStatus_status, if_neg hu]
    exact h.keeps u hu

/-- Whether a probe hits depends on the lines that hold its block alone. -/
theorem probeWays_hit {r' : Replacement}
    (hsame : ∀ i ∈ ways, t'.verdict tag mask w i = t.verdict tag mask w i)
    (hok : t'.probeWays tag mask w ways r' = .ok (.hit, idx)) :
    t.probeWays tag mask w ways r = .ok (.hit, idx) := by
  induction ways generalizing r r' with
  | nil =>
    unfold probeWays at hok
    split at hok
    · split at hok <;> cases hok
    · split at hok <;> cases hok
  | cons index rest ih =>
    unfold probeWays at hok ⊢
    rw [hsame index List.mem_cons_self] at hok
    obtain ⟨v, hv, hok⟩ := bind_eq_ok hok
    rw [hv]
    cases v with
    | some st => exact hok
    | none => exact ih (fun i hi => hsame i (List.mem_cons_of_mem _ hi)) hok

/-- A hit that was none before the fill is a hit on the block that was filled. -/
theorem Filled.hit {s : Fin cfg.cacheType.sectors} (h : t.Filled t' i s)
    (hother : cfg.tag addr ≠ (t.lines i).tag)
    (hok : t'.probe addr mask w = .ok (.hit, idx)) : t.probe addr mask w = .ok (.hit, idx) := by
  refine probeWays_hit (fun j _ => ?_) hok
  unfold verdict
  rcases Decidable.eq_or_ne j i with rfl | hj
  · rw [if_neg, if_neg]
    · exact Ne.symm hother
    · rw [h.tag]
      exact Ne.symm hother
  · rw [h.others j hj]

end TagArray

end FlashGpuSim
