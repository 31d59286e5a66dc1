import FlashGpuSim.Cache.Reservations

/-!
Which accesses keep the pairing of reads and reserved sectors, and what it says about
fills. A write on a reserved sector under the lazy policy, or of a whole sector under
`FETCH_ON_WRITE`, makes the sector `MODIFIED` at once: the line loses its protection
while the read is out.
-/

namespace FlashGpuSim

open Lib

namespace BaselineCache

variable {cfg : CacheConfig} {c c' : BaselineCache cfg} {mf : MemFetch} {time : BitVec 32}
  {index : Nat} {idx : Option Nat} {wb nMf : Nat} {wa : Bool} {status st : CacheRequestStatus}

/-- Reads out and reserved sectors are paired. -/
structure Owned (c : BaselineCache cfg) : Prop where
  tracked : c.Tracked
  reserves : c.tags.Reserves c.extraMfFields

theorem Owned.congr (h : c.Owned) (hsame : c.SameMisses c')
    (hreserves : c'.tags.Reserves c.extraMfFields) : c'.Owned where
  tracked := h.tracked.same hsame
  reserves := by
    rw [hsame.extra]
    exact hreserves

theorem Owned.same (h : c.Owned) (hsame : c.SameCore c') : c'.Owned := by
  refine h.congr hsame.misses ?_
  rw [hsame.tags]
  exact h.reserves

theorem Owned.retains (h : c.Owned) (hsame : c.SameMisses c') (hretains : c.tags.Retains c'.tags) :
    c'.Owned := h.congr hsame (h.reserves.retains hretains)

/-- A block whose read is out is found with its sector reserved. -/
theorem Owned.probe_reserved {w : Bool} (h : c.Owned)
    (hsector : cfg.cacheType.getSectorIndex mf.sectorMask = .ok (cfg.cacheType.sectorOf mf.addr))
    (hhit : c.mshrs.probe (cfg.mshrAddr mf.addr) = true)
    (hprobe : c.tags.probe (cfg.blockAddr mf.addr) mf.sectorMask w = .ok (status, idx)) :
    status = .hitReserved := by
  obtain ⟨id, e, he, hblock⟩ := h.tracked.owned _ hhit
  have howns := h.reserves.owned id e he
  rw [howns.block] at hblock
  obtain ⟨htag, hsec⟩ := cfg.mshrAddr_eq_iff.mp hblock
  have hspec := TagArray.probe_spec hprobe
  rw [cfg.blockAddr_eq_tag, cfg.tag_tag] at hspec
  have hmem := howns.mem
  have hline := howns.tag
  have hreserved := howns.reserved
  rw [htag] at hmem hline
  rw [hsec] at hreserved
  rcases hspec with ⟨i, -, hfound⟩ | ⟨habsent, -⟩
  · exact hfound.reserved h.reserves.unique hsector hmem hline hreserved
  · have hinvalid := habsent _ hmem hline (cfg.cacheType.sectorOf mf.addr)
    rw [hreserved] at hinvalid
    cases hinvalid

/-- A reserved sector that a probe finds belongs to a read that is out for it. -/
theorem Owned.reserved_probe {w : Bool} (h : c.Owned)
    (hsector : cfg.cacheType.getSectorIndex mf.sectorMask = .ok (cfg.cacheType.sectorOf mf.addr))
    (hprobe : c.tags.probe (cfg.blockAddr mf.addr) mf.sectorMask w = .ok (.hitReserved, idx)) :
    c.mshrs.probe (cfg.mshrAddr mf.addr) = true := by
  have hspec := TagArray.probe_spec hprobe
  rw [cfg.blockAddr_eq_tag, cfg.tag_tag] at hspec
  rcases hspec with ⟨i, -, hmem, htag, s, hs, hmatch⟩ | ⟨-, ⟨hfail, -⟩ | ⟨hmiss, -⟩⟩
  · rw [hsector] at hs
    cases hs
    obtain ⟨id, e, he, hindex, hsec⟩ :=
      h.reserves.filled i _ (CacheBlock.tagMatch_reserved.mp hmatch)
    have howns := h.reserves.owned id e he
    have hpending := h.tracked.pending id e he
    have hblock : e.blockAddr = cfg.mshrAddr mf.addr := by
      rw [howns.block]
      refine cfg.mshrAddr_eq_iff.mpr ⟨?_, hsec⟩
      rw [← howns.tag, hindex, htag]
    rwa [hblock] at hpending
  · cases hfail
  · cases hmiss

theorem tags_access_spec {a : TagAccess cfg.cacheType}
    (hok : c.tags.access (cfg.blockAddr mf.addr) time mf = .ok a)
    (hmiss : cfg.allocPolicy = .onMiss) (h : c.Owned) :
    c.tags.probe (cfg.blockAddr mf.addr) mf.sectorMask mf.isWrite = .ok (a.status, a.idx) ∧
    ((a.status ≠ .miss ∧ a.status ≠ .sectorMiss ∧ c.tags.Steady a.tags) ∨
      (a.status = .miss ∨ a.status = .sectorMiss) ∧
        ∃ i s, a.idx = some i ∧ cfg.cacheType.getSectorIndex mf.sectorMask = .ok s ∧
          c.tags.Placed a.tags i (cfg.tag mf.addr) s ∧
          (a.tags.lines i).status s = .reserved) :=
  TagArray.access_spec hok hmiss (cfg.tag_tag _) (cfg.tag_tag _) h.reserves.unique

/-! ### Reads that may go out -/

/-- A read request of a block that is not in the cache keeps the pairs: it goes out with a
sector it reserves, or it joins the read that is out. -/
theorem ReadOutcome.owned {r : ReadRequest cfg} (hr : c.ReadOutcome mf time false wa r)
    (h : c.Owned) (hmiss : cfg.allocPolicy = .onMiss)
    (hsector : cfg.cacheType.getSectorIndex mf.sectorMask = .ok (cfg.cacheType.sectorOf mf.addr))
    (hid : c.waitingForFill mf.id = false)
    (hnohit : ∀ st idx, c.tags.probe (cfg.blockAddr mf.addr) mf.sectorMask mf.isWrite =
      .ok (st, idx) → st ≠ .hit ∧ st ≠ .reservationFail) : r.cache.Owned := by
  have htracked := hr.tracked h.tracked hid
  refine ⟨htracked, ?_⟩
  cases hr with
  | forward m _ _ hadd => exact h.reserves
  | merge a m hhit haccess hadd =>
    obtain ⟨hprobe, hsteady | ⟨-, i, s, hidx, hs, hplaced, hreserved⟩⟩ :=
      tags_access_spec haccess hmiss h
    · exact h.reserves.retains hsteady.2.2.retains
    · have hstatus := h.probe_reserved hsector hhit hprobe
      rw [hstatus] at hprobe
      rw [hsector] at hs
      cases hs
      obtain ⟨id, e, he, hblock⟩ := h.tracked.owned _ hhit
      have howns := h.reserves.owned id e he
      rw [howns.block] at hblock
      obtain ⟨htag, hsec⟩ := cfg.mshrAddr_eq_iff.mp hblock
      have hmem := howns.mem
      have hline := howns.tag
      have hbefore := howns.reserved
      rw [htag] at hmem hline
      rw [hsec] at hbefore
      have hi : e.cacheIndex = i := hplaced.alone _ hmem hline
        ⟨_, by rw [hbefore]; exact CacheBlockState.noConfusion⟩
      rw [hi] at hbefore
      exact absurd hbefore hplaced.free
  | send a m hhit haccess hadd =>
    obtain ⟨hprobe, ⟨hnmiss, hnsector, -⟩ | ⟨-, i, s, hidx, hs, hplaced, hreserved⟩⟩ :=
      tags_access_spec haccess hmiss h
    · exfalso
      obtain ⟨hnhit, hnfail⟩ := hnohit _ _ hprobe
      cases hstatus : a.status with
      | hit => exact hnhit hstatus
      | miss => exact hnmiss hstatus
      | sectorMiss => exact hnsector hstatus
      | reservationFail => exact hnfail hstatus
      | hitReserved =>
        rw [hstatus] at hprobe
        have hpending := h.reserved_probe hsector hprobe
        rw [hhit] at hpending
        cases hpending
    · rw [hsector] at hs
      cases hs
      refine h.reserves.send hplaced hreserved (waitingForFill_eq_false.mp hid) rfl hsector rfl rfl ?_
      change a.idx.getD 0 = i
      rw [hidx]
      rfl
  | retry => exact h.reserves

/-! ### Writes and reads that hit -/

/-- The line of a hit may become modified. -/
theorem hit_retains {t t' : TagArray cfg.cacheType} {addr : NewAddrType} {w : Bool}
    (line : CacheBlock cfg.cacheType → CacheBlock cfg.cacheType) {s : Fin cfg.cacheType.sectors}
    {x : CacheBlockState} (hprobe : t.probe addr mf.sectorMask w = .ok (.hit, idx))
    (hs : cfg.cacheType.getSectorIndex mf.sectorMask = .ok s) (hsteady : t.Steady t')
    (hx : x ≠ .reserved)
    (hline : ∀ b : CacheBlock cfg.cacheType, (b.setStatus x s).Retains (line b)) :
    t.Retains (t'.setLine (idx.getD index) (line (t'.lines (idx.getD index)))) := by
  refine hsteady.retains.trans (TagArray.retains_setLine ?_)
  refine CacheBlock.Retains.trans ?_ (hline _)
  rcases TagArray.probe_spec hprobe with ⟨i, rfl, -, -, s', hs', hmatch⟩ | ⟨-, ⟨hfail, -⟩ | ⟨hm, -⟩⟩
  · rw [hs] at hs'
    cases hs'
    obtain ⟨hreserved, hinvalid⟩ := CacheBlock.tagMatch_hit hmatch
    change (t'.lines i).Retains ((t'.lines i).setStatus x s)
    apply CacheBlock.retains_setStatus
    · rw [(hsteady i).1]
      exact hreserved
    · exact hx
    · refine .inr ?_
      rw [(hsteady i).1]
      exact hinvalid
  · cases hfail
  · cases hm

theorem accessNoWb_spec {t : TagArray cfg.cacheType} {addr : NewAddrType}
    {a : TagAccess cfg.cacheType} (hok : t.accessNoWb addr time mf = .ok a) :
    t.access addr time mf = .ok a := by
  unfold TagArray.accessNoWb at hok
  obtain ⟨a', haccess, hok⟩ := bind_eq_ok hok
  obtain ⟨-, -, hok⟩ := bind_eq_ok hok
  cases hok
  exact haccess

theorem markHit (hprobe : c.tags.probe (cfg.blockAddr mf.addr) mf.sectorMask mf.isWrite =
      .ok (.hit, idx)) {tags : TagArray cfg.cacheType} (hsteady : c.tags.Steady tags)
    (hok : { c with tags := tags }.markModified (idx.getD index) mf = .ok c') :
    c.SameMisses c' ∧ c.tags.Retains c'.tags := by
  obtain ⟨hsame, s, hs, hlines⟩ := markModified_spec hok
  refine ⟨⟨hsame.mshrs, hsame.extra⟩, fun i => ?_⟩
  rw [hlines]
  exact hit_retains (fun b => (b.setStatus .modified s).setByteMask mf.byteMask) hprobe hs
    hsteady CacheBlockState.noConfusion (fun b => .of_same rfl rfl) i

theorem hit_steady {a : TagAccess cfg.cacheType}
    (hprobe : c.tags.probe (cfg.blockAddr mf.addr) mf.sectorMask mf.isWrite = .ok (.hit, idx))
    (haccess : c.tags.accessNoWb (cfg.blockAddr mf.addr) time mf = .ok a)
    (hmiss : cfg.allocPolicy = .onMiss) (h : c.Owned) :
    a.idx = idx ∧ c.tags.Steady a.tags := by
  obtain ⟨hprobe', hspec⟩ := tags_access_spec (accessNoWb_spec haccess) hmiss h
  rw [hprobe] at hprobe'
  injection hprobe' with hpair
  injection hpair with hstatus hidx
  refine ⟨hidx.symm, ?_⟩
  rcases hspec with ⟨-, -, hsteady⟩ | ⟨hplaces, -⟩
  · exact hsteady
  · rw [← hstatus] at hplaces
    rcases hplaces with h | h <;> cases h

theorem updateMReadable_retains (hok : c.updateMReadable mf index = .ok c') :
    c.tags.Retains c'.tags := by
  rcases updateMReadable_spec hok with rfl | ⟨s, rfl⟩
  · exact .refl _
  · exact TagArray.retains_setLine (.of_same rfl rfl)

theorem wrHitWb_owned (hok : c.wrHitWb mf time index = .ok (c', st))
    (hprobe : c.tags.probe (cfg.blockAddr mf.addr) mf.sectorMask mf.isWrite = .ok (.hit, idx))
    (hmiss : cfg.allocPolicy = .onMiss) (h : c.Owned) : c'.Owned := by
  unfold wrHitWb at hok
  obtain ⟨a, haccess, hok⟩ := bind_eq_ok hok
  obtain ⟨c₁, hmark, hok⟩ := bind_eq_ok hok
  obtain ⟨c₂, hread, hok⟩ := bind_eq_ok hok
  cases hok
  obtain ⟨hidx, hsteady⟩ := hit_steady hprobe haccess hmiss h
  rw [hidx] at hmark
  obtain ⟨hsame, hretains⟩ := markHit hprobe hsteady hmark
  exact h.retains (hsame.trans (updateMReadable_same hread))
    (hretains.trans (updateMReadable_retains hread))

theorem wrHitWt_owned (hok : c.wrHitWt mf time index = .ok (c', st))
    (hprobe : c.tags.probe (cfg.blockAddr mf.addr) mf.sectorMask mf.isWrite = .ok (.hit, idx))
    (hmiss : cfg.allocPolicy = .onMiss) (h : c.Owned) : c'.Owned := by
  unfold wrHitWt at hok
  split at hok
  · cases hok
    exact h
  · obtain ⟨a, haccess, hok⟩ := bind_eq_ok hok
    obtain ⟨c₁, hmark, hok⟩ := bind_eq_ok hok
    obtain ⟨c₂, hread, hok⟩ := bind_eq_ok hok
    cases hok
    obtain ⟨hidx, hsteady⟩ := hit_steady hprobe haccess hmiss h
    rw [hidx] at hmark
    obtain ⟨hsame, hretains⟩ := markHit hprobe hsteady hmark
    have howned := h.retains (hsame.trans (updateMReadable_same hread))
      (hretains.trans (updateMReadable_retains hread))
    exact howned.same (sendWriteRequest_same c₂ mf)

theorem wrHitWe_owned (hok : c.wrHitWe mf (idx.getD index) = .ok (c', st))
    (hprobe : c.tags.probe (cfg.blockAddr mf.addr) mf.sectorMask mf.isWrite = .ok (.hit, idx))
    (h : c.Owned) : c'.Owned := by
  unfold wrHitWe at hok
  split at hok
  · cases hok
    exact h
  · obtain ⟨s, hs, hok⟩ := bind_eq_ok hok
    cases hok
    refine h.retains ⟨rfl, rfl⟩ ?_
    exact hit_retains (fun b => b.setStatus .invalid s) hprobe hs
      (fun _ => ⟨rfl, rfl⟩) CacheBlockState.noConfusion (fun b => .refl _)

theorem wrHit_owned (hok : c.wrHit mf time (idx.getD index) = .ok (c', st))
    (hprobe : c.tags.probe (cfg.blockAddr mf.addr) mf.sectorMask mf.isWrite = .ok (.hit, idx))
    (hmiss : cfg.allocPolicy = .onMiss) (h : c.Owned) : c'.Owned := by
  unfold wrHit at hok
  split at hok
  · cases hok
  · exact wrHitWb_owned hok hprobe hmiss h
  · exact wrHitWt_owned hok hprobe hmiss h
  · exact wrHitWe_owned hok hprobe h
  · unfold wrHitGlobalWeLocalWb at hok
    split at hok
    · exact wrHitWe_owned hok hprobe h
    · exact wrHitWb_owned hok hprobe hmiss h

theorem rdHitBase_owned (hok : c.rdHitBase mf time index = .ok (c', st))
    (hprobe : c.tags.probe (cfg.blockAddr mf.addr) mf.sectorMask mf.isWrite = .ok (.hit, idx))
    (hmiss : cfg.allocPolicy = .onMiss) (h : c.Owned) : c'.Owned := by
  unfold rdHitBase at hok
  obtain ⟨a, haccess, hok⟩ := bind_eq_ok hok
  obtain ⟨hidx, hsteady⟩ := hit_steady hprobe haccess hmiss h
  split at hok
  · obtain ⟨-, -, hok⟩ := bind_eq_ok hok
    obtain ⟨c₁, hmark, hok⟩ := bind_eq_ok hok
    cases hok
    rw [hidx] at hmark
    obtain ⟨hsame, hretains⟩ := markHit hprobe hsteady hmark
    exact h.retains hsame hretains
  · cases hok
    exact h.retains ⟨rfl, rfl⟩ hsteady.retains

/-! ### Writes that overwrite a sector -/

/-- A write that misses places a line and makes its sector modified. -/
theorem overwrite_owned {a : TagAccess cfg.cacheType} {mshrs : MshrTable}
    {missQueue : List MemFetch}
    (haccess : c.tags.access (cfg.blockAddr mf.addr) time mf = .ok a)
    (hhit : a.status ≠ .hit) (hreserved : a.status ≠ .hitReserved)
    (hfail : a.status ≠ .reservationFail) (hmshrs : mshrs = c.mshrs)
    (hok : BaselineCache.markModified
      { tags := a.tags, mshrs := mshrs, missQueue := missQueue, extraMfFields := c.extraMfFields }
      (a.idx.getD index) mf = .ok c')
    (hmiss : cfg.allocPolicy = .onMiss) (h : c.Owned) : c'.Owned := by
  obtain ⟨-, ⟨hnmiss, hnsector, -⟩ | ⟨-, i, s, hidx, hs, hplaced, -⟩⟩ :=
    tags_access_spec haccess hmiss h
  · exfalso
    cases hstatus : a.status with
    | hit => exact hhit hstatus
    | hitReserved => exact hreserved hstatus
    | miss => exact hnmiss hstatus
    | sectorMiss => exact hnsector hstatus
    | reservationFail => exact hfail hstatus
  · obtain ⟨hsame, s', hs', hlines⟩ := markModified_spec hok
    rw [hs] at hs'
    cases hs'
    rw [hidx] at hlines
    dsimp only [Option.getD_some] at hlines
    subst hmshrs
    have hset := hplaced.setStatus .modified
    have hretains :
        (a.tags.setLine i ((a.tags.lines i).setStatus .modified s)).Retains c'.tags := by
      intro j
      rw [hlines, TagArray.setLine_lines, TagArray.setLine_lines]
      split
      · exact .of_same rfl rfl
      · exact .refl _
    refine h.congr ⟨hsame.mshrs, hsame.extra⟩ (h.reserves.place (hset.retains hretains) ?_)
    rw [hlines, TagArray.setLine_lines, if_pos rfl]
    change ((a.tags.lines i).setStatus .modified s).status s ≠ _
    rw [CacheBlock.setStatus_status, if_pos rfl]
    exact CacheBlockState.noConfusion

theorem modifyLine_retains {f : CacheBlock cfg.cacheType → CacheBlock cfg.cacheType}
    (hf : ∀ b : CacheBlock cfg.cacheType, b.Retains (f b)) :
    c.tags.Retains (c.modifyLine index f).tags := TagArray.retains_setLine (hf _)

theorem Owned.modifyLine {f : CacheBlock cfg.cacheType → CacheBlock cfg.cacheType}
    (h : c.Owned) (index : Nat) (hf : ∀ b : CacheBlock cfg.cacheType, b.Retains (f b)) :
    (c.modifyLine index f).Owned := h.retains (modifyLine_same _ _ _) (modifyLine_retains hf)

theorem wrMissWaFetchOnWriteFull_owned
    (hok : c.wrMissWaFetchOnWriteFull mf time wb index = .ok (c', st))
    (hprobe : c.tags.probe (cfg.blockAddr mf.addr) mf.sectorMask mf.isWrite = .ok (status, idx))
    (hreserved : c.missQueueFull 0 = false → status ≠ .hitReserved)
    (hfail : status ≠ .reservationFail) (hmiss : cfg.allocPolicy = .onMiss) (h : c.Owned) :
    c'.Owned := by
  unfold wrMissWaFetchOnWriteFull at hok
  split at hok
  · cases hok
    exact h
  · rename_i hroom
    have hreserved := hreserved (Bool.not_eq_true _ ▸ hroom)
    obtain ⟨a, haccess, hok⟩ := bind_eq_ok hok
    obtain ⟨_, hhit, hok⟩ := bind_eq_ok hok
    obtain ⟨s, hs, hok⟩ := bind_eq_ok hok
    obtain ⟨c₁, hmark, hok⟩ := bind_eq_ok hok
    obtain ⟨hprobe', -⟩ := tags_access_spec haccess hmiss h
    rw [hprobe] at hprobe'
    injection hprobe' with hpair
    injection hpair with hstatus _
    subst hstatus
    have howned := overwrite_owned haccess (require_ok hhit) hreserved hfail rfl hmark hmiss h
    rw [if_neg hreserved, if_pos hfail] at hok
    cases hok
    exact howned.same (sendWriteBack_same _ _ _)

theorem markReadable_retains (mf : MemFetch) (status : CacheRequestStatus)
    (s : Fin cfg.cacheType.sectors) (b : CacheBlock cfg.cacheType) :
    b.Retains (markReadable mf status s b) := by
  unfold markReadable
  split
  · exact .of_same rfl rfl
  · split
    · exact .of_same rfl rfl
    · exact .of_same rfl rfl

theorem wrMissWaLazyFetchOnRead_owned
    (hok : c.wrMissWaLazyFetchOnRead mf time wb index = .ok (c', st))
    (hprobe : c.tags.probe (cfg.blockAddr mf.addr) mf.sectorMask mf.isWrite = .ok (status, idx))
    (hreserved : c.missQueueFull 0 = false → status ≠ .hitReserved)
    (hfail : status ≠ .reservationFail) (hmiss : cfg.allocPolicy = .onMiss) (h : c.Owned) :
    c'.Owned := by
  unfold wrMissWaLazyFetchOnRead at hok
  split at hok
  · cases hok
    exact h
  · rename_i hroom
    have hreserved := hreserved (Bool.not_eq_true _ ▸ hroom)
    dsimp only at hok
    generalize hc₀ : (if cfg.writePolicy = .writeThrough then c.sendWriteRequest mf else c) = c₀
      at hok
    have hsame : c.SameCore c₀ := by
      rw [← hc₀]
      split
      · exact sendWriteRequest_same c mf
      · exact ⟨rfl, rfl, rfl⟩
    have h₀ := h.same hsame
    rw [← hsame.tags] at hprobe
    obtain ⟨a, haccess, hok⟩ := bind_eq_ok hok
    obtain ⟨_, hhit, hok⟩ := bind_eq_ok hok
    obtain ⟨s, hs, hok⟩ := bind_eq_ok hok
    obtain ⟨c₁, hmark, hok⟩ := bind_eq_ok hok
    obtain ⟨c₂, hread, hok⟩ := bind_eq_ok hok
    obtain ⟨hprobe', -⟩ := tags_access_spec haccess hmiss h₀
    rw [hprobe] at hprobe'
    injection hprobe' with hpair
    injection hpair with hstatus _
    subst hstatus
    have h₁ := overwrite_owned haccess (require_ok hhit) hreserved hfail rfl hmark hmiss h₀
    rw [if_neg hreserved] at hread
    have hflags := h₁.modifyLine (a.idx.getD index) (markReadable_retains mf a.status s)
    have h₂ := hflags.retains (updateMReadable_same hread) (updateMReadable_retains hread)
    rw [if_pos hfail] at hok
    cases hok
    exact h₂.same (sendWriteBack_same _ _ _)

/-! ### Reads that go out -/

/-- Neither the request itself nor the read a write makes of it can hit. -/
theorem read_no_hit {t : TagArray cfg.cacheType} {addr : NewAddrType}
    {mask : MemAccessSectorMask} {w : Bool} (hprobe : t.probe addr mask w = .ok (status, idx))
    (hhit : status ≠ .hit) (hfail : status ≠ .reservationFail) {x : CacheRequestStatus}
    {y : Option Nat} (hread : t.probe addr mask false = .ok (x, y)) :
    x ≠ .hit ∧ x ≠ .reservationFail := by
  cases w with
  | false =>
    rw [hprobe] at hread
    cases hread
    exact ⟨hhit, hfail⟩
  | true =>
    obtain ⟨z, hz, hzhit, hzfail⟩ := TagArray.probeWays_write hread
    change t.probeWays _ _ _ _ _ = _ at hprobe
    rw [hz] at hprobe
    cases hprobe
    exact ⟨fun hx => hhit (hzhit hx), fun hx => hfail (hzfail hx)⟩

theorem sendReadRequest_owned (mf : MemFetch) {r : ReadRequest cfg} {req : MemFetch}
    (hok : c.sendReadRequest req time false wa = .ok r) (haddr : req.addr = mf.addr)
    (hmask : req.sectorMask = mf.sectorMask) (hwrite : req.isWrite = false)
    (hprobe : c.tags.probe (cfg.blockAddr mf.addr) mf.sectorMask mf.isWrite = .ok (status, idx))
    (hhit : status ≠ .hit) (hfail : status ≠ .reservationFail)
    (hsector : cfg.cacheType.getSectorIndex mf.sectorMask = .ok (cfg.cacheType.sectorOf mf.addr))
    (hid : c.waitingForFill req.id = false) (hmiss : cfg.allocPolicy = .onMiss) (h : c.Owned) :
    r.cache.Owned := by
  refine (sendReadRequest_outcome hok).owned h hmiss ?_ hid ?_
  · rw [haddr, hmask]
    exact hsector
  · intro x y hread
    rw [haddr, hmask, hwrite] at hread
    exact read_no_hit hprobe hhit hfail hread

theorem wrMissWaNaive_owned (hok : c.wrMissWaNaive mf time nMf wb status = .ok (c', st))
    (hprobe : c.tags.probe (cfg.blockAddr mf.addr) mf.sectorMask mf.isWrite = .ok (status, idx))
    (hhit : status ≠ .hit) (hfail : status ≠ .reservationFail)
    (hsector : cfg.cacheType.getSectorIndex mf.sectorMask = .ok (cfg.cacheType.sectorOf mf.addr))
    (hid : c.waitingForFill nMf = false) (hmiss : cfg.allocPolicy = .onMiss) (h : c.Owned) :
    c'.Owned := by
  unfold wrMissWaNaive at hok
  split at hok
  · cases hok
    exact h
  · obtain ⟨r, hsend, hok⟩ := bind_eq_ok hok
    have h₀ := h.same (sendWriteRequest_same c mf)
    have howned := sendReadRequest_owned mf hsend rfl rfl rfl hprobe hhit hfail hsector hid hmiss h₀
    split at hok
    · split at hok
      · obtain ⟨_, -, hok⟩ := bind_eq_ok hok
        cases hok
        exact howned.same (sendWriteBack_same _ _ _)
      · cases hok
        exact howned.same (sendWriteBack_same _ _ _)
    · cases hok
      exact howned

theorem wrMissWaFetchOnWritePartial_owned
    (hok : c.wrMissWaFetchOnWritePartial mf time nMf wb index = .ok (c', st))
    (hprobe : c.tags.probe (cfg.blockAddr mf.addr) mf.sectorMask mf.isWrite = .ok (status, idx))
    (hhit : status ≠ .hit) (hfail : status ≠ .reservationFail)
    (hsector : cfg.cacheType.getSectorIndex mf.sectorMask = .ok (cfg.cacheType.sectorOf mf.addr))
    (hid : c.waitingForFill nMf = false) (hmiss : cfg.allocPolicy = .onMiss) (h : c.Owned) :
    c'.Owned := by
  unfold wrMissWaFetchOnWritePartial at hok
  dsimp only at hok
  split at hok
  · cases hok
    exact h
  · split at hok
    · cases hok
      exact h
    · obtain ⟨r, hsend, hok⟩ := bind_eq_ok hok
      obtain ⟨s, hs, hok⟩ := bind_eq_ok hok
      have howned := sendReadRequest_owned mf hsend rfl rfl rfl hprobe hhit hfail hsector hid hmiss h
      have hflags := howned.modifyLine index
        (f := fun line => (line.setModifiedOnFill true s).setByteMaskOnFill true)
        (fun b => .of_same rfl rfl)
      split at hok
      · cases hok
        exact hflags.same (sendWriteBack_same _ _ _)
      · cases hok
        exact hflags

theorem rdMissBase_owned (hok : c.rdMissBase mf time wb = .ok (c', st))
    (hprobe : c.tags.probe (cfg.blockAddr mf.addr) mf.sectorMask mf.isWrite = .ok (status, idx))
    (hwrite : mf.isWrite = false) (hhit : status ≠ .hit) (hfail : status ≠ .reservationFail)
    (hsector : cfg.cacheType.getSectorIndex mf.sectorMask = .ok (cfg.cacheType.sectorOf mf.addr))
    (hid : c.waitingForFill mf.id = false) (hmiss : cfg.allocPolicy = .onMiss) (h : c.Owned) :
    c'.Owned := by
  unfold rdMissBase at hok
  split at hok
  · cases hok
    exact h
  · obtain ⟨r, hsend, hok⟩ := bind_eq_ok hok
    have howned := sendReadRequest_owned mf hsend rfl rfl hwrite hprobe hhit hfail hsector hid hmiss h
    split at hok
    · cases hok
      exact howned.same (sendWriteBack_same _ _ _)
    · cases hok
      exact howned

/-! ### Steps -/

/-- The accesses that may send a read for their own sector. -/
def mayRead (cfg : CacheConfig) (mf : MemFetch) : Bool :=
  !mf.isWrite || decide (cfg.writeAllocPolicy = .writeAllocate) ||
    (decide (cfg.writeAllocPolicy = .fetchOnWrite) && !writesAll cfg mf)

/-- The writes that make their sector modified without reading it. -/
def overwrites (cfg : CacheConfig) (mf : MemFetch) : Bool :=
  mf.isWrite && (decide (cfg.writeAllocPolicy = .lazyFetchOnRead) ||
    (decide (cfg.writeAllocPolicy = .fetchOnWrite) && writesAll cfg mf))

/-- An access that may read names the sector its address lies in, and a write that the
cache accepts and that reads nothing does not meet a reserved sector. -/
def SparesReserved (c : BaselineCache cfg) : CacheOp → Prop
  | .access mf _ _ _ =>
    (mayRead cfg mf = true → cfg.cacheType.getSectorIndex mf.sectorMask =
      .ok (cfg.cacheType.sectorOf mf.addr)) ∧
    (overwrites cfg mf = true → c.missQueueFull 0 = false →
      ∀ idx, c.tags.probe (cfg.blockAddr mf.addr) mf.sectorMask true ≠ .ok (.hitReserved, idx))
  | .cycle _ | .fill _ _ | .nextAccess => True

theorem wrMiss_owned (hok : c.wrMiss mf time nMf wb status index = .ok (c', st))
    (hprobe : c.tags.probe (cfg.blockAddr mf.addr) mf.sectorMask mf.isWrite = .ok (status, idx))
    (hwrite : mf.isWrite = true) (hhit : status ≠ .hit)
    (hfail : status ≠ .reservationFail ∨ cfg.writeAllocPolicy = .noWriteAllocate)
    (hspares : c.SparesReserved (.access mf time nMf wb))
    (hid : c.waitingForFill nMf = false) (hmiss : cfg.allocPolicy = .onMiss) (h : c.Owned) :
    c'.Owned := by
  obtain ⟨hsector, hreserved⟩ := hspares
  have hprobe' := hprobe
  rw [hwrite] at hprobe'
  unfold wrMiss at hok
  split at hok
  · unfold wrMissNoWa at hok
    split at hok
    · cases hok
      exact h
    · cases hok
      exact h.same (sendWriteRequest_same _ _)
  · rename_i hpolicy
    rw [hpolicy] at hfail
    have hfail := hfail.resolve_right WriteAllocatePolicy.noConfusion
    refine wrMissWaNaive_owned hok hprobe hhit hfail (hsector ?_) hid hmiss h
    simp [mayRead, hpolicy]
  · rename_i hpolicy
    rw [hpolicy] at hfail
    have hfail := hfail.resolve_right WriteAllocatePolicy.noConfusion
    unfold wrMissWaFetchOnWrite at hok
    split at hok
    · rename_i hall
      refine wrMissWaFetchOnWriteFull_owned hok hprobe (fun hroom hstatus => ?_) hfail hmiss h
      rw [hstatus] at hprobe'
      exact hreserved (by simp [overwrites, hwrite, hpolicy, hall]) hroom idx hprobe'
    · rename_i hall
      refine wrMissWaFetchOnWritePartial_owned hok hprobe hhit hfail (hsector ?_) hid hmiss h
      simp [mayRead, hpolicy, hall]
  · rename_i hpolicy
    rw [hpolicy] at hfail
    have hfail := hfail.resolve_right WriteAllocatePolicy.noConfusion
    refine wrMissWaLazyFetchOnRead_owned hok hprobe (fun hroom hstatus => ?_) hfail hmiss h
    rw [hstatus] at hprobe'
    exact hreserved (by simp [overwrites, hwrite, hpolicy]) hroom idx hprobe'

theorem dataAccess_owned (hok : c.dataAccess mf time nMf wb = .ok (c', st))
    (hallowed : c.allowed (.access mf time nMf wb))
    (hspares : c.SparesReserved (.access mf time nMf wb)) (hmiss : cfg.allocPolicy = .onMiss)
    (h : c.Owned) : c'.Owned := by
  unfold dataAccess at hok
  obtain ⟨-, -, hok⟩ := bind_eq_ok hok
  obtain ⟨⟨status, idx⟩, hprobe, hok⟩ := bind_eq_ok hok
  dsimp only at hok
  unfold processTagProbe at hok
  split at hok
  · rename_i hwrite
    split at hok
    · rename_i hhit
      subst hhit
      exact wrHit_owned hok hprobe hmiss h
    · rename_i hhit
      split at hok
      · rename_i hfail
        exact wrMiss_owned hok hprobe hwrite hhit hfail hspares hallowed.2 hmiss h
      · cases hok
        exact h
  · rename_i hread
    have hread : mf.isWrite = false := Bool.not_eq_true _ ▸ hread
    split at hok
    · rename_i hhit
      subst hhit
      exact rdHitBase_owned hok hprobe hmiss h
    · rename_i hhit
      split at hok
      · rename_i hfail
        refine rdMissBase_owned hok hprobe hread hhit hfail (hspares.1 ?_) hallowed.1 hmiss h
        simp [mayRead, hread]
      · cases hok
        exact h

theorem fillLine_spec {id : Nat} {e : ExtraMfFields} (hok : c.fillLine id e time = .ok c')
    (hmiss : cfg.allocPolicy = .onMiss) :
    ∃ s m atomic, cfg.cacheType.getSectorIndex e.mf.sectorMask = .ok s ∧
      c.mshrs.markReady e.blockAddr = .ok (m, atomic) ∧
      c.tags.Filled c'.tags e.cacheIndex s ∧ c'.mshrs = m ∧
      c'.extraMfFields = c.extraMfFields.erase id := by
  unfold fillLine at hok
  dsimp only at hok
  obtain ⟨tags, htags, hok⟩ := bind_eq_ok hok
  obtain ⟨⟨m, atomic⟩, hmark, hok⟩ := bind_eq_ok hok
  unfold fillTags at htags
  rw [hmiss] at htags
  obtain ⟨s, hs, hfilled⟩ := TagArray.fillAt_spec htags
  refine ⟨s, m, atomic, hs, hmark, ?_⟩
  split at hok
  · obtain ⟨-, -, hok⟩ := bind_eq_ok hok
    obtain ⟨c₁, hatomic, hok⟩ := bind_eq_ok hok
    cases hok
    obtain ⟨hsame, s', hs', hlines⟩ := markModified_spec hatomic
    rw [hs] at hs'
    cases hs'
    refine ⟨hfilled.setStatus (x := .modified) CacheBlockState.noConfusion ?_ ?_ ?_,
      hsame.mshrs, congrArg (fun t => t.erase id) hsame.extra⟩
    · intro j hj
      change c₁.tags.lines j = _
      rw [hlines, TagArray.setLine_lines, if_neg hj]
    · change (c₁.tags.lines e.cacheIndex).tag = _
      rw [hlines, TagArray.setLine_lines, if_pos rfl]
      rfl
    · change (c₁.tags.lines e.cacheIndex).status = _
      rw [hlines, TagArray.setLine_lines, if_pos rfl]
      rfl
  · cases hok
    exact ⟨hfilled, rfl, rfl⟩

theorem fillLine_owned {id : Nat} {e e' : ExtraMfFields}
    (hok : c.fillLine id e' time = .ok c') (he : c.extraMfFields.lookup id = some e)
    (hsame : e' = { e with pendingRead := e'.pendingRead }) (hmiss : cfg.allocPolicy = .onMiss)
    (h : c.Owned) : c'.Owned := by
  obtain ⟨s, m, atomic, hs, hmark, hfilled, hmshrs, hextra⟩ := fillLine_spec hok hmiss
  rw [hsame] at hs hmark hfilled
  have howns := h.reserves.owned id e he
  have hsector := howns.sector
  change cfg.cacheType.getSectorIndex e.mf.sectorMask = _ at hs
  rw [hs] at hsector
  injection hsector with hsector
  subst hsector
  constructor
  · unfold Tracked
    rw [hmshrs, hextra]
    exact MissesTracked.fill h.tracked he hmark
  · rw [hextra]
    exact h.reserves.fill he hfilled
      (fun id' e'' he'' hblock => h.tracked.distinct id' id e'' e he'' he hblock)

theorem fill_owned {id : Nat} (hok : c.fill id time = .ok c') (hmiss : cfg.allocPolicy = .onMiss)
    (h : c.Owned) : c'.Owned := by
  unfold fill at hok
  split at hok
  · cases hok
  · rename_i e he
    split at hok
    · exact fillLine_owned hok he rfl hmiss h
    · dsimp only at hok
      split at hok
      · cases hok
        exact ⟨MissesTracked.count h.tracked he rfl, h.reserves.count he rfl⟩
      · exact fillLine_owned hok he rfl hmiss h

theorem nextAccess_owned (hok : c.nextAccess = .ok (c', mf)) (h : c.Owned) : c'.Owned := by
  unfold nextAccess at hok
  obtain ⟨⟨m, x⟩, hnext, hok⟩ := bind_eq_ok hok
  cases hok
  exact ⟨MissesTracked.drain h.tracked hnext, h.reserves⟩

theorem cycle_owned (h : c.Owned) (portFull : Bool) : (c.cycle portFull).Owned := by
  unfold cycle
  split
  · exact h
  · exact ⟨h.tracked, h.reserves⟩

theorem step_owned {o : CacheOp} (hok : c.step o = .ok c') (hallowed : c.allowed o)
    (hspares : c.SparesReserved o) (hmiss : cfg.allocPolicy = .onMiss)
    (hdata : cfg.writePolicy ≠ .readOnly) (h : c.Owned) : c'.Owned := by
  cases o with
  | access mf time nMf wb =>
    obtain ⟨⟨c₁, st⟩, haccess, hok⟩ := bind_eq_ok hok
    cases hok
    unfold access at haccess
    rw [if_neg hdata] at haccess
    exact dataAccess_owned haccess hallowed hspares hmiss h
  | cycle portFull =>
    cases hok
    exact cycle_owned h portFull
  | fill id time => exact fill_owned hok hmiss h
  | nextAccess =>
    obtain ⟨⟨c₁, mf⟩, hnext, hok⟩ := bind_eq_ok hok
    cases hok
    exact nextAccess_owned hnext h

/-! ### Outstanding fills own their line -/

/-- The line kept for a read that is out holds the block of the read; its fill changes the
status of the sector it was sent for, in a line of its block, and makes no other block hit;
every reserved sector has a read that will fill it. -/
structure FillsOwnLines (c : BaselineCache cfg) : Prop where
  owns : ∀ id e, c.extraMfFields.lookup id = some e →
    (c.tags.lines e.cacheIndex).tag = cfg.tag e.blockAddr
  fills : ∀ id time c', c.fill id time = .ok c' → ∀ i s,
    (c'.tags.lines i).status s ≠ (c.tags.lines i).status s →
      ∃ e, c.extraMfFields.lookup id = some e ∧ (c.tags.lines i).tag = cfg.tag e.blockAddr ∧
        cfg.cacheType.getSectorIndex e.mf.sectorMask = .ok s
  hits : ∀ id time c', c.fill id time = .ok c' → ∀ addr mask w idx,
    c'.tags.probe addr mask w = .ok (.hit, idx) → c.tags.probe addr mask w ≠ .ok (.hit, idx) →
      ∃ e, c.extraMfFields.lookup id = some e ∧ cfg.tag addr = cfg.tag e.blockAddr
  filled : ∀ i s, (c.tags.lines i).status s = .reserved →
    ∃ id e, c.extraMfFields.lookup id = some e ∧ e.cacheIndex = i ∧
      cfg.cacheType.getSectorIndex e.mf.sectorMask = .ok s

theorem tag_blockAddr {e : ExtraMfFields} (h : c.tags.Owns e) :
    cfg.tag e.blockAddr = cfg.tag e.addr := by
  rw [h.block]
  refine (cfg.mshrAddr_eq_iff.mp ?_).1
  unfold CacheConfig.mshrAddr
  rw [BitVec.and_assoc, BitVec.and_self]

/-- A fill leaves the lines as they are, or it fills the sector of its read. -/
theorem fill_tags {id : Nat} (hok : c.fill id time = .ok c') (hmiss : cfg.allocPolicy = .onMiss)
    (h : c.Owned) : ∃ e, c.extraMfFields.lookup id = some e ∧ (c'.tags = c.tags ∨
      c.tags.Filled c'.tags e.cacheIndex (cfg.cacheType.sectorOf e.addr)) := by
  unfold fill at hok
  split at hok
  · cases hok
  · rename_i e he
    have hfill : ∀ e' : ExtraMfFields, e'.mf = e.mf → e'.cacheIndex = e.cacheIndex →
        c.fillLine id e' time = .ok c' →
        c.tags.Filled c'.tags e.cacheIndex (cfg.cacheType.sectorOf e.addr) := by
      intro e' hmf hindex hline
      obtain ⟨s, m, atomic, hs, -, hfilled, -⟩ := fillLine_spec hline hmiss
      rw [hmf, (h.reserves.owned id e he).sector] at hs
      injection hs with hs
      rw [hindex, ← hs] at hfilled
      exact hfilled
    refine ⟨e, he, ?_⟩
    split at hok
    · exact .inr (hfill e rfl rfl hok)
    · dsimp only at hok
      split at hok
      · cases hok
        exact .inl rfl
      · exact .inr (hfill _ rfl rfl hok)

theorem Owned.fillsOwnLines (h : c.Owned) (hmiss : cfg.allocPolicy = .onMiss) :
    c.FillsOwnLines where
  owns := fun id e he => by
    have howns := h.reserves.owned id e he
    rw [tag_blockAddr howns]
    exact howns.tag
  fills := fun id time c' hok i s hchanged => by
    obtain ⟨e, he, hsame | hfilled⟩ := fill_tags hok hmiss h
    · rw [hsame] at hchanged
      exact absurd rfl hchanged
    · have howns := h.reserves.owned id e he
      have hi : i = e.cacheIndex := by
        by_contra hi
        rw [hfilled.others i hi] at hchanged
        exact hchanged rfl
      subst hi
      refine ⟨e, he, ?_, ?_⟩
      · rw [tag_blockAddr howns]
        exact howns.tag
      · have hs : s = cfg.cacheType.sectorOf e.addr := by
          by_contra hs
          exact hchanged (hfilled.keeps s hs)
        rw [hs]
        exact howns.sector
  hits := fun id time c' hok addr mask w idx hhit hnohit => by
    obtain ⟨e, he, hsame | hfilled⟩ := fill_tags hok hmiss h
    · rw [hsame] at hhit
      exact absurd hhit hnohit
    · have howns := h.reserves.owned id e he
      refine ⟨e, he, ?_⟩
      by_contra hother
      rw [tag_blockAddr howns, ← howns.tag] at hother
      exact hnohit (hfilled.hit hother hhit)
  filled := fun i s hs => by
    obtain ⟨id, e, he, hi, hsec⟩ := h.reserves.filled i s hs
    refine ⟨id, e, he, hi, ?_⟩
    rw [← hsec]
    exact (h.reserves.owned id e he).sector

/-- In every run of an allocate-on-miss data cache whose accesses spare reserved sectors,
the reads that are out own their lines. -/
theorem fills_own_their_lines (hmiss : cfg.allocPolicy = .onMiss)
    (hdata : cfg.writePolicy ≠ .readOnly)
    (h : Reaches (fun c o => c.step o) (fun c o => c.allowed o ∧ c.SparesReserved o)
      (init cfg) c) : c.FillsOwnLines := by
  refine Owned.fillsOwnLines ?_ hmiss
  refine h.invariant Owned ⟨MissesTracked.init, TagArray.reserves_init⟩ ?_
  intro s t o howned hallowed hok
  exact step_owned hok hallowed.1 hallowed.2 hmiss hdata howned

/-- An L2 configuration: sectors, write-back, lazy fetch on read. -/
def lazySectors : CacheConfig where
  cacheType := .sector
  nset := 1
  lineSz := 128
  lineSz_sector := fun _ => rfl
  assoc := 1
  replacementPolicy := .lru
  writePolicy := .writeBack
  allocPolicy := .onMiss
  writeAllocPolicy := .lazyFetchOnRead
  writePolicy_onFill := fun h => by cases h
  writeAllocPolicy_onFill := fun h => by cases h
  mshrType := .assoc
  mshrEntries := 4
  mshrMaxMerge := 4
  missQueueSize := 8
  setIndex := fun _ => 0
  setIndex_lt := fun _ => Nat.one_pos
  dirtyAtLimit := fun _ => true
  wrAllocType := .l2WrAllocR
  wrbkType := .l2WrbkAcc

/-- A request for the first sector of the line at `addr`. -/
def firstSector (id : Nat) (addr : NewAddrType) (isWrite : Bool) : MemFetch where
  id := id
  addr := addr
  dataSize := 32
  isWrite := isWrite
  isAtomic := false
  accessType := if isWrite then .globalAccW else .globalAccR
  byteMask := 0xffffffff
  sectorMask := 1

theorem fills_own_their_lines_witness :
    ∃ c : BaselineCache lazySectors, c.waitingForFill 0 = true ∧ c.FillsOwnLines := by
  have hrun : ((init lazySectors).step
      (.access (firstSector 0 0x000 false) 1 100 101)).toOption.any
        (fun c => c.waitingForFill 0) = true := by
    decide +kernel
  obtain ⟨c, hc, htest⟩ := (Option.any_eq_true _ _).mp hrun
  cases hok : (init lazySectors).step (.access (firstSector 0 0x000 false) 1 100 101) with
  | error e =>
    rw [hok] at hc
    cases hc
  | ok c' =>
    rw [hok] at hc
    cases hc
    refine ⟨_, htest, fills_own_their_lines rfl WritePolicy.noConfusion (.next .refl ?_ hok)⟩
    refine ⟨by decide, fun _ => rfl, fun hoverwrites => ?_⟩
    cases hoverwrites

/-- A write meets the reserved sector of a read that is out; the line is evicted before the
fill, which then belongs to another block. -/
def staleFill : List CacheOp :=
  [.access (firstSector 0 0x000 false) 1 100 101,
    .access (firstSector 1 0x000 true) 2 102 103,
    .access (firstSector 2 0x080 false) 3 104 105]

theorem fills_own_their_lines_counterexample :
    ¬ ∀ (cfg : CacheConfig) (c : BaselineCache cfg), cfg.allocPolicy = .onMiss →
      cfg.writePolicy ≠ .readOnly → Reachable cfg c → c.FillsOwnLines := by
  intro hclaim
  have hrun : ((runAllowed (fun c o => c.step o) allowed (init lazySectors) staleFill).any
      fun c => (c.extraMfFields.lookup 0).any fun e =>
        decide ((c.tags.lines e.cacheIndex).tag ≠ lazySectors.tag e.blockAddr)) = true := by
    decide +kernel
  obtain ⟨c, hc, htest⟩ := (Option.any_eq_true _ _).mp hrun
  obtain ⟨e, he, hother⟩ := (Option.any_eq_true _ _).mp htest
  have howns := hclaim lazySectors c rfl WritePolicy.noConfusion (Reaches.of_runAllowed .refl hc)
  exact of_decide_eq_true hother (howns.owns 0 e he)

end BaselineCache

end FlashGpuSim
