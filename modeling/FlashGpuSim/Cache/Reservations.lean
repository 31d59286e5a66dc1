import FlashGpuSim.Cache.MissTracking
import FlashGpuSim.Cache.TagMoves

/-!
Reserved sectors and the reads that will fill them. A line is protected from eviction by
its reserved sectors alone, so the invariant pairs every read that is out with one
reserved sector of a line of its block.
-/

namespace FlashGpuSim

open Lib

/-! ### Addresses -/

/-- The sector of its line that an address lies in. -/
def CacheType.sectorOf : (k : CacheType) → NewAddrType → Fin k.sectors
  | .normal, _ => ⟨0, Nat.one_pos⟩
  | .sector, a => (a.extractLsb' 5 2).toFin

theorem masked_eq_iff (n : Nat) (a b : NewAddrType) :
    a &&& (BitVec.allOnes 64 <<< n) = b &&& (BitVec.allOnes 64 <<< n) ↔
      ∀ i, n ≤ i → a.getLsbD i = b.getLsbD i := by
  constructor
  · intro h i hi
    have hbit := congrArg (fun x => x.getLsbD i) h
    simp only [BitVec.getLsbD_and, BitVec.getLsbD_shiftLeft, BitVec.getLsbD_allOnes] at hbit
    by_cases hlt : i < 64
    · have hsub : i - n < 64 := by omega
      simpa [hlt, hsub, Nat.not_lt.mpr hi] using hbit
    · rw [BitVec.getLsbD_of_ge _ _ (Nat.not_lt.mp hlt), BitVec.getLsbD_of_ge _ _ (Nat.not_lt.mp hlt)]
  · intro h
    apply BitVec.eq_of_getLsbD_eq
    intro i _
    simp only [BitVec.getLsbD_and, BitVec.getLsbD_shiftLeft]
    by_cases hi : n ≤ i
    · rw [h i hi]
    · simp [Nat.lt_of_not_le hi]

theorem extract_eq_iff (a b : NewAddrType) : a.extractLsb' 5 2 = b.extractLsb' 5 2 ↔
    a.getLsbD 5 = b.getLsbD 5 ∧ a.getLsbD 6 = b.getLsbD 6 := by
  constructor
  · intro h
    have h0 := congrArg (fun x => x.getLsbD 0) h
    have h1 := congrArg (fun x => x.getLsbD 1) h
    simp only [BitVec.getLsbD_extractLsb'] at h0 h1
    exact ⟨by simpa using h0, by simpa using h1⟩
  · rintro ⟨h0, h1⟩
    apply BitVec.eq_of_getLsbD_eq
    intro i hi
    simp only [BitVec.getLsbD_extractLsb']
    rcases (by omega : i = 0 ∨ i = 1) with rfl | rfl
    · simpa using h0
    · simpa using h1

theorem CacheType.sectorOf_eq_iff {k : CacheType} {a b : NewAddrType} :
    k.sectorOf a = k.sectorOf b ↔ k = .normal ∨ a.extractLsb' 5 2 = b.extractLsb' 5 2 := by
  cases k with
  | normal => exact ⟨fun _ => .inl rfl, fun _ => rfl⟩
  | sector =>
    constructor
    · intro h
      exact .inr (BitVec.toFin_inj.mp h)
    · rintro (h | h)
      · cases h
      · exact congrArg BitVec.toFin h

namespace CacheConfig

variable (cfg : CacheConfig) {a b : NewAddrType}

theorem tag_sector (h : cfg.cacheType = .sector) (a : NewAddrType) :
    cfg.tag a = a &&& (BitVec.allOnes 64 <<< 7) := by
  unfold tag
  rw [cfg.lineSz_sector h]
  rfl

theorem mshrAddr_sector (h : cfg.cacheType = .sector) (a : NewAddrType) :
    cfg.mshrAddr a = a &&& (BitVec.allOnes 64 <<< 5) := by
  have hmask : ~~~((sectorSize - 1).setWidth 64) = BitVec.allOnes 64 <<< 5 := by decide
  unfold mshrAddr atomSz
  rw [h, ← hmask]

theorem mshrAddr_normal (h : cfg.cacheType = .normal) (a : NewAddrType) :
    cfg.mshrAddr a = cfg.tag a := by
  unfold mshrAddr atomSz tag
  rw [h]

theorem blockAddr_eq_tag (a : NewAddrType) : cfg.blockAddr a = cfg.tag a := rfl

theorem tag_tag (a : NewAddrType) : cfg.tag (cfg.tag a) = cfg.tag a := by
  unfold tag
  rw [BitVec.and_assoc, BitVec.and_self]

/-- An entry of the miss table stands for one sector of one block. -/
theorem mshrAddr_eq_iff : cfg.mshrAddr a = cfg.mshrAddr b ↔
    cfg.tag a = cfg.tag b ∧ cfg.cacheType.sectorOf a = cfg.cacheType.sectorOf b := by
  rw [CacheType.sectorOf_eq_iff]
  cases h : cfg.cacheType with
  | normal =>
    rw [cfg.mshrAddr_normal h, cfg.mshrAddr_normal h]
    exact ⟨fun heq => ⟨heq, .inl rfl⟩, fun heq => heq.1⟩
  | sector =>
    rw [cfg.mshrAddr_sector h, cfg.mshrAddr_sector h, cfg.tag_sector h, cfg.tag_sector h,
      masked_eq_iff, masked_eq_iff, extract_eq_iff]
    constructor
    · intro heq
      exact ⟨fun i hi => heq i (by omega), .inr ⟨heq 5 (by omega), heq 6 (by omega)⟩⟩
    · rintro ⟨hhigh, hlow⟩ i hi
      have hlow := hlow.resolve_left CacheType.noConfusion
      rcases (by omega : i = 5 ∨ i = 6 ∨ 7 ≤ i) with rfl | rfl | hi
      · exact hlow.1
      · exact hlow.2
      · exact hhigh i hi

end CacheConfig

/-! ### The invariant -/

namespace TagArray

variable {cfg : CacheConfig} {t t' : TagArray cfg.cacheType} {extra : Table ExtraMfFields}
  {i : Nat} {s : Fin cfg.cacheType.sectors} {id : Nat} {e : ExtraMfFields}

/-- The read kept in `e` fills a reserved sector of a line of its block. -/
structure Owns (t : TagArray cfg.cacheType) (e : ExtraMfFields) : Prop where
  block : e.blockAddr = cfg.mshrAddr e.addr
  sector : cfg.cacheType.getSectorIndex e.mf.sectorMask = .ok (cfg.cacheType.sectorOf e.addr)
  mem : e.cacheIndex ∈ cfg.ways (cfg.tag e.addr)
  tag : (t.lines e.cacheIndex).tag = cfg.tag e.addr
  reserved : (t.lines e.cacheIndex).status (cfg.cacheType.sectorOf e.addr) = .reserved

/-- Every read that is out owns its reserved sector, and every reserved sector has one. -/
structure Reserves (t : TagArray cfg.cacheType) (extra : Table ExtraMfFields) : Prop where
  unique : t.Unique
  owned : ∀ id e, extra.lookup id = some e → t.Owns e
  filled : ∀ i s, (t.lines i).status s = .reserved →
    ∃ id e, extra.lookup id = some e ∧ e.cacheIndex = i ∧ cfg.cacheType.sectorOf e.addr = s

theorem reserves_init : Reserves (TagArray.init cfg.cacheType) ∅ where
  unique := fun i _ _ _ _ ⟨s, hs⟩ _ => absurd rfl hs
  owned := fun _ _ h => by cases h
  filled := fun _ _ h => by cases h

/-- Lines that retain what they reserve keep their owners. -/
theorem Reserves.retains (h : t.Reserves extra) (hretains : t.Retains t') :
    t'.Reserves extra where
  unique := fun i j hi hj htag hvi hvj => by
    rw [(hretains i).tag] at hi hj
    rw [(hretains i).tag, (hretains j).tag] at htag
    have hback : ∀ k, (∃ s, (t'.lines k).status s ≠ .invalid) →
        ∃ s, (t.lines k).status s ≠ .invalid := by
      rintro k ⟨s, hs⟩
      by_contra hall
      rw [not_exists] at hall
      exact hs ((hretains k).invalid (fun u => not_not.mp (hall u)) s)
    exact h.unique i j hi hj htag (hback i hvi) (hback j hvj)
  owned := fun id e he =>
    { block := (h.owned id e he).block
      sector := (h.owned id e he).sector
      mem := (h.owned id e he).mem
      tag := (hretains _).tag.trans (h.owned id e he).tag
      reserved := ((hretains _).reserved _).mpr (h.owned id e he).reserved }
  filled := fun i s hs => h.filled i s (((hretains i).reserved s).mp hs)

theorem Placed.unique {tag : NewAddrType} (hplaced : t.Placed t' i tag s) (h : t.Unique) :
    t'.Unique := by
  have hback : ∀ k, k ≠ i → (∃ s, (t'.lines k).status s ≠ .invalid) →
      (t'.lines k).tag = (t.lines k).tag ∧ ∃ s, (t.lines k).status s ≠ .invalid := by
    rintro k hk ⟨s, hs⟩
    have hretains := hplaced.others k hk
    refine ⟨hretains.tag, ?_⟩
    by_contra hall
    rw [not_exists] at hall
    exact hs (hretains.invalid (fun u => not_not.mp (hall u)) s)
  intro j k hj hk htag hvj hvk
  rcases Decidable.eq_or_ne j i with rfl | hji
  · rcases Decidable.eq_or_ne k j with rfl | hkj
    · rfl
    · obtain ⟨htagk, hvk⟩ := hback k hkj hvk
      rw [hplaced.holds] at hk htag
      exact (hplaced.alone k hk (htagk.symm.trans htag) hvk).symm
  · obtain ⟨htagj, hvj⟩ := hback j hji hvj
    rcases Decidable.eq_or_ne k i with rfl | hki
    · rw [hplaced.holds] at htag
      rw [← htag] at hj
      exact hplaced.alone j hj (htagj.symm.trans htag.symm) hvj
    · obtain ⟨htagk, hvk⟩ := hback k hki hvk
      rw [htagj] at hj hk htag
      rw [htagk] at htag
      exact h j k hj hk htag hvj hvk

/-- The owners of the other sectors stay when a line is placed. -/
theorem Placed.owns {tag : NewAddrType} (hplaced : t.Placed t' i tag s) (he : t.Owns e) :
    t'.Owns e := by
  refine ⟨he.block, he.sector, he.mem, ?_, ?_⟩
  · rcases Decidable.eq_or_ne e.cacheIndex i with hi | hi
    · rw [← he.tag, hi, hplaced.holds]
      rw [hplaced.owner (cfg.cacheType.sectorOf e.addr)]
      rw [← hi]
      exact he.reserved
    · rw [(hplaced.others _ hi).tag]
      exact he.tag
  · rcases Decidable.eq_or_ne e.cacheIndex i with hi | hi
    · have hreserved := he.reserved
      rw [hi] at hreserved ⊢
      refine (hplaced.keeps _ ?_).mpr hreserved
      rintro rfl
      exact hplaced.free hreserved
    · exact ((hplaced.others _ hi).reserved _).mpr he.reserved

theorem Placed.reserved_before {tag : NewAddrType} (hplaced : t.Placed t' i tag s) {j : Nat}
    {u : Fin cfg.cacheType.sectors} (hreserved : (t'.lines j).status u = .reserved)
    (hne : j = i → u ≠ s) : (t.lines j).status u = .reserved := by
  rcases Decidable.eq_or_ne j i with rfl | hj
  · exact (hplaced.keeps u (hne rfl)).mp hreserved
  · exact ((hplaced.others j hj).reserved u).mp hreserved

/-- A line is placed for a write, which waits for no read. -/
theorem Reserves.place {tag : NewAddrType} (h : t.Reserves extra)
    (hplaced : t.Placed t' i tag s) (hs : (t'.lines i).status s ≠ .reserved) :
    t'.Reserves extra where
  unique := hplaced.unique h.unique
  owned := fun id e he => hplaced.owns (h.owned id e he)
  filled := fun j u hu => by
    refine h.filled j u (hplaced.reserved_before hu ?_)
    rintro rfl rfl
    exact hs hu

/-- A line is placed for a read, which goes out. -/
theorem Reserves.send {tag : NewAddrType} (h : t.Reserves extra)
    (hplaced : t.Placed t' i tag s) (hs : (t'.lines i).status s = .reserved)
    (hid : extra.lookup id = none) (hblock : e.blockAddr = cfg.mshrAddr e.addr)
    (hsector : cfg.cacheType.getSectorIndex e.mf.sectorMask = .ok s)
    (haddr : cfg.cacheType.sectorOf e.addr = s) (htag : cfg.tag e.addr = tag)
    (hindex : e.cacheIndex = i) : t'.Reserves (extra.insert id e) where
  unique := hplaced.unique h.unique
  owned := fun j x hx => by
    rw [Table.lookup_insert] at hx
    split at hx
    · cases hx
      refine ⟨hblock, ?_, ?_, ?_, ?_⟩
      · rw [haddr]
        exact hsector
      · rw [hindex, htag]
        exact hplaced.mem
      · rw [hindex, htag]
        exact hplaced.holds
      · rw [hindex, haddr]
        exact hs
    · exact hplaced.owns (h.owned j x hx)
  filled := fun j u hu => by
    by_cases hju : j = i ∧ u = s
    · obtain ⟨rfl, rfl⟩ := hju
      refine ⟨id, e, ?_, hindex, haddr⟩
      rw [Table.lookup_insert, if_pos rfl]
    · obtain ⟨id', e', he', hj, hu⟩ :=
        h.filled j u (hplaced.reserved_before hu (fun hj hu => hju ⟨hj, hu⟩))
      refine ⟨id', e', ?_, hj, hu⟩
      rw [Table.lookup_insert, if_neg]
      · exact he'
      · rintro rfl
        rw [hid] at he'
        cases he'

/-- The data of a read fill its sector, and the read is out no longer. -/
theorem Reserves.fill (h : t.Reserves extra) (he : extra.lookup id = some e)
    (hfilled : t.Filled t' e.cacheIndex (cfg.cacheType.sectorOf e.addr))
    (hdistinct : ∀ id' e', extra.lookup id' = some e' → e'.blockAddr = e.blockAddr → id' = id) :
    t'.Reserves (extra.erase id) := by
  have howns := h.owned id e he
  have hvalid : ∀ j, (∃ u, (t'.lines j).status u ≠ .invalid) →
      (t'.lines j).tag = (t.lines j).tag ∧ ∃ u, (t.lines j).status u ≠ .invalid := by
    rintro j ⟨u, hu⟩
    rcases Decidable.eq_or_ne j e.cacheIndex with rfl | hj
    · refine ⟨hfilled.tag, cfg.cacheType.sectorOf e.addr, ?_⟩
      rw [howns.reserved]
      exact CacheBlockState.noConfusion
    · rw [hfilled.others j hj] at hu ⊢
      exact ⟨rfl, u, hu⟩
  constructor
  · intro j k hj hk htag hvj hvk
    obtain ⟨htagj, hvj⟩ := hvalid j hvj
    obtain ⟨htagk, hvk⟩ := hvalid k hvk
    rw [htagj] at hj hk htag
    rw [htagk] at htag
    exact h.unique j k hj hk htag hvj hvk
  · intro id' e' he'
    rw [Table.lookup_erase] at he'
    split at he'
    · cases he'
    · rename_i hid
      have howns' := h.owned id' e' he'
      refine ⟨howns'.block, howns'.sector, howns'.mem, ?_, ?_⟩
      · rcases Decidable.eq_or_ne e'.cacheIndex e.cacheIndex with hj | hj
        · rw [hj, hfilled.tag, ← hj]
          exact howns'.tag
        · rw [hfilled.others _ hj]
          exact howns'.tag
      · rcases Decidable.eq_or_ne e'.cacheIndex e.cacheIndex with hj | hj
        · have hreserved := howns'.reserved
          rw [hj] at hreserved ⊢
          rw [hfilled.keeps]
          · exact hreserved
          · intro hsector
            have htag : cfg.tag e'.addr = cfg.tag e.addr := by
              rw [← howns'.tag, ← howns.tag, hj]
            have hblock : e'.blockAddr = e.blockAddr := by
              rw [howns'.block, howns.block]
              exact cfg.mshrAddr_eq_iff.mpr ⟨htag, hsector⟩
            exact hid (hdistinct id' e' he' hblock)
        · rw [hfilled.others _ hj]
          exact howns'.reserved
  · intro j u hu
    have hne : ¬ (j = e.cacheIndex ∧ u = cfg.cacheType.sectorOf e.addr) := by
      rintro ⟨rfl, rfl⟩
      exact hfilled.filled hu
    have hbefore : (t.lines j).status u = .reserved := by
      rcases Decidable.eq_or_ne j e.cacheIndex with rfl | hj
      · rw [← hfilled.keeps u (fun hu => hne ⟨rfl, hu⟩)]
        exact hu
      · rw [← hfilled.others j hj]
        exact hu
    obtain ⟨id', e', he', hj, hsector⟩ := h.filled j u hbefore
    refine ⟨id', e', ?_, hj, hsector⟩
    rw [Table.lookup_erase, if_neg]
    · exact he'
    · rintro rfl
      rw [he] at he'
      cases he'
      exact hne ⟨hj.symm, hsector.symm⟩

/-- A split response is counted in the read's own record. -/
theorem Reserves.count {e' : ExtraMfFields} (h : t.Reserves extra)
    (he : extra.lookup id = some e)
    (hsame : e' = { e with pendingRead := e'.pendingRead }) :
    t.Reserves (extra.insert id e') where
  unique := h.unique
  owned := fun j x hx => by
    rw [Table.lookup_insert] at hx
    split at hx
    · cases hx
      have howns := h.owned id e he
      rw [hsame]
      exact ⟨howns.block, howns.sector, howns.mem, howns.tag, howns.reserved⟩
    · exact h.owned j x hx
  filled := fun j u hu => by
    obtain ⟨i, x, hx, hj, hsector⟩ := h.filled j u hu
    rcases Decidable.eq_or_ne i id with rfl | hi
    · rw [he] at hx
      cases hx
      refine ⟨i, e', ?_, ?_, ?_⟩
      · rw [Table.lookup_insert, if_pos rfl]
      · rw [hsame]
        exact hj
      · rw [hsame]
        exact hsector
    · refine ⟨i, x, ?_, hj, hsector⟩
      rw [Table.lookup_insert, if_neg hi]
      exact hx

end TagArray

end FlashGpuSim
