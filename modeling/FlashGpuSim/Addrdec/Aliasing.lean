import FlashGpuSim.Addrdec.AddressTranslation

/-!
When two addresses share a location. The fields are linear maps over two elements, and so is
the sub partition of a power of two of channels; otherwise the channel is a remainder, and the
fields show the quotient.
-/

namespace FlashGpuSim

open Lib Gf2

/-! ### Fields -/

section Fields

variable {mask a b p high low n : Nat} {bits : List Bool} {ps : List Nat}

theorem toUlong_mod (k : Nat) : toUlong bits % 2 ^ k = toUlong (bits.take k) := by
  apply Nat.eq_of_testBit_eq
  intro i
  rw [Nat.testBit_mod_two_pow, testBit_toUlong, testBit_toUlong]
  simp only [List.getD_eq_getElem?_getD, List.getElem?_take]
  by_cases hi : i < k
  · simp [hi]
  · simp [hi]

theorem toUlong_inj {bits' : List Bool} (hlength : bits.length = bits'.length)
    (h : toUlong bits = toUlong bits') : bits = bits' := by
  apply List.ext_getElem hlength
  intro i hi hi'
  have hbit : (toUlong bits).testBit i = (toUlong bits').testBit i := by rw [h]
  rw [testBit_toUlong, testBit_toUlong, List.getD_eq_getElem _ _ hi,
    List.getD_eq_getElem _ _ hi'] at hbit
  exact hbit

theorem linear_toUlong (ps : List Nat) : Linear fun a => toUlong (ps.map fun i => a.testBit i) := by
  intro x y
  apply Nat.eq_of_testBit_eq
  intro i
  rw [Nat.testBit_xor, testBit_toUlong, testBit_toUlong, testBit_toUlong]
  simp only [List.getD_eq_getElem?_getD, List.getElem?_map]
  cases ps[i]? with
  | none => rfl
  | some p => simp

theorem mem_maskBits : p ∈ maskBits mask high low ↔
    (low ≤ p ∧ p < high) ∧ mask.testBit p = true := by
  unfold maskBits
  rw [List.mem_filter, List.mem_range'_1]
  apply and_congr_left'
  apply and_congr_right
  intro hlow
  omega

theorem nodup_maskBits : (maskBits mask high low).Nodup := (List.nodup_range' 1).filter _

/-- The limits of a mask leave none of its bits out. -/
theorem maskBits_limit :
    maskBits mask (addrdecGetmasklimit mask).1 (addrdecGetmasklimit mask).2 =
      maskBits mask 64 0 := by
  have hsorted : ∀ high low, (maskBits mask high low).Pairwise (· < ·) :=
    fun high low => (List.pairwise_lt_range' 1).filter _
  apply List.Perm.eq_of_pairwise _ (hsorted _ _) (hsorted _ _)
  · rw [List.perm_ext_iff_of_nodup nodup_maskBits nodup_maskBits]
    intro p
    rw [mem_maskBits, mem_maskBits]
    apply and_congr_left
    intro hp
    unfold addrdecGetmasklimit
    have hmem : ∀ q, q ∈ (List.range 64).filter (fun i => mask.testBit i) ↔
        q < 64 ∧ mask.testBit q = true := by
      intro q
      rw [List.mem_filter, List.mem_range]
    have hordered : ((List.range 64).filter fun i => mask.testBit i).Pairwise (· < ·) :=
      List.pairwise_lt_range.filter _
    generalize (List.range 64).filter (fun i => mask.testBit i) = bits at hmem hordered
    cases bits with
    | nil => rfl
    | cons first rest =>
      dsimp only
      rw [List.pairwise_cons] at hordered
      constructor
      · rintro ⟨-, hlt⟩
        refine ⟨Nat.zero_le p, ?_⟩
        cases hlast : rest.getLast? with
        | none =>
          rw [hlast, Option.getD_none] at hlt
          have := ((hmem first).mp List.mem_cons_self).1
          omega
        | some last =>
          rw [hlast, Option.getD_some] at hlt
          have := ((hmem last).mp (List.mem_cons_of_mem _ (List.mem_of_getLast? hlast))).1
          omega
      · rintro ⟨-, hlt⟩
        rcases List.mem_cons.mp ((hmem p).mpr ⟨hlt, hp⟩) with rfl | hin
        · refine ⟨le_rfl, ?_⟩
          cases hlast : rest.getLast? with
          | none => simp
          | some last =>
            have := hordered.1 last (List.mem_of_getLast? hlast)
            rw [Option.getD_some]
            omega
        · refine ⟨(hordered.1 p hin).le, ?_⟩
          cases hlast : rest.getLast? with
          | none =>
            rw [List.getLast?_eq_none_iff] at hlast
            rw [hlast] at hin
            exact absurd hin List.not_mem_nil
          | some last =>
            rw [Option.getD_some]
            have hle : p ≤ last := by
              obtain ⟨front, rfl⟩ := List.getLast?_eq_some_iff.mp hlast
              rcases List.mem_append.mp hin with hin | hin
              · have := (List.pairwise_append.mp hordered.2).2.2 p hin last List.mem_cons_self
                omega
              · rw [List.mem_singleton.mp hin]
            omega
  · intro x y _ _ hxy hyx
    omega

theorem decodeField_eq : decodeField mask a =
    toUlong (((maskBits mask 64 0).take 32).map fun i => a.testBit i) := by
  unfold decodeField addrdecPackbits
  dsimp only
  rw [maskBits_limit, toUlong_mod, List.map_take]

theorem linear_decodeField (mask : Nat) : Linear (decodeField mask) := by
  intro x y
  rw [decodeField_eq, decodeField_eq, decodeField_eq]
  exact linear_toUlong _ x y

theorem shows_iff : shows mask p = true ↔ p ∈ (maskBits mask 64 0).take 32 :=
  List.contains_iff_mem

/-- A field is the bits of the address that it shows. -/
theorem decodeField_eq_iff : decodeField mask a = decodeField mask b ↔
    ∀ p, shows mask p = true → a.testBit p = b.testBit p := by
  rw [decodeField_eq, decodeField_eq]
  simp only [shows_iff]
  constructor
  · intro h p hp
    have hbits := toUlong_inj (by rw [List.length_map, List.length_map]) h
    rw [List.map_inj_left] at hbits
    exact hbits p hp
  · intro h
    rw [List.map_congr_left h]

theorem decodeField_eq_zero : decodeField mask a = 0 ↔
    ∀ p, shows mask p = true → a.testBit p = false := by
  rw [← (linear_decodeField mask).zero, decodeField_eq_iff]
  simp only [Nat.zero_testBit]

end Fields

namespace AddressTranslation

variable {t : AddressTranslation} {o : AddrdecOptions} {n m a b p s : Nat} {d d' : Addrdec}
  {rows : List (List Nat)}

/-- What an initialization leaves. -/
structure Initialized (t : AddressTranslation) (o : AddrdecOptions) (n m : Nat) : Prop where
  options : t.options = o
  channels : t.nChannel = n
  slices : t.nSubPartitionInChannel = m
  gap : t.gap = n - 2 ^ n.log2
  next : t.nextPowerOf2NChannel = nextPowerOf2 n
  positive : 0 < n ∧ 0 < m
  indexing : isPowerOfTwo m = true ∨ o.memoryPartitionIndexing = .consecutive
  hashed : o.nonPower2L2ChannelIndexing = 2 → isPowerOfTwo n = true ∧ n ≤ 1024
  small : ∀ s, t.addrChipS = some s → s < 64

theorem initialized (h : init o n m = .ok t) : Initialized t o n m := by
  unfold init at h
  obtain ⟨_, hpositive, h⟩ := bind_eq_ok h
  obtain ⟨_, -, h⟩ := bind_eq_ok h
  obtain ⟨_, hhashed, h⟩ := bind_eq_ok h
  obtain ⟨_, hbanks, h⟩ := bind_eq_ok h
  obtain ⟨_, hindexing, h⟩ := bind_eq_ok h
  obtain ⟨⟨addrChipS, masks⟩, -, h⟩ := bind_eq_ok h
  have hpositive := require_true hpositive
  have hindexing := require_true hindexing
  have hhashed := require_true hhashed
  have hbanks := require_true hbanks
  rw [Bool.and_eq_true, decide_eq_true_eq, decide_eq_true_eq] at hpositive
  rw [Bool.or_eq_true, beq_iff_eq] at hindexing hhashed
  have hhashed : o.nonPower2L2ChannelIndexing = 2 → isPowerOfTwo n = true ∧ n ≤ 1024 := by
    intro htwo
    rw [htwo] at hhashed hbanks
    rw [bne_self_eq_false, Bool.false_or, Bool.and_eq_true, decide_eq_true_eq,
      decide_eq_true_eq] at hbanks
    exact ⟨hhashed.resolve_left (by decide), hbanks.2⟩
  dsimp only at h
  split at h
  · obtain ⟨_, -, h⟩ := bind_eq_ok h
    cases h
    exact ⟨rfl, rfl, rfl, rfl, rfl, hpositive, hindexing, hhashed, nofun⟩
  · split at h
    · obtain ⟨_, hshift, h⟩ := bind_eq_ok h
      have hshift := require_ok hshift
      cases h
      refine ⟨rfl, rfl, rfl, rfl, rfl, hpositive, hindexing, hhashed, ?_⟩
      rintro s hs
      cases hs
      omega
    · obtain ⟨_, hshift, h⟩ := bind_eq_ok h
      have hshift := require_ok hshift
      cases h
      refine ⟨rfl, rfl, rfl, rfl, rfl, hpositive, hindexing, hhashed, ?_⟩
      rintro s hs
      cases hs
      omega

/-! ### Powers of two of channels and slices -/

theorem powers_checked : ∀ n < 1025, isPowerOfTwo n = true → n = 2 ^ n.log2 ∧
    (n ≠ 1 → nextPowerOf2 n = n) := by
  decide +kernel

theorem banks_checked (h : ipolyEquations n = some rows) : n ≤ 1024 ∧ rows.length ≤ 10 ∧
    0 < n := by
  unfold ipolyEquations at h
  split at h
  · cases h
    decide
  · cases h
    decide
  · cases h
    decide
  · cases h
    decide
  · cases h
    decide
  · cases h
    decide
  · cases h
    decide
  · cases h

/-- The sub partition of an address, as a linear map. -/
def partitionMap (t : AddressTranslation) (rows : List (List Nat)) (k a : Nat) : Nat :=
  hashBits rows (a >>> 8) ^^^
    (((decodeField t.mask.chip a) <<< k) ^^^ decodeField t.mask.bk a % 2 ^ k) % 2 ^ rows.length

theorem linear_mod (k : Nat) : Linear fun x => x % 2 ^ k := fun _ _ => Nat.xor_mod_two_pow

theorem linear_partitionMap (t : AddressTranslation) (rows : List (List Nat)) (k : Nat) :
    Linear (t.partitionMap rows k) := by
  have hhash : Linear fun a => hashBits rows (a >>> 8) :=
    (linear_hashBits rows).comp (linear_shiftRight 8)
  have hchip : Linear fun a => decodeField t.mask.chip a <<< k :=
    (linear_shiftLeft k).comp (linear_decodeField t.mask.chip)
  have hbank : Linear fun a => decodeField t.mask.bk a % 2 ^ k :=
    (linear_mod k).comp (linear_decodeField t.mask.bk)
  exact hhash.add ((linear_mod rows.length).comp (hchip.add hbank))

/-- Above the low bits of the bank stand those of the channel. -/
theorem seed_eq (x c k : Nat) (hx : x < 2 ^ k) : c * 2 ^ k + x = (c <<< k) ^^^ x := by
  apply Nat.eq_of_testBit_eq
  intro i
  rw [Nat.mul_comm, Nat.testBit_two_pow_mul_add c hx, Nat.testBit_xor, Nat.testBit_shiftLeft]
  by_cases hi : i < k
  · have hge : ¬ i ≥ k := by omega
    simp [hi, hge]
  · have hge : i ≥ k := by omega
    have hzero : x.testBit i = false :=
      Nat.testBit_lt_two_pow (hx.trans_le (Nat.pow_le_pow_right (by omega) hge))
    simp [hi, hge, hzero]

theorem decodeMasks_power (hgap : t.gap = 0) (a : Nat) :
    (t.decodeMasks a).1 = t.rawFields (decodeField t.mask.chip a) a := by
  unfold decodeMasks
  rw [hgap]
  cases t.addrChipS with
  | none => rfl
  | some s => rfl

/-- `n` and `m` are powers of two whose product the hash supports. -/
structure PowerIpoly (o : AddrdecOptions) (n m : Nat) (rows : List (List Nat)) : Prop where
  channels : isPowerOfTwo n = true
  slices : isPowerOfTwo m = true
  banks : ipolyEquations (n * m) = some rows
  indexing : o.memoryPartitionIndexing = .ipoly

theorem PowerIpoly.powers (h : PowerIpoly o n m rows) : n = 2 ^ n.log2 ∧ m = 2 ^ m.log2 ∧
    (n ≠ 1 → nextPowerOf2 n = n) ∧ n * m = 2 ^ rows.length ∧ n * m ≤ 1024 ∧ 0 < m := by
  obtain ⟨hle, -, hpos⟩ := banks_checked h.banks
  have hm : 0 < m := Nat.pos_of_mul_pos_left hpos
  have hn : 0 < n := Nat.pos_of_mul_pos_right hpos
  have hn' := powers_checked n (by nlinarith) h.channels
  have hm' := powers_checked m (by nlinarith) h.slices
  exact ⟨hn'.1, hm'.1, hn'.2, (equations_checked h.banks).1, hle, hm⟩

/-- The seed of the hash, with as many bits as there are sub partitions. -/
theorem ipolySeed_power (hinit : Initialized t o n m) (h : PowerIpoly o n m rows) (c x : Nat) :
    t.ipolySeed (t.rawFields (decodeField t.mask.chip c) x) % 2 ^ rows.length =
      ((decodeField t.mask.chip c <<< m.log2) ^^^ decodeField t.mask.bk x % 2 ^ m.log2) %
        2 ^ rows.length := by
  obtain ⟨-, hm, -, -, -, hpos⟩ := h.powers
  have hlength := (banks_checked h.banks).2.1
  unfold ipolySeed rawFields
  dsimp only
  rw [hinit.slices, Nat.mod_mod_of_dvd _ (Nat.pow_dvd_pow 2 (by omega))]
  have hlow : decodeField t.mask.bk x &&& (m - 1) = decodeField t.mask.bk x % 2 ^ m.log2 := by
    rw [← Nat.and_two_pow_sub_one_eq_mod, ← hm]
  rw [hlow, ← seed_eq _ _ _ (Nat.mod_lt _ (Nat.two_pow_pos _)), ← hm]

theorem chosen_ok (hchip : s / t.nSubPartitionInChannel < t.nChannel)
    (hpartition : s < t.nChannel * t.nSubPartitionInChannel % 2 ^ 32) :
    t.chosen d s = .ok { d with chip := s / t.nSubPartitionInChannel, subPartition := s } := by
  unfold chosen
  rw [require_pass (decide_eq_true hchip), require_pass (decide_eq_true hpartition)]
  rfl

theorem tlx_power (hinit : Initialized t o n m) (h : PowerIpoly o n m rows) (hone : n ≠ 1) (a : Nat) :
    ∃ d, t.addrdecTlx a = .ok d ∧ d.location =
      (t.partitionMap rows m.log2 a / m, decodeField t.mask.bk a, decodeField t.mask.row a,
        decodeField t.mask.col a, t.partitionMap rows m.log2 a) := by
  obtain ⟨hn, hm, hnext, hbanks, hle, hpos⟩ := h.powers
  have hgap : t.gap = 0 := by
    rw [hinit.gap]
    omega
  have hmod : n * m % 2 ^ 32 = n * m := Nat.mod_eq_of_lt (by omega)
  have hhash : t.ipolySubPartition a (a >>> 8) (t.rawFields (decodeField t.mask.chip a) a) =
      .ok (t.partitionMap rows m.log2 a) := by
    unfold ipolySubPartition
    simp only [hgap, ne_eq, not_true_eq_false, false_and, if_false, if_true]
    rw [hinit.next, hnext hone, hinit.slices, hmod]
    unfold ipolyHash
    rw [ipolyHashFunction_eq h.banks, ipolySeed_power hinit h]
    rfl
  have hlt : t.partitionMap rows m.log2 a < n * m := by
    rw [hbanks]
    exact Nat.xor_lt_two_pow hashBits_lt (Nat.mod_lt _ (Nat.two_pow_pos _))
  have hchip : t.partitionMap rows m.log2 a / m < n := by
    rw [Nat.div_lt_iff_lt_mul hpos]
    exact hlt
  unfold addrdecTlx
  have hslices : isPowerOfTwo t.nSubPartitionInChannel = true := by
    rw [hinit.slices]
    exact h.slices
  have hindexing : t.options.memoryPartitionIndexing = .ipoly := by
    rw [hinit.options]
    exact h.indexing
  have hfields := decodeMasks_power hgap a
  generalize t.decodeMasks a = raw at hfields
  obtain ⟨fields, high⟩ := raw
  dsimp only at hfields ⊢
  rw [hslices, hindexing, hfields]
  simp only [Bool.not_true, Bool.false_eq_true, if_false, hgap, if_true]
  rw [hhash]
  refine ⟨_, chosen_ok ?_ ?_, ?_⟩
  · rw [hinit.slices, hinit.channels]
    exact hchip
  · rw [hinit.slices, hinit.channels, hmod]
    exact hlt
  · rw [hinit.slices]
    rfl

/-- The address bits that only the sub partition shows. -/
theorem mem_hiddenBits : p ∈ t.hiddenBits ↔ p < 64 ∧ t.covered.testBit p = true ∧
    shows t.mask.bk p = false ∧ shows t.mask.row p = false ∧ shows t.mask.col p = false := by
  unfold hiddenBits
  rw [List.mem_filter, List.mem_range]
  simp [and_assoc]

theorem partitionColumns_eq (hinit : Initialized t o n m) (h : PowerIpoly o n m rows) :
    t.partitionColumns rows = t.hiddenBits.map fun p => t.partitionMap rows m.log2 (2 ^ p) := by
  obtain ⟨-, hm, -⟩ := h.powers
  unfold partitionColumns
  apply List.map_congr_left
  intro p hp
  obtain ⟨-, -, hbk, -, -⟩ := mem_hiddenBits.mp hp
  have hbank : decodeField t.mask.bk (2 ^ p) = 0 := by
    rw [decodeField_eq_zero]
    intro q hq
    apply Nat.testBit_two_pow_of_ne
    rintro rfl
    rw [hbk] at hq
    cases hq
  unfold partitionMap
  rw [hbank, hinit.slices, Nat.zero_mod, Nat.xor_zero, Nat.shiftLeft_eq, ← hm]

theorem aliasFree_power_iff (hinit : Initialized t o n m) (h : PowerIpoly o n m rows) (hone : n ≠ 1) :
    t.AliasFree ↔ Independent (t.partitionColumns rows) := by
  have hlinear := linear_partitionMap t rows m.log2
  have hlength : (t.partitionColumns rows).length = t.hiddenBits.length := by
    rw [partitionColumns_eq hinit h, List.length_map]
  have hcombine : ∀ j, combine (t.partitionColumns rows) j =
      t.partitionMap rows m.log2 (combine (t.hiddenBits.map (2 ^ ·)) j) := by
    intro j
    rw [hlinear.map_combine, partitionColumns_eq hinit h, List.map_map]
    rfl
  have hnodup : t.hiddenBits.Nodup := List.nodup_range.filter _
  constructor
  · intro hfree j hj hzero
    rw [hlength] at hj
    rw [hcombine] at hzero
    have hbits : ∀ p, (combine (t.hiddenBits.map (2 ^ ·)) j).testBit p = true →
        p ∈ t.hiddenBits := fun p => mem_of_testBit_combine
    generalize he : combine (t.hiddenBits.map (2 ^ ·)) j = e at hzero hbits
    have hfield : ∀ mask, (∀ p ∈ t.hiddenBits, shows mask p = false) → decodeField mask e = 0 := by
      intro mask hmask
      rw [decodeField_eq_zero]
      intro p hp
      by_contra hbit
      rw [Bool.not_eq_false] at hbit
      rw [hmask p (hbits p hbit)] at hp
      cases hp
    obtain ⟨d, hd, hloc⟩ := tlx_power hinit h hone e
    obtain ⟨d', hd', hloc'⟩ := tlx_power hinit h hone 0
    have hsame : d.location = d'.location := by
      rw [hloc, hloc', hzero, hlinear.zero, (linear_decodeField _).zero, (linear_decodeField _).zero,
        (linear_decodeField _).zero, hfield _ fun p hp => (mem_hiddenBits.mp hp).2.2.1,
        hfield _ fun p hp => (mem_hiddenBits.mp hp).2.2.2.1,
        hfield _ fun p hp => (mem_hiddenBits.mp hp).2.2.2.2]
    have hlt : e < 2 ^ 64 := by
      apply Nat.lt_pow_two_of_testBit
      intro p hp
      by_contra hbit
      rw [Bool.not_eq_false] at hbit
      have := (mem_hiddenBits.mp (hbits p hbit)).1
      omega
    have hout : ∀ p, t.covered.testBit p = false → e.testBit p = Nat.testBit 0 p := by
      intro p hp
      rw [Nat.zero_testBit]
      by_contra hbit
      rw [Bool.not_eq_false] at hbit
      rw [(mem_hiddenBits.mp (hbits p hbit)).2.1] at hp
      cases hp
    have hzero := hfree e 0 hlt (Nat.two_pow_pos 64) hout d d' hd hd' hsame
    refine independent_powers hnodup j ?_ (he.trans hzero)
    rw [List.length_map]
    exact hj
  · intro hindep a b ha hb hout d d' hd hd' hsame
    obtain ⟨x, hx, hloc⟩ := tlx_power hinit h hone a
    obtain ⟨y, hy, hloc'⟩ := tlx_power hinit h hone b
    cases hx.symm.trans hd
    cases hy.symm.trans hd'
    rw [hloc, hloc'] at hsame
    simp only [Prod.mk.injEq] at hsame
    obtain ⟨-, hbk, hrow, hcol, hpartition⟩ := hsame
    rw [decodeField_eq_iff] at hbk hrow hcol
    have hbits : ∀ p, (a ^^^ b).testBit p = true → p ∈ t.hiddenBits := by
      intro p hp
      rw [Nat.testBit_xor, bne_iff_ne] at hp
      rw [mem_hiddenBits]
      refine ⟨?_, ?_, ?_, ?_, ?_⟩
      · by_contra hge
        apply hp
        rw [Nat.testBit_lt_two_pow (ha.trans_le (Nat.pow_le_pow_right (by omega) (not_lt.mp hge))),
          Nat.testBit_lt_two_pow (hb.trans_le (Nat.pow_le_pow_right (by omega) (not_lt.mp hge)))]
      · by_contra hcov
        rw [Bool.not_eq_true] at hcov
        exact hp (hout p hcov)
      · by_contra hshow
        rw [Bool.not_eq_false] at hshow
        exact hp (hbk p hshow)
      · by_contra hshow
        rw [Bool.not_eq_false] at hshow
        exact hp (hrow p hshow)
      · by_contra hshow
        rw [Bool.not_eq_false] at hshow
        exact hp (hcol p hshow)
    obtain ⟨j, hj, hcomb⟩ := exists_combine hbits
    rw [hlinear.eq_iff, ← hcomb, ← hcombine] at hpartition
    rw [← hlength] at hj
    rw [hindep j hj hpartition, combine_zero] at hcomb
    exact Nat.xor_eq_zero_iff.mp hcomb.symm

/-- With one channel `next_powerOf2` gives no banks, and the hash stops at its assertion. -/
theorem tlx_one (hinit : Initialized t o 1 m) (h : PowerIpoly o 1 m rows) (a : Nat) (d : Addrdec) :
    t.addrdecTlx a ≠ .ok d := by
  have hgap : t.gap = 0 := hinit.gap
  have hslices : isPowerOfTwo t.nSubPartitionInChannel = true := by
    rw [hinit.slices]
    exact h.slices
  have hindexing : t.options.memoryPartitionIndexing = .ipoly := by
    rw [hinit.options]
    exact h.indexing
  have hnext : t.nextPowerOf2NChannel = 0 := hinit.next
  unfold addrdecTlx ipolySubPartition
  dsimp only
  rw [hslices, hindexing, hnext]
  simp only [Bool.not_true, Bool.false_eq_true, if_false, hgap, if_true, ne_eq, not_true_eq_false,
    false_and, Nat.zero_mul, Nat.zero_mod]
  intro hok
  cases hok

/-! ### Channels that are remainders -/

theorem div_eq_of_low_bits {x y k : Nat} (hn : 0 < n) (hle : x ≤ y) (hhigh : x / 2 ^ k = y / 2 ^ k)
    (hlow : x / n % 2 ^ k = y / n % 2 ^ k) : x / n = y / n := by
  obtain ⟨e, rfl⟩ := Nat.exists_eq_add_of_le hle
  obtain ⟨f, hf⟩ := Nat.exists_eq_add_of_le (Nat.div_le_div_right (c := n) hle)
  have he : e < 2 ^ k := by
    have hx := Nat.div_add_mod x (2 ^ k)
    have hy := Nat.div_add_mod (x + e) (2 ^ k)
    rw [← hhigh] at hy
    have hlt := Nat.mod_lt (x + e) (Nat.two_pow_pos k)
    omega
  have hfe : f ≤ e := by
    have hlt : (x + e) / n < x / n + e + 1 := by
      rw [Nat.div_lt_iff_lt_mul hn]
      have hx := Nat.lt_mul_div_succ x hn
      nlinarith
    omega
  have hzero : f % 2 ^ k = 0 := by
    rw [hf] at hlow
    have hcancel : x / n + f ≡ x / n + 0 [MOD 2 ^ k] := hlow.symm
    exact Nat.ModEq.add_left_cancel' _ hcancel
  rw [hf]
  rw [Nat.mod_eq_of_lt (by omega)] at hzero
  omega

theorem testBit_channelQuotient (hp : p < 64) : (t.channelQuotient s a).testBit p =
    if p < s then a.testBit p else (a >>> s / t.nChannel).testBit (p - s) := by
  unfold channelQuotient
  rw [Nat.testBit_or, Nat.testBit_mod_two_pow, Nat.testBit_mod_two_pow, Nat.testBit_shiftLeft]
  by_cases hlt : p < s
  · have hge : ¬ p ≥ s := by omega
    simp [hlt, hge]
  · have hge : p ≥ s := by omega
    simp [hlt, hge, hp]

/-- Two addresses that may share a location. -/
structure Twins (t : AddressTranslation) (a b : Nat) : Prop where
  left : a < 2 ^ 64
  right : b < 2 ^ 64
  outside : ∀ p, t.covered.testBit p = false → a.testBit p = b.testBit p

theorem Twins.above (h : t.Twins a b) (hp : 64 ≤ p) : a.testBit p = b.testBit p := by
  rw [Nat.testBit_lt_two_pow (h.left.trans_le (Nat.pow_le_pow_right (by omega) hp)),
    Nat.testBit_lt_two_pow (h.right.trans_le (Nat.pow_le_pow_right (by omega) hp))]

/-- The fields show the low part and the quotient. -/
theorem Twins.quotient (h : t.Twins a b) (hinit : Initialized t o n m) (hsep : t.Separable)
    (hgap : t.gap ≠ 0) (hs : t.addrChipS = some s)
    (hfields : ∀ mask ∈ [t.mask.bk, t.mask.row, t.mask.col],
      decodeField mask (t.channelQuotient s a) = decodeField mask (t.channelQuotient s b)) :
    a % 2 ^ s = b % 2 ^ s ∧ a >>> s / n = b >>> s / n := by
  have hs64 := hinit.small s hs
  have hrest : ∀ p < 64, t.covered.testBit p = true →
      (t.channelQuotient s a).testBit p = (t.channelQuotient s b).testBit p := by
    intro p hp hcov
    rcases hsep.shown p hp hcov with hshow | hshow | hshow | ⟨hnone, -⟩
    · exact decodeField_eq_iff.mp (hfields _ (by simp)) p hshow
    · exact decodeField_eq_iff.mp (hfields _ (by simp)) p hshow
    · exact decodeField_eq_iff.mp (hfields _ (by simp)) p hshow
    · exact absurd hnone hgap
  constructor
  · apply Nat.eq_of_testBit_eq
    intro p
    rw [Nat.testBit_mod_two_pow, Nat.testBit_mod_two_pow]
    by_cases hp : p < s
    · cases hcov : t.covered.testBit p with
      | false => rw [h.outside p hcov]
      | true =>
        have hbit := hrest p (by omega) hcov
        rw [testBit_channelQuotient (by omega), if_pos hp,
          testBit_channelQuotient (by omega), if_pos hp] at hbit
        rw [hbit]
    · simp [hp]
  · -- Below bit `s + k` all bits are covered, and from there on none.
    have hex : ∃ q, t.covered.testBit (s + q) = false ∨ 64 ≤ s + q := ⟨64, .inr (by omega)⟩
    obtain ⟨k, hk, hmin⟩ : ∃ k, (t.covered.testBit (s + k) = false ∨ 64 ≤ s + k) ∧
        ∀ q < k, t.covered.testBit (s + q) = true ∧ s + q < 64 := by
      refine ⟨Nat.find hex, Nat.find_spec hex, fun q hq => ?_⟩
      have hnot := Nat.find_min hex hq
      rw [not_or, Bool.not_eq_false, not_le] at hnot
      exact hnot
    have hhigh : a >>> s / 2 ^ k = b >>> s / 2 ^ k := by
      apply Nat.eq_of_testBit_eq
      intro q
      rw [Nat.testBit_div_two_pow, Nat.testBit_div_two_pow, Nat.testBit_shiftRight,
        Nat.testBit_shiftRight]
      rcases Nat.lt_or_ge (s + (q + k)) 64 with hin | hout
      · apply h.outside
        by_contra hcov
        rw [Bool.not_eq_false] at hcov
        have hfree := hk.resolve_right (by omega)
        rcases Nat.eq_zero_or_pos q with rfl | hq
        · rw [Nat.zero_add, hfree] at hcov
          cases hcov
        · have hbelow := hsep.contiguous hgap s hs (s + k) _ hcov (by omega) (by omega)
          rw [hfree] at hbelow
          cases hbelow
      · exact h.above hout
    have hlow : a >>> s / n % 2 ^ k = b >>> s / n % 2 ^ k := by
      apply Nat.eq_of_testBit_eq
      intro q
      rw [Nat.testBit_mod_two_pow, Nat.testBit_mod_two_pow]
      by_cases hq : q < k
      · obtain ⟨hcov, hlt⟩ := hmin q hq
        have hbit := hrest (s + q) hlt hcov
        have hge : ¬ s + q < s := by omega
        rw [testBit_channelQuotient hlt, if_neg hge, testBit_channelQuotient hlt,
          if_neg hge, Nat.add_sub_cancel_left, hinit.channels] at hbit
        rw [hbit]
      · simp [hq]
    rcases le_total (a >>> s) (b >>> s) with hle | hle
    · exact div_eq_of_low_bits hinit.positive.1 hle hhigh hlow
    · exact (div_eq_of_low_bits hinit.positive.1 hle hhigh.symm hlow.symm).symm

/-- With the remainder the address is known. -/
theorem eq_of_parts (hlow : a % 2 ^ s = b % 2 ^ s) (hquot : a >>> s / n = b >>> s / n)
    (hrem : a >>> s % n = b >>> s % n) : a = b := by
  have hhigh : a >>> s = b >>> s := by
    rw [← Nat.div_add_mod (a >>> s) n, hquot, hrem, Nat.div_add_mod]
  rw [Nat.shiftRight_eq_div_pow, Nat.shiftRight_eq_div_pow] at hhigh
  rw [← Nat.div_add_mod a (2 ^ s), hhigh, hlow, Nat.div_add_mod]

theorem chosen_spec (h : t.chosen d s = .ok d') :
    d' = { d with chip := s / t.nSubPartitionInChannel, subPartition := s } := by
  unfold chosen at h
  obtain ⟨_, -, h⟩ := bind_eq_ok h
  obtain ⟨_, -, h⟩ := bind_eq_ok h
  cases h
  rfl

theorem decodeMasks_gap (hgap : t.gap ≠ 0) (hs : t.addrChipS = some s) (a : Nat) :
    t.decodeMasks a = (t.rawFields ((a >>> s) % t.nChannel % 2 ^ 32) (t.channelQuotient s a),
      a >>> s / t.nChannel) := by
  unfold decodeMasks
  rw [hs]
  split
  · rename_i hzero _
    exact absurd hzero hgap
  · rename_i hzero _
    exact absurd hzero hgap
  · rename_i hnone _
    cases hnone
  · rename_i hsome _
    cases hsome
    rfl

theorem ipolyHash_lt {x i k : Nat} (h : ipolyHash x i 1024 = .ok k) : k < 1024 := by
  unfold ipolyHash at h
  rw [ipolyHashFunction_eq rfl] at h
  cases h
  have hbits : 1024 = 2 ^ 10 := rfl
  rw [hbits]
  exact Nat.xor_lt_two_pow hashBits_lt (Nat.mod_lt _ (by decide))

/-- The bank and the sub partition show the channel where it stays or is rotated. -/
theorem ipolySubPartition_channel {high : Nat} (hinit : Initialized t o n m) (hsep : t.Separable)
    (hgap : t.gap ≠ 0) (hmode : o.ipolyChannelStableL2slice ≠ 0 ∨ o.ipolyNonPower2Balanced = 3)
    (hc : d.chip < n) (hc' : d'.chip < n) (hbk : d.bk = d'.bk)
    (h : t.ipolySubPartition a high d = .ok s) (h' : t.ipolySubPartition b high d' = .ok s) :
    d.chip = d'.chip := by
  have hm := hinit.positive.2
  have hroom := hsep.room
  rw [hinit.channels, hinit.slices] at hroom
  have hpart : ∀ c < n, ∀ x < m, c * m + x < n * m := by
    intro c hcn x hx
    calc c * m + x < c * m + m := Nat.add_lt_add_left hx _
      _ = (c + 1) * m := by rw [Nat.add_mul, Nat.one_mul]
      _ ≤ n * m := Nat.mul_le_mul_right m hcn
  have hand : ∀ x, x &&& (m - 1) < m := by
    intro x
    have := @Nat.and_le_right x (m - 1)
    omega
  unfold ipolySubPartition at h h'
  rw [hinit.options, hinit.slices, hinit.channels] at h h'
  by_cases hstable : o.ipolyChannelStableL2slice ≠ 0
  · simp only [hgap, hstable, ne_eq, not_false_eq_true, and_self, if_true] at h h'
    obtain ⟨x, -, h⟩ := bind_eq_ok h
    obtain ⟨y, -, h'⟩ := bind_eq_ok h'
    have hx := hpart d.chip hc (x % m) (Nat.mod_lt x hm)
    have hy := hpart d'.chip hc' (y % m) (Nat.mod_lt y hm)
    cases h
    have h' := Except.ok.inj h'
    rw [Nat.mod_eq_of_lt (by omega : d'.chip * m + y % m < 2 ^ 32),
      Nat.mod_eq_of_lt (by omega : d.chip * m + x % m < 2 ^ 32)] at h'
    have hdiv : (d'.chip * m + y % m) / m = (d.chip * m + x % m) / m := by rw [h']
    rw [Nat.mul_comm, Nat.mul_add_div hm, Nat.div_eq_of_lt (Nat.mod_lt y hm), Nat.add_zero,
      Nat.mul_comm, Nat.mul_add_div hm, Nat.div_eq_of_lt (Nat.mod_lt x hm), Nat.add_zero] at hdiv
    exact hdiv.symm
  · have hbalanced := hmode.resolve_left hstable
    simp only [hgap, hstable, hbalanced, ne_eq, not_false_eq_true, and_false, if_false, and_self,
      if_true] at h h'
    obtain ⟨x, hx, h⟩ := bind_eq_ok h
    obtain ⟨y, hy, h'⟩ := bind_eq_ok h'
    rw [hx] at hy
    cases hy
    have hlt := ipolyHash_lt hx
    have hseed := hpart d.chip hc _ (hand d.bk)
    have hseed' := hpart d'.chip hc' _ (hand d'.bk)
    cases h
    have h' := Except.ok.inj h'
    unfold ipolySeed at h'
    rw [hinit.slices, Nat.mod_eq_of_lt (by omega : n * m < 2 ^ 32),
      Nat.mod_eq_of_lt (by omega : d.chip * m + (d.bk &&& (m - 1)) < 2 ^ 32),
      Nat.mod_eq_of_lt (by omega : d'.chip * m + (d'.bk &&& (m - 1)) < 2 ^ 32),
      Nat.mod_eq_of_lt (by omega : d.chip * m + (d.bk &&& (m - 1)) + x < 2 ^ 32),
      Nat.mod_eq_of_lt (by omega : d'.chip * m + (d'.bk &&& (m - 1)) + x < 2 ^ 32)] at h'
    have hcancel : d'.chip * m + (d'.bk &&& (m - 1)) ≡ d.chip * m + (d.bk &&& (m - 1)) [MOD n * m] :=
      Nat.ModEq.add_right_cancel' x h'
    have hsame := Nat.ModEq.eq_of_lt_of_lt hcancel hseed' hseed
    rw [hbk] at hsame
    exact (Nat.eq_of_mul_eq_mul_right hm (Nat.add_right_cancel hsame)).symm

/-- The channel of a slice policy, which the local address may hash. -/
theorem decodeSlice_spec (h : t.decodeSlice a d = .ok d') : d'.chip < t.nChannel ∧
    d'.bk = d.bk ∧ d'.row = d.row ∧ d'.col = d.col ∧
      (t.options.nonPower2L2ChannelIndexing ≠ 2 → d'.chip = d.chip) ∧
      (t.options.nonPower2L2ChannelIndexing = 2 → ∃ s, t.addrChipS = some s ∧
        ipolyHashFunction (t.channelAddress a >>> s) d.chip t.nChannel = some d'.chip) := by
  unfold decodeSlice at h
  obtain ⟨_, -, h⟩ := bind_eq_ok h
  dsimp only at h
  split at h
  · rename_i htwo
    cases hs : t.addrChipS with
    | none =>
      rw [hs] at h
      cases h
    | some s =>
      rw [hs] at h
      dsimp only at h
      cases hhash : ipolyHashFunction (t.channelAddress a >>> s) d.chip t.nChannel with
      | none =>
        rw [hhash] at h
        cases h
      | some chip =>
        rw [hhash] at h
        obtain ⟨chip', hchip, h⟩ := bind_eq_ok h
        cases hchip
        obtain ⟨_, hlt, h⟩ := bind_eq_ok h
        obtain ⟨_, -, h⟩ := bind_eq_ok h
        cases h
        exact ⟨require_ok hlt, rfl, rfl, rfl, fun hne => absurd htwo hne, fun _ => ⟨s, rfl, hhash⟩⟩
  · rename_i htwo
    obtain ⟨chip', hchip, h⟩ := bind_eq_ok h
    cases hchip
    obtain ⟨_, hlt, h⟩ := bind_eq_ok h
    obtain ⟨_, -, h⟩ := bind_eq_ok h
    cases h
    exact ⟨require_ok hlt, rfl, rfl, rfl, fun _ => rfl, fun hyes => absurd hyes htwo⟩

/-- What a location says about the masks and the channel. -/
structure Decoded (t : AddressTranslation) (a : Nat) (d : Addrdec) : Prop where
  bk : d.bk = (t.decodeMasks a).1.bk
  row : d.row = (t.decodeMasks a).1.row
  col : d.col = (t.decodeMasks a).1.col

/-- The indexings under which the channel can be read off a location. -/
inductive ChannelKept (o : AddrdecOptions) (n m : Nat) : Prop
  | rotated (hgap : n - 2 ^ n.log2 ≠ 0) (hslices : isPowerOfTwo m = true)
      (hindexing : o.memoryPartitionIndexing = .ipoly)
      (hmode : o.ipolyChannelStableL2slice ≠ 0 ∨ o.ipolyNonPower2Balanced = 3)
  | sliced (hslices : isPowerOfTwo m = false)

theorem decoded (hinit : Initialized t o n m) (hkept : ChannelKept o n m)
    (h : t.addrdecTlx a = .ok d) : Decoded t a d := by
  unfold addrdecTlx at h
  dsimp only at h
  rw [hinit.slices, hinit.options] at h
  cases hkept with
  | rotated hgap hslices hindexing hmode =>
    rw [hslices, hindexing] at h
    simp only [Bool.not_true, Bool.false_eq_true, if_false] at h
    obtain ⟨s, -, h⟩ := bind_eq_ok h
    rw [chosen_spec h]
    exact ⟨rfl, rfl, rfl⟩
  | sliced hslices =>
    rw [hslices] at h
    simp only [Bool.not_false, if_true] at h
    obtain ⟨-, hbk, hrow, hcol, -⟩ := decodeSlice_spec h
    exact ⟨hbk, hrow, hcol⟩

/-- Equal locations in the gap case come from equal remainders. -/
theorem chip_eq_of_location (hinit : Initialized t o n m) (hsep : t.Separable) (hgap : t.gap ≠ 0)
    (hkept : ChannelKept o n m) (h : t.addrdecTlx a = .ok d) (h' : t.addrdecTlx b = .ok d')
    (hloc : d.location = d'.location) (hn : (t.decodeMasks a).1.chip < n)
    (hn' : (t.decodeMasks b).1.chip < n) (hhigh : (t.decodeMasks a).2 = (t.decodeMasks b).2) :
    (t.decodeMasks a).1.chip = (t.decodeMasks b).1.chip := by
  have hdec := decoded hinit hkept h
  have hdec' := decoded hinit hkept h'
  unfold Addrdec.location at hloc
  simp only [Prod.mk.injEq] at hloc
  obtain ⟨hchip, hbk, -, -, hpart⟩ := hloc
  unfold addrdecTlx at h h'
  dsimp only at h h'
  rw [hinit.slices, hinit.options] at h h'
  cases hkept with
  | rotated _ hslices hindexing hmode =>
    rw [hslices, hindexing] at h h'
    simp only [Bool.not_true, Bool.false_eq_true, if_false, hgap] at h h'
    obtain ⟨x, hx, h⟩ := bind_eq_ok h
    obtain ⟨y, hy, h'⟩ := bind_eq_ok h'
    have hsub : x = y := by
      rw [chosen_spec h, chosen_spec h'] at hpart
      exact hpart
    rw [← hsub] at hy
    have hbk' : (t.decodeMasks a).1.bk = (t.decodeMasks b).1.bk := by
      rw [← hdec.bk, ← hdec'.bk]
      exact hbk
    rw [← hhigh] at hy
    exact ipolySubPartition_channel hinit hsep hgap hmode hn hn' hbk' hx hy
  | sliced hslices =>
    rw [hslices] at h h'
    simp only [Bool.not_false, if_true] at h h'
    have htwo : t.options.nonPower2L2ChannelIndexing ≠ 2 := by
      intro htwo
      rw [hinit.options] at htwo
      obtain ⟨hpow, hle⟩ := hinit.hashed htwo
      apply hgap
      rw [hinit.gap]
      have := (powers_checked n (by omega) hpow).1
      omega
    rw [← (decodeSlice_spec h).2.2.2.2.1 htwo, ← (decodeSlice_spec h').2.2.2.2.1 htwo]
    exact hchip

theorem aliasFree_gap (hinit : Initialized t o n m) (hsep : t.Separable) (hgap : t.gap ≠ 0)
    (hkept : ChannelKept o n m) : t.AliasFree := by
  intro a b ha hb hout d d' hd hd' hloc
  have htwins : t.Twins a b := ⟨ha, hb, hout⟩
  have hdec := decoded hinit hkept hd
  have hdec' := decoded hinit hkept hd'
  have hfields := hloc
  unfold Addrdec.location at hfields
  simp only [Prod.mk.injEq] at hfields
  obtain ⟨-, hbk, hrow, hcol, -⟩ := hfields
  rw [hdec.bk, hdec'.bk] at hbk
  rw [hdec.row, hdec'.row] at hrow
  rw [hdec.col, hdec'.col] at hcol
  cases hs : t.addrChipS with
  | none =>
    have hraw : ∀ x, (t.decodeMasks x).1 = t.rawFields 0 x := by
      intro x
      unfold decodeMasks
      rw [hs]
      split
      · rename_i hzero _
        exact absurd hzero hgap
      · rename_i hzero _
        exact absurd hzero hgap
      · rfl
      · rename_i hsome _
        cases hsome
    rw [hraw, hraw] at hbk hrow hcol
    apply Nat.eq_of_testBit_eq
    intro p
    rcases Nat.lt_or_ge p 64 with hp | hp
    · cases hcov : t.covered.testBit p with
      | false => exact hout p hcov
      | true =>
        rcases hsep.shown p hp hcov with hshow | hshow | hshow | ⟨hnone, -⟩
        · exact decodeField_eq_iff.mp hbk p hshow
        · exact decodeField_eq_iff.mp hrow p hshow
        · exact decodeField_eq_iff.mp hcol p hshow
        · exact absurd hnone hgap
    · exact htwins.above hp
  | some s =>
    have hroom := hsep.room
    have hpos := hinit.positive
    rw [hinit.channels, hinit.slices] at hroom
    have hn : n < 2 ^ 32 := by nlinarith
    have hraw := fun x => decodeMasks_gap hgap hs x
    have hchip : ∀ x, (t.decodeMasks x).1.chip = x >>> s % n := by
      intro x
      have hlt := Nat.mod_lt (x >>> s) hpos.1
      rw [hraw, ← hinit.channels]
      exact Nat.mod_eq_of_lt (by rw [hinit.channels]; omega)
    have hquot := htwins.quotient hinit hsep hgap hs (by
      rw [hraw, hraw] at hbk hrow hcol
      intro mask hmask
      simp only [List.mem_cons, List.not_mem_nil, or_false] at hmask
      rcases hmask with rfl | rfl | rfl
      · exact hbk
      · exact hrow
      · exact hcol)
    have hrem : (t.decodeMasks a).1.chip = (t.decodeMasks b).1.chip := by
      apply chip_eq_of_location hinit hsep hgap hkept hd hd' hloc
      · rw [hchip]
        exact Nat.mod_lt _ hpos.1
      · rw [hchip]
        exact Nat.mod_lt _ hpos.1
      · rw [hraw, hraw, hinit.channels]
        exact hquot.2
    rw [hchip, hchip] at hrem
    exact eq_of_parts hquot.1 hquot.2 hrem

/-- A field of few bits is small. -/
theorem decodeField_lt (mask a : Nat) : decodeField mask a < 2 ^ (maskBits mask 64 0).length := by
  rw [decodeField_eq]
  apply toUlong_lt.trans_le
  apply Nat.pow_le_pow_right (by omega)
  rw [List.length_map, List.length_take]
  exact min_le_right _ _

/-- The channel of a slice policy is one of the masks, or the hash permutes it. -/
theorem aliasFree_slices (hinit : Initialized t o n m) (hsep : t.Separable) (hgap : t.gap = 0)
    (hslices : isPowerOfTwo m = false) : t.AliasFree := by
  intro a b ha hb hout d d' hd hd' hloc
  have htwins : t.Twins a b := ⟨ha, hb, hout⟩
  have hdec := decoded hinit (.sliced hslices) hd
  have hdec' := decoded hinit (.sliced hslices) hd'
  unfold Addrdec.location at hloc
  simp only [Prod.mk.injEq] at hloc
  obtain ⟨hchip, hbk, hrow, hcol, -⟩ := hloc
  rw [hdec.bk, hdec'.bk, decodeMasks_power hgap, decodeMasks_power hgap] at hbk
  rw [hdec.row, hdec'.row, decodeMasks_power hgap, decodeMasks_power hgap] at hrow
  rw [hdec.col, hdec'.col, decodeMasks_power hgap, decodeMasks_power hgap] at hcol
  have hshown : ∀ p < 64, t.covered.testBit p = true → shows t.mask.chip p = false →
      a.testBit p = b.testBit p := by
    intro p hp hcov hchip
    rcases hsep.shown p hp hcov with hshow | hshow | hshow | ⟨-, hshow⟩
    · exact decodeField_eq_iff.mp hbk p hshow
    · exact decodeField_eq_iff.mp hrow p hshow
    · exact decodeField_eq_iff.mp hcol p hshow
    · rw [hchip] at hshow
      cases hshow
  have hfield : decodeField t.mask.chip a = decodeField t.mask.chip b := by
    unfold addrdecTlx at hd hd'
    dsimp only at hd hd'
    rw [hinit.slices, hslices, decodeMasks_power hgap] at hd hd'
    simp only [Bool.not_false, if_true] at hd hd'
    obtain ⟨-, -, -, -, hplain, hhash⟩ := decodeSlice_spec hd
    obtain ⟨-, -, -, -, hplain', hhash'⟩ := decodeSlice_spec hd'
    by_cases htwo : t.options.nonPower2L2ChannelIndexing = 2
    · have hlocal : t.channelAddress a = t.channelAddress b := by
        have hpack : ∀ x, t.channelAddress x =
            addrdecPackbits ((2 ^ 64 - 1) ^^^ t.mask.chip) x 64 0 := by
          intro x
          unfold channelAddress
          rw [hgap]
          cases t.addrChipS with
          | none => rfl
          | some s => rfl
        rw [hpack, hpack]
        unfold addrdecPackbits
        congr 1
        apply List.map_congr_left
        intro p hp
        obtain ⟨⟨-, hp64⟩, hnot⟩ := mem_maskBits.mp hp
        have hchipBit : t.mask.chip.testBit p = false := by
          rw [Nat.testBit_xor, Nat.testBit_two_pow_sub_one, decide_eq_true hp64] at hnot
          simpa using hnot
        cases hcov : t.covered.testBit p with
        | false => exact hout p hcov
        | true =>
          apply hshown p hp64 hcov
          by_contra hshow
          rw [Bool.not_eq_false, shows_iff] at hshow
          have hin := (mem_maskBits.mp (List.mem_of_mem_take hshow)).2
          rw [hchipBit] at hin
          cases hin
      obtain ⟨s, hs, hx⟩ := hhash htwo
      obtain ⟨s', hs', hy⟩ := hhash' htwo
      cases hs.symm.trans hs'
      rw [hlocal, hchip] at hx
      have hsmall : ∀ x, decodeField t.mask.chip x < 2 ^ t.nChannel.log2 := fun x =>
        (decodeField_lt _ x).trans_le (Nat.pow_le_pow_right (by omega) (hsep.channels htwo))
      cases hrows : ipolyEquations t.nChannel with
      | none =>
        unfold ipolyHashFunction at hx
        rw [hrows] at hx
        cases hx
      | some rows =>
        rw [ipolyHashFunction_eq hrows] at hx hy
        have hsame := Option.some.inj (hx.trans hy.symm)
        have hn : 2 ^ t.nChannel.log2 = 2 ^ rows.length := by
          rw [(equations_checked hrows).1, Nat.log2_two_pow]
        have hmod := Nat.xor_right_injective hsame
        rw [← hn] at hmod
        have hfields : ∀ x, (t.rawFields (decodeField t.mask.chip x) x).chip =
            decodeField t.mask.chip x := fun _ => rfl
        rw [hfields, hfields, Nat.mod_eq_of_lt (hsmall a), Nat.mod_eq_of_lt (hsmall b)] at hmod
        exact hmod
    · have hsame := (hplain htwo).symm.trans (hchip.trans (hplain' htwo))
      exact hsame
  rw [decodeField_eq_iff] at hfield
  apply Nat.eq_of_testBit_eq
  intro p
  rcases Nat.lt_or_ge p 64 with hp | hp
  · cases hcov : t.covered.testBit p with
    | false => exact hout p hcov
    | true =>
      cases hshow : shows t.mask.chip p with
      | true => exact hfield p hshow
      | false => exact hshown p hp hcov hshow
  · exact htwins.above hp

/-- With powers of two the IPOLY indexing has no aliases exactly where the columns of the bits
that only the sub partition shows are independent. Where the channel is a remainder and stays or
is rotated, and under the slice policies, fields that hold their bits are enough. -/
theorem addresses_decode_apart {t : AddressTranslation} {o : AddrdecOptions} {n m : Nat}
    (h : init o n m = .ok t) :
    (∀ rows, PowerIpoly o n m rows →
      (t.AliasFree ↔ n = 1 ∨ Independent (t.partitionColumns rows))) ∧
    (ChannelKept o n m → t.Separable → t.AliasFree) := by
  have hinit := initialized h
  constructor
  · intro rows hpower
    by_cases hone : n = 1
    · rw [hone] at hinit hpower
      constructor
      · exact fun _ => .inl hone
      · exact fun _ a b _ _ _ d _ hd => absurd hd (tlx_one hinit hpower a d)
    · rw [aliasFree_power_iff hinit hpower hone, or_iff_right hone]
  · intro hkept hsep
    by_cases hgap : t.gap = 0
    · cases hkept with
      | rotated hne _ _ _ => exact absurd (hinit.gap ▸ hgap) hne
      | sliced hslices => exact aliasFree_slices hinit hsep hgap hslices
    · exact aliasFree_gap hinit hsep hgap hkept

/-- `dramid@…;` and the map of the checked-in configurations: 36 bits ignored, 13 row bits, and
the banks between the columns. -/
def checkedInMap (dramid : List Char) : List Char :=
  ['d', 'r', 'a', 'm', 'i', 'd', '@'] ++ dramid ++ [';'] ++ List.replicate 36 '0' ++
    List.replicate 13 'R' ++ List.replicate 3 'B' ++ List.replicate 4 'C' ++ ['B', 'C', 'C'] ++
    List.replicate 5 'S'

def checkedIn (indexing : PartitionIndexFunction) (balanced channelIndexing : Nat) :
    AddrdecOptions where
  addrdecOption := some (checkedInMap ['8'])
  memoryPartitionIndexing := indexing
  ipolyNonPower2Balanced := balanced
  nonPower2L2ChannelIndexing := channelIndexing
  nonPower2L2SliceMapping := .stableRotation

theorem ok_of_toOption {α : Type} {x : Except AddrdecFailure α} {y : α}
    (h : y ∈ x.toOption) : x = .ok y := by
  cases x with
  | ok z =>
    cases h
    rfl
  | error e => cases h

/-- Masks that cover the bits up to some bit are as good as a power of two of channels. -/
theorem separable_of_block (k : Nat) (hshown : ∀ p < 64, t.covered.testBit p = true →
      shows t.mask.bk p = true ∨ shows t.mask.row p = true ∨ shows t.mask.col p = true ∨
        (t.gap = 0 ∧ shows t.mask.chip p = true))
    (hblock : t.gap = 0 ∨ t.covered = 2 ^ k - 1)
    (hchannels : t.options.nonPower2L2ChannelIndexing = 2 →
      (maskBits t.mask.chip 64 0).length ≤ t.nChannel.log2)
    (hroom : t.nChannel * t.nSubPartitionInChannel + 1024 ≤ 2 ^ 32) : t.Separable := by
  refine ⟨hshown, ?_, hchannels, hroom⟩
  intro hgap s _ p p' hp' _ hlt
  rw [hblock.resolve_left hgap, Nat.testBit_two_pow_sub_one, decide_eq_true_eq] at hp' ⊢
  omega

theorem addresses_decode_apart_witness :
    (∃ t, init (checkedIn .ipoly 0 0) 32 2 = .ok t ∧ t.AliasFree) ∧
    (∃ t, init (checkedIn .ipoly 3 0) 94 2 = .ok t ∧ t.AliasFree) ∧
    (∃ t, init (checkedIn .consecutive 0 2) 16 12 = .ok t ∧ t.AliasFree) := by
  refine ⟨?_, ?_, ?_⟩
  · have hrun : (init (checkedIn .ipoly 0 0) 32 2).toOption.any (fun t =>
        decide (Independent (t.partitionColumns ((ipolyEquations 64).getD [])))) = true := by
      decide +kernel
    obtain ⟨t, ht, hindep⟩ := (Option.any_eq_true _ _).mp hrun
    have hok := ok_of_toOption ht
    refine ⟨t, hok, ((addresses_decode_apart hok).1 _ ?_).mpr (.inr (of_decide_eq_true hindep))⟩
    exact ⟨by decide, by decide, rfl, rfl⟩
  · have hrun : (init (checkedIn .ipoly 3 0) 94 2).toOption.any (fun t => decide
        ((∀ p < 64, t.covered.testBit p = true → shows t.mask.bk p = true ∨
          shows t.mask.row p = true ∨ shows t.mask.col p = true ∨
            (t.gap = 0 ∧ shows t.mask.chip p = true)) ∧
          (t.gap = 0 ∨ t.covered = 2 ^ 28 - 1) ∧ t.options.nonPower2L2ChannelIndexing ≠ 2 ∧
            t.nChannel * t.nSubPartitionInChannel + 1024 ≤ 2 ^ 32)) = true := by
      decide +kernel
    obtain ⟨t, ht, htest⟩ := (Option.any_eq_true _ _).mp hrun
    obtain ⟨hshown, hblock, hplain, hroom⟩ := of_decide_eq_true htest
    have hok := ok_of_toOption ht
    refine ⟨t, hok, (addresses_decode_apart hok).2 ?_ ?_⟩
    · exact .rotated (by decide) (by decide) rfl (.inr rfl)
    · exact separable_of_block 28 hshown hblock (fun htwo => absurd htwo hplain) hroom
  · have hrun : (init (checkedIn .consecutive 0 2) 16 12).toOption.any (fun t => decide
        ((∀ p < 64, t.covered.testBit p = true → shows t.mask.bk p = true ∨
          shows t.mask.row p = true ∨ shows t.mask.col p = true ∨
            (t.gap = 0 ∧ shows t.mask.chip p = true)) ∧
          t.gap = 0 ∧ (maskBits t.mask.chip 64 0).length ≤ t.nChannel.log2 ∧
            t.nChannel * t.nSubPartitionInChannel + 1024 ≤ 2 ^ 32)) = true := by
      decide +kernel
    obtain ⟨t, ht, htest⟩ := (Option.any_eq_true _ _).mp hrun
    obtain ⟨hshown, hgap, hchannels, hroom⟩ := of_decide_eq_true htest
    have hok := ok_of_toOption ht
    refine ⟨t, hok, (addresses_decode_apart hok).2 (.sliced (by decide)) ?_⟩
    exact separable_of_block 0 hshown (.inl hgap) (fun _ => hchannels) hroom

/-- The bits of the channel at 19. -/
def highChannels : AddrdecOptions where
  addrdecOption := some (checkedInMap ['1', '9'])
  memoryPartitionIndexing := .ipoly

/-- With `dramid@19` the lowest channel bit and its column of the hash cancel: addresses that
differ in this bit only share a location. -/
theorem addresses_decode_apart_counterexample :
    ¬ ∀ (option : List Char) (o : AddrdecOptions) (n m : Nat) (t : AddressTranslation)
      (rows : List (List Nat)), o.addrdecOption = some option → init o n m = .ok t →
        PowerIpoly o n m rows → t.AliasFree := by
  intro hclaim
  have hrun : (init highChannels 16 1).toOption.any (fun t =>
        t.covered.testBit 19 && (t.addrdecTlx 0).toOption.any (fun d =>
          (t.addrdecTlx (2 ^ 19)).toOption.any fun d' => decide (d.location = d'.location))) =
            true := by
    decide +kernel
  obtain ⟨t, ht, htest⟩ := (Option.any_eq_true _ _).mp hrun
  rw [Bool.and_eq_true] at htest
  obtain ⟨hcov, htest⟩ := htest
  obtain ⟨d, hd, htest⟩ := (Option.any_eq_true _ _).mp htest
  obtain ⟨d', hd', htest⟩ := (Option.any_eq_true _ _).mp htest
  have hfree := hclaim _ _ 16 1 t _ rfl (ok_of_toOption ht) ⟨by decide, by decide, rfl, rfl⟩
  have hsame := hfree 0 (2 ^ 19) (by decide) (by decide) ?_ d d' (ok_of_toOption hd)
    (ok_of_toOption hd') (of_decide_eq_true htest)
  · exact absurd hsame (by decide)
  · intro p hp
    rw [Nat.zero_testBit, Nat.testBit_two_pow_of_ne]
    rintro rfl
    rw [hcov] at hp
    cases hp

end AddressTranslation

end FlashGpuSim
