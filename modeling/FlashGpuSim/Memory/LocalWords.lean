import FlashGpuSim.Memory.LocalAddress
import Mathlib.Tactic

/-!
No two words of local memory have the same linear word, as long as all SMs with CTAs compute with
the same numbers.
-/

namespace FlashGpuSim

open Lib SmResources

/-! ### Digits -/

section digits

variable {m n q q' r r' : Nat}

theorem digit_lt (hq : q < m) (hr : r < n) : q * n + r < m * n := by
  have hle := Nat.mul_le_mul_right n (Nat.succ_le_of_lt hq)
  rw [Nat.succ_mul] at hle
  omega

theorem digits_unique (hr : r < n) (hr' : r' < n) (h : q * n + r = q' * n + r') :
    q = q' ∧ r = r' := by
  have hpos : 0 < n := Nat.lt_of_le_of_lt (Nat.zero_le _) hr
  have hdiv : ∀ {a b}, b < n → (a * n + b) / n = a := by
    intro a b hb
    rw [Nat.add_comm, Nat.add_mul_div_right _ _ hpos, Nat.div_eq_of_lt hb, Nat.zero_add]
  have hq : q = q' := by rw [← hdiv (a := q) hr, h, hdiv hr']
  subst hq
  exact ⟨rfl, by omega⟩

end digits

namespace LocalMapConfig

variable (cfg : LocalMapConfig) (k : SmKernel cfg.toSmConfig)

/-- The CTAs of a kernel that an SM holds fit its threads. -/
theorem maxCtas_mul_le : cfg.maxCtas k * paddedCtaSize k ≤ cfg.nThreadPerShader := by
  have hfits := paddedCtaSize_le k
  have hdiv := Nat.div_mul_le_self cfg.nThreadPerShader (paddedCtaSize k)
  unfold maxCtas
  dsimp only
  split
  · rw [Nat.one_mul]
    exact hfits
  · exact le_trans (Nat.mul_le_mul_right _ (Nat.min_le_left _ _)) hdiv

theorem threadsPerCta_le : k.info.threadsPerCta ≤ paddedCtaSize k := by
  have hpos := cfg.warpSize_pos
  unfold paddedCtaSize CtaConfig.paddedCtaSize
  split
  · exact le_refl _
  · have hsplit := Nat.div_add_mod' k.info.threadsPerCta cfg.warpSize
    have hlt := Nat.mod_lt k.info.threadsPerCta hpos
    rw [Nat.succ_mul]
    omega

theorem threads_total_le : cfg.numShader * cfg.nThreadPerShader ≤ 2 ^ 21 := by
  have hsms : cfg.numShader ≤ 2 ^ 10 := cfg.numShader_le
  have hthreads : cfg.nThreadPerShader ≤ 2 ^ 11 := cfg.threads_le
  calc cfg.numShader * cfg.nThreadPerShader
      ≤ 2 ^ 10 * 2 ^ 11 := Nat.mul_le_mul hsms hthreads
    _ = 2 ^ 21 := by norm_num

end LocalMapConfig

namespace LocalGpu

variable {cfg : LocalMapConfig} {g h : LocalGpu cfg}

/-! ### One thread -/

/-- The place of a thread among `total` threads of the GPU, as the mapping computes it. -/
structure Placed (cfg : LocalMapConfig) (radices : Option (Nat × Nat)) (sid tid place total : Nat) :
    Prop where
  base : threadBase cfg radices sid tid = some (4 * place, total)
  place_lt : place < total
  total_le : total ≤ 2 ^ 21

theorem accessWords_whole {addr size : Nat} (haddr : addr % 4 = 0) (hsize : size % 4 = 0) :
    accessWords addr size = (List.range (size / 4)).map (addr / 4 + ·) := by
  unfold accessWords
  rw [show (addr % 4 + size + 3) / 4 = size / 4 by omega]

theorem accessWords_part {addr size : Nat} (hpos : 0 < size) (hle : addr % 4 + size ≤ 4) :
    accessWords addr size = [addr / 4] := by
  unfold accessWords
  rw [show (addr % 4 + size + 3) / 4 = 1 by omega]
  rfl

/-- The linear word of a local word. -/
def linearWord (place total w : Nat) : Nat := w * total + place + localGenericStart / 4

theorem linear_address {place total : Nat} (hplace : place < total) (htotal : total ≤ 2 ^ 21)
    {w : Nat} (hw : w < 2 ^ 40) {rest : Nat} (hrest : rest < 4) :
    wrapAddr (w * total * 4 + rest + 4 * place + localGenericStart) =
      4 * linearWord place total w + rest := by
  have hmul : w * total ≤ 2 ^ 40 * 2 ^ 21 := Nat.mul_le_mul hw.le htotal
  have hstart : localGenericStart = 4 * (localGenericStart / 4) ∧ localGenericStart < 2 ^ 34 := by
    decide
  obtain ⟨hwords, hsmall⟩ := hstart
  unfold wrapAddr linearWord
  rw [Nat.mod_eq_of_lt (by omega)]
  omega

/-- The words of an access of a placed thread. -/
theorem Placed.translate {radices : Option (Nat × Nat)} {sid tid place total addr size : Nat}
    (hp : Placed cfg radices sid tid place total) (ha : LocalAccess addr size) :
    translateLocalMemaddr cfg radices sid tid addr size =
      some ((accessWords addr size).map fun w => 4 * linearWord place total w + addr % 4) := by
  obtain ⟨hlimit, hshape⟩ := ha
  have hplace := hp.place_lt
  have htotal := hp.total_le
  have hlimit : addr + size ≤ 2 ^ 42 := hlimit
  have hcut : u32 (4 * total) = 4 * total := u32_of_lt (by omega)
  unfold translateLocalMemaddr
  rw [hp.base]
  dsimp only
  rw [hcut, if_neg (by omega)]
  rcases hshape with ⟨hge, hle, hmod, halign⟩ | ⟨hpos, hlt, hin⟩
  · have hcount : size / 4 ≤ maxAccessesPerInsnPerThread := Nat.div_le_of_le_mul hle
    rw [if_pos hge, if_pos ⟨hmod, hcount, halign⟩, accessWords_whole halign hmod, List.map_map]
    refine congrArg some (List.map_congr_left fun i hi => ?_)
    have hi := List.mem_range.mp hi
    have hi' : addr / 4 + i < 2 ^ 40 := by omega
    have hword := linear_address hplace htotal hi' (show 0 < 4 by decide)
    rw [Function.comp_apply, halign]
    exact hword
  · have hend : wrapAddr (addr + size - 1) / 4 = addr / 4 := by
      unfold wrapAddr
      omega
    rw [if_neg (by omega), if_pos ⟨hpos, hend⟩, accessWords_part hpos hin, List.map_singleton,
      linear_address hplace htotal (by omega) (Nat.mod_lt _ (by decide))]

theorem linearWord_inj {place place' total w w' : Nat} (hplace : place < total)
    (hplace' : place' < total) (heq : linearWord place total w = linearWord place' total w') :
    w = w' ∧ place = place' :=
  digits_unique hplace hplace' (Nat.add_right_cancel heq)

/-! ### The two mappings -/

/-- The legacy mapping counts the threads SM by SM. -/
theorem placed_legacy (hmap : cfg.localMemMap = false) (radices : Option (Nat × Nat))
    {sid tid : Nat} (hsid : sid < cfg.numShader) (htid : tid < cfg.nThreadPerShader) :
    Placed cfg radices sid tid (sid * cfg.nThreadPerShader + tid)
      (cfg.numShader * cfg.nThreadPerShader) := by
  have hplace := digit_lt hsid htid
  have htotal := cfg.threads_total_le
  refine ⟨?_, hplace, htotal⟩
  unfold threadBase
  rw [hmap, if_neg (by decide), Nat.mul_comm cfg.nThreadPerShader sid,
    u32_of_lt (by omega), u32_of_lt (by omega)]

/-- The place of a thread in the mapping by CTAs. -/
def ctaPlace (cfg : LocalMapConfig) (padded sid tid : Nat) : Nat :=
  (tid / padded * cfg.numShader + sid) * padded + tid % padded

theorem placed_byCta (hmap : cfg.localMemMap = true) {k : SmKernel cfg.toSmConfig} {sid tid : Nat}
    (hsid : sid < cfg.numShader) (htid : tid < cfg.maxCtas k * paddedCtaSize k) :
    Placed cfg (some (paddedCtaSize k, cfg.maxCtas k)) sid tid
      (ctaPlace cfg (paddedCtaSize k) sid tid)
      (cfg.maxCtas k * cfg.numShader * paddedCtaSize k) := by
  have hpos : 0 < paddedCtaSize k := by
    rcases Nat.eq_zero_or_pos (paddedCtaSize k) with hzero | hpos
    · rw [hzero, Nat.mul_zero] at htid
      exact absurd htid (Nat.not_lt_zero _)
    · exact hpos
  have hslot : tid / paddedCtaSize k < cfg.maxCtas k := Nat.div_lt_of_lt_mul (by
    rwa [Nat.mul_comm])
  have hplace := digit_lt (digit_lt hslot hsid) (Nat.mod_lt tid hpos)
  have htotal : cfg.maxCtas k * cfg.numShader * paddedCtaSize k ≤ 2 ^ 21 := by
    calc cfg.maxCtas k * cfg.numShader * paddedCtaSize k
        = cfg.numShader * (cfg.maxCtas k * paddedCtaSize k) := by ring
      _ ≤ cfg.numShader * cfg.nThreadPerShader := Nat.mul_le_mul_left _ (cfg.maxCtas_mul_le k)
      _ ≤ 2 ^ 21 := cfg.threads_total_le
  refine ⟨?_, hplace, htotal⟩
  have hexpr : paddedCtaSize k * (sid + cfg.numShader * (tid / paddedCtaSize k)) +
      tid % paddedCtaSize k = ctaPlace cfg (paddedCtaSize k) sid tid := by
    unfold ctaPlace
    ring
  have htotal' : paddedCtaSize k * cfg.maxCtas k * cfg.numShader =
      cfg.maxCtas k * cfg.numShader * paddedCtaSize k := by ring
  have hplace' : ctaPlace cfg (paddedCtaSize k) sid tid <
      cfg.maxCtas k * cfg.numShader * paddedCtaSize k := hplace
  unfold threadBase
  rw [hmap, if_pos rfl]
  dsimp only
  rw [if_neg hpos.ne', hexpr, htotal', u32_of_lt (by omega), u32_of_lt (by omega)]

theorem ctaPlace_inj {padded sid tid sid' tid' : Nat} (hpos : 0 < padded)
    (hsid : sid < cfg.numShader) (hsid' : sid' < cfg.numShader)
    (heq : ctaPlace cfg padded sid tid = ctaPlace cfg padded sid' tid') :
    sid = sid' ∧ tid = tid' := by
  obtain ⟨hcta, hmod⟩ := digits_unique (Nat.mod_lt _ hpos) (Nat.mod_lt _ hpos) heq
  obtain ⟨hdiv, hsame⟩ := digits_unique hsid hsid' hcta
  refine ⟨hsame, ?_⟩
  rw [← Nat.div_add_mod tid padded, ← Nat.div_add_mod tid' padded, hdiv, hmod]

/-! ### Runs -/

section issue

variable {k : SmKernel cfg.toSmConfig} {sid sid' slot start : Nat}

theorem bindCta_self : g.bindCta sid k slot sid =
    { kernel := some k
      radices := some (paddedCtaSize k, cfg.maxCtas k)
      ctas := ⟨k, slot, slot * paddedCtaSize k⟩ :: (g sid).ctas } := Function.update_self ..

theorem bindCta_of_ne (hne : sid' ≠ sid) : g.bindCta sid k slot sid' = g sid' :=
  Function.update_of_ne hne ..

theorem addCta_self : g.addCta sid k slot start sid =
    { g sid with ctas := ⟨k, slot, start⟩ :: (g sid).ctas } := Function.update_self ..

theorem addCta_of_ne (hne : sid' ≠ sid) : g.addCta sid k slot start sid' = g sid' :=
  Function.update_of_ne hne ..

theorem removeCta_self : g.removeCta sid slot sid =
    { g sid with ctas := (g sid).ctas.filter (·.slot ≠ slot) } := Function.update_self ..

theorem removeCta_of_ne (hne : sid' ≠ sid) : g.removeCta sid slot sid' = g sid' :=
  Function.update_of_ne hne ..

end issue

/-- What holds in every state of a run whose steps meet their conditions. -/
structure Uniform (g : LocalGpu cfg) : Prop where
  sms : ∀ sid, ∀ c ∈ (g sid).ctas, sid < cfg.numShader
  threads : ∀ sid, ∀ c ∈ (g sid).ctas,
    c.startThread + paddedCtaSize c.kernel ≤ cfg.nThreadPerShader
  bound : cfg.concurrentKernelSm = false → ∀ sid, ∀ c ∈ (g sid).ctas,
    (g sid).kernel = some c.kernel ∧
      (g sid).radices = some (paddedCtaSize c.kernel, cfg.maxCtas c.kernel) ∧
      c.startThread = c.slot * paddedCtaSize c.kernel ∧ c.slot < cfg.maxCtas c.kernel
  same : cfg.localMemMap = true → ∀ sid sid', (g sid).ctas ≠ [] → (g sid').ctas ≠ [] →
    cfg.concurrentKernelSm = false ∧ (g sid).radices = (g sid').radices

theorem uniform_reset : Uniform (reset : LocalGpu cfg) where
  sms _ _ hc := absurd hc List.not_mem_nil
  threads _ _ hc := absurd hc List.not_mem_nil
  bound _ _ _ hc := absurd hc List.not_mem_nil
  same _ _ _ hne := absurd rfl hne

theorem slot_fits {k : SmKernel cfg.toSmConfig} {slot : Nat} (hslot : slot < cfg.maxCtas k) :
    slot * paddedCtaSize k + paddedCtaSize k ≤ cfg.maxCtas k * paddedCtaSize k := by
  rw [← Nat.succ_mul]
  exact Nat.mul_le_mul_right _ hslot

/-- An SM bound to a kernel computes with the numbers of that kernel. -/
theorem Uniform.issueBound (hu : Uniform g) {sid : Nat} {k : SmKernel cfg.toSmConfig} {slot : Nat}
    (hsid : sid < cfg.numShader) (halone : cfg.concurrentKernelSm = false)
    (hbind : (g sid).kernel = some k ∨ (g sid).ctas = []) (hslot : slot < cfg.maxCtas k)
    (hmeets : cfg.localMemMap = true → ∀ sid', sid' ≠ sid → (g sid').ctas ≠ [] →
      (g sid').radices = some (paddedCtaSize k, cfg.maxCtas k)) :
    Uniform (g.bindCta sid k slot) := by
  have hold : ∀ c ∈ (g sid).ctas, c.kernel = k := by
    intro c hc
    rcases hbind with hk | hnil
    · obtain ⟨hkernel, -⟩ := hu.bound halone sid c hc
      exact Option.some.inj (hkernel.symm.trans hk)
    · rw [hnil] at hc
      exact absurd hc List.not_mem_nil
  constructor
  · intro sid' c hc
    rcases eq_or_ne sid' sid with rfl | hne
    · exact hsid
    · rw [bindCta_of_ne hne] at hc
      exact hu.sms sid' c hc
  · intro sid' c hc
    rcases eq_or_ne sid' sid with rfl | hne
    · rw [bindCta_self] at hc
      rcases List.mem_cons.mp hc with rfl | hc
      · exact le_trans (slot_fits hslot) (cfg.maxCtas_mul_le k)
      · exact hu.threads sid' c hc
    · rw [bindCta_of_ne hne] at hc
      exact hu.threads sid' c hc
  · intro _ sid' c hc
    rcases eq_or_ne sid' sid with rfl | hne
    · rw [bindCta_self] at hc ⊢
      rcases List.mem_cons.mp hc with rfl | hc
      · exact ⟨rfl, rfl, rfl, hslot⟩
      · obtain ⟨-, -, hstart, hlt⟩ := hu.bound halone sid' c hc
        rw [hold c hc] at hstart hlt ⊢
        exact ⟨rfl, rfl, hstart, hlt⟩
    · rw [bindCta_of_ne hne] at hc ⊢
      exact hu.bound halone sid' c hc
  · intro hmap
    have hall : ∀ sid', (g.bindCta sid k slot sid').ctas ≠ [] →
        (g.bindCta sid k slot sid').radices = some (paddedCtaSize k, cfg.maxCtas k) := by
      intro sid' hne'
      rcases eq_or_ne sid' sid with rfl | hne
      · rw [bindCta_self]
      · rw [bindCta_of_ne hne] at hne' ⊢
        exact hmeets hmap sid' hne hne'
    exact fun a b ha hb => ⟨halone, (hall a ha).trans (hall b hb).symm⟩

theorem Uniform.issueShared (hu : Uniform g) {sid : Nat} {k : SmKernel cfg.toSmConfig}
    {slot start : Nat} (hsid : sid < cfg.numShader) (hshared : cfg.concurrentKernelSm = true)
    (hfits : start + paddedCtaSize k ≤ cfg.nThreadPerShader) (hmap : cfg.localMemMap = false) :
    Uniform (g.addCta sid k slot start) := by
  constructor
  · intro sid' c hc
    rcases eq_or_ne sid' sid with rfl | hne
    · exact hsid
    · rw [addCta_of_ne hne] at hc
      exact hu.sms sid' c hc
  · intro sid' c hc
    rcases eq_or_ne sid' sid with rfl | hne
    · rw [addCta_self] at hc
      rcases List.mem_cons.mp hc with rfl | hc
      · exact hfits
      · exact hu.threads sid' c hc
    · rw [addCta_of_ne hne] at hc
      exact hu.threads sid' c hc
  · intro halone
    rw [hshared] at halone
    cases halone
  · intro hmap'
    rw [hmap] at hmap'
    cases hmap'

theorem Uniform.finish (hu : Uniform g) (sid slot : Nat) :
    Uniform (g.removeCta sid slot) := by
  have hkept : ∀ sid', ∀ c ∈ (g.removeCta sid slot sid').ctas, c ∈ (g sid').ctas := by
    intro sid' c hc
    rcases eq_or_ne sid' sid with rfl | hne
    · rw [removeCta_self] at hc
      exact List.mem_of_mem_filter hc
    · rwa [removeCta_of_ne hne] at hc
  have hrest : ∀ sid', (g.removeCta sid slot sid').radices = (g sid').radices ∧
      (g.removeCta sid slot sid').kernel = (g sid').kernel := by
    intro sid'
    rcases eq_or_ne sid' sid with rfl | hne
    · rw [removeCta_self]
      exact ⟨rfl, rfl⟩
    · rw [removeCta_of_ne hne]
      exact ⟨rfl, rfl⟩
  have hne : ∀ sid', (g.removeCta sid slot sid').ctas ≠ [] → (g sid').ctas ≠ [] := by
    intro sid' h hnil
    obtain ⟨c, hc⟩ := List.exists_mem_of_ne_nil _ h
    have hmem := hkept sid' c hc
    rw [hnil] at hmem
    exact absurd hmem List.not_mem_nil
  constructor
  · exact fun sid' c hc => hu.sms sid' c (hkept sid' c hc)
  · exact fun sid' c hc => hu.threads sid' c (hkept sid' c hc)
  · intro halone sid' c hc
    rw [(hrest sid').1, (hrest sid').2]
    exact hu.bound halone sid' c (hkept sid' c hc)
  · intro hmap a b ha hb
    rw [(hrest a).1, (hrest b).1]
    exact hu.same hmap a b (hne a ha) (hne b hb)

theorem Uniform.step {e : LocalEvent cfg} (hu : Uniform g) (hmeets : Meets g e)
    (hstep : Step g e h) : Uniform h := by
  cases hstep with
  | issueBound hsid halone hbind hslot hfree =>
    exact hu.issueBound hsid halone hbind hslot fun hmap => (hmeets hmap).2
  | issueShared hsid hshared hfits =>
    refine hu.issueShared hsid hshared hfits ?_
    rw [← Bool.not_eq_true]
    intro hmap
    have halone := (hmeets hmap).1
    rw [hshared] at halone
    cases halone
  | finish => exact hu.finish _ _

theorem Uniform.runs (hu : Uniform g) (hruns : Runs Meets g h) : Uniform h := by
  induction hruns with
  | refl => exact hu
  | step _ hmeets hstep ih => exact ih.step hmeets hstep

/-! ### Aliases -/

theorem Uniform.placed (hu : Uniform g) {sid tid : Nat} (hr : Resident g sid tid) :
    ∃ place total, Placed cfg (g sid).radices sid tid place total := by
  obtain ⟨c, hc, -, hlt⟩ := hr
  have hsid := hu.sms sid c hc
  have hsize := cfg.threadsPerCta_le c.kernel
  have hthreads := hu.threads sid c hc
  cases hmap : cfg.localMemMap with
  | false => exact ⟨_, _, placed_legacy hmap _ hsid (by omega)⟩
  | true =>
    have hne : (g sid).ctas ≠ [] := List.ne_nil_of_mem hc
    have halone := (hu.same hmap sid sid hne hne).1
    obtain ⟨-, hradices, hstart, hslot⟩ := hu.bound halone sid c hc
    have hfits := slot_fits hslot
    rw [hradices]
    exact ⟨_, _, placed_byCta hmap hsid (by omega)⟩

/-- Two resident threads at one place are one thread. -/
theorem Uniform.place_inj (hu : Uniform g) {sid tid sid' tid' place total total' : Nat}
    (hr : Resident g sid tid) (hr' : Resident g sid' tid')
    (hp : Placed cfg (g sid).radices sid tid place total)
    (hp' : Placed cfg (g sid').radices sid' tid' place total') : sid = sid' ∧ tid = tid' := by
  obtain ⟨c, hc, hge, hlt⟩ := hr
  obtain ⟨c', hc', hge', hlt'⟩ := hr'
  have hsid := hu.sms sid c hc
  have hsid' := hu.sms sid' c' hc'
  have hsize := cfg.threadsPerCta_le c.kernel
  have hsize' := cfg.threadsPerCta_le c'.kernel
  have hthreads := hu.threads sid c hc
  have hthreads' := hu.threads sid' c' hc'
  cases hmap : cfg.localMemMap with
  | false =>
    have hl := placed_legacy hmap (g sid).radices hsid (show tid < _ by omega)
    have hl' := placed_legacy hmap (g sid').radices hsid' (show tid' < _ by omega)
    have h1 := (Prod.mk.inj (Option.some.inj (hp.base.symm.trans hl.base))).1
    have h2 := (Prod.mk.inj (Option.some.inj (hp'.base.symm.trans hl'.base))).1
    exact digits_unique (show tid < cfg.nThreadPerShader by omega) (by omega) (by omega)
  | true =>
    have hne := List.ne_nil_of_mem hc
    have hne' := List.ne_nil_of_mem hc'
    obtain ⟨halone, hsame⟩ := hu.same hmap sid sid' hne hne'
    obtain ⟨-, hradices, hstart, hslot⟩ := hu.bound halone sid c hc
    obtain ⟨-, hradices', hstart', hslot'⟩ := hu.bound halone sid' c' hc'
    have hfits := slot_fits hslot
    have hfits' := slot_fits hslot'
    have hlt1 : tid < cfg.maxCtas c.kernel * paddedCtaSize c.kernel := by omega
    have hlt2 : tid' < cfg.maxCtas c'.kernel * paddedCtaSize c'.kernel := by omega
    have hc1 := placed_byCta hmap hsid hlt1
    have hc2 := placed_byCta hmap hsid' hlt2
    rw [← hradices] at hc1
    rw [← hradices'] at hc2
    have hpadded : paddedCtaSize c.kernel = paddedCtaSize c'.kernel := by
      rw [hradices, hradices'] at hsame
      exact (Prod.mk.inj (Option.some.inj hsame)).1
    have h1 := (Prod.mk.inj (Option.some.inj (hp.base.symm.trans hc1.base))).1
    have h2 := (Prod.mk.inj (Option.some.inj (hp'.base.symm.trans hc2.base))).1
    rw [← hpadded] at h2
    have hpos : 0 < paddedCtaSize c.kernel := by omega
    have hplace : ctaPlace cfg (paddedCtaSize c.kernel) sid tid =
        ctaPlace cfg (paddedCtaSize c.kernel) sid' tid' := by omega
    exact ctaPlace_inj hpos hsid hsid' hplace

theorem Uniform.total_eq (hu : Uniform g) {sid tid sid' tid' place place' total total' : Nat}
    (hr : Resident g sid tid) (hr' : Resident g sid' tid')
    (hp : Placed cfg (g sid).radices sid tid place total)
    (hp' : Placed cfg (g sid').radices sid' tid' place' total') : total = total' := by
  obtain ⟨c, hc, -, -⟩ := hr
  obtain ⟨c', hc', -, -⟩ := hr'
  have hb := hp.base
  have hb' := hp'.base
  unfold threadBase at hb hb'
  cases hmap : cfg.localMemMap with
  | false =>
    rw [hmap, if_neg (by decide)] at hb hb'
    exact (Prod.mk.inj (Option.some.inj hb)).2.symm.trans (Prod.mk.inj (Option.some.inj hb')).2
  | true =>
    have hsame := (hu.same hmap sid sid' (List.ne_nil_of_mem hc) (List.ne_nil_of_mem hc')).2
    rw [hmap, if_pos rfl] at hb hb'
    rw [hsame] at hb
    cases hrad : (g sid').radices with
    | none =>
      rw [hrad] at hb
      cases hb
    | some p =>
      rw [hrad] at hb hb'
      dsimp only at hb hb'
      split at hb
      · cases hb
      · rename_i hpos
        rw [if_neg hpos] at hb'
        exact (Prod.mk.inj (Option.some.inj hb)).2.symm.trans
          (Prod.mk.inj (Option.some.inj hb')).2

/-- The linear word of a word of a thread, read off its base. -/
def linearOf (g : LocalGpu cfg) (sid tid w : Nat) : Nat :=
  match threadBase cfg (g sid).radices sid tid with
  | some (base, total) => linearWord (base / 4) total w
  | none => 0

theorem linearOf_placed {sid tid place total w : Nat}
    (hp : Placed cfg (g sid).radices sid tid place total) :
    linearOf g sid tid w = linearWord place total w := by
  unfold linearOf
  rw [hp.base]
  exact congrArg (linearWord · total w) (Nat.mul_div_cancel_left place (by decide))

theorem Uniform.noAlias (hu : Uniform g) : NoAlias g := by
  refine ⟨linearOf g, ?_, ?_⟩
  · intro sid tid hr addr size ha
    obtain ⟨place, total, hp⟩ := hu.placed hr
    rw [hp.translate ha]
    simp only [linearOf_placed hp]
  · intro sid tid sid' tid' w w' hr hr' heq
    obtain ⟨place, total, hp⟩ := hu.placed hr
    obtain ⟨place', total', hp'⟩ := hu.placed hr'
    obtain rfl := hu.total_eq hr hr' hp hp'
    rw [linearOf_placed hp, linearOf_placed hp'] at heq
    obtain ⟨hw, rfl⟩ := linearWord_inj hp.place_lt hp'.place_lt heq
    obtain ⟨hsid, htid⟩ := hu.place_inj hr hr' hp hp'
    exact ⟨hsid, htid, hw⟩

/-- Two SMs, which compute local addresses by CTAs. -/
def twoSms (concurrent : Bool) : LocalMapConfig where
  topo := ⟨1, [2], by decide, by decide⟩
  concurrentKernelSm := concurrent
  maxCtaPerCore := 32
  maxCta := fun _ => 1
  maxCtaPerCore_le := threeWarps.maxCtaPerCore_le
  maxCta_le := threeWarps.maxCta_le
  threads_le := by decide
  warpSize_pos := show 1 ≤ 32 by decide
  warps := by decide
  localMemMap := true
  otherLimits := fun _ => 4
  numShader_le := show 2 ≤ 1024 by decide

/-- CTAs of some threads. -/
def ctasOf (concurrent : Bool) (threads : Nat) (h : u32 (threads * 1 * 1) ≤ 2048) :
    SmKernel (twoSms concurrent).toSmConfig :=
  ⟨.launch ⟨1, 1, 1⟩ ⟨threads, 1, 1⟩ 0 0, h⟩

/-- CTAs of one warp. -/
def oneWarpCtas (concurrent : Bool) : SmKernel (twoSms concurrent).toSmConfig :=
  ctasOf concurrent 32 (by decide)

/-- CTAs of two warps. -/
def twoWarpCtas (concurrent : Bool) : SmKernel (twoSms concurrent).toSmConfig :=
  ctasOf concurrent 64 (by decide)

theorem Runs.bindCta {ok : LocalGpu cfg → LocalEvent cfg → Prop} (hrun : Runs ok g h) (sid : Nat)
    (k : SmKernel cfg.toSmConfig) (slot : Nat)
    (hok : ok h (.issue sid k slot (slot * paddedCtaSize k))) (hsid : sid < cfg.numShader)
    (halone : cfg.concurrentKernelSm = false)
    (hbind : (h sid).kernel = some k ∨ (h sid).ctas = []) (hslot : slot < cfg.maxCtas k)
    (hfree : ∀ c ∈ (h sid).ctas, c.slot ≠ slot) : Runs ok g (h.bindCta sid k slot) :=
  hrun.step hok (.issueBound hsid halone hbind hslot hfree)

theorem Runs.addCta {ok : LocalGpu cfg → LocalEvent cfg → Prop} (hrun : Runs ok g h) (sid : Nat)
    (k : SmKernel cfg.toSmConfig) (slot start : Nat) (hok : ok h (.issue sid k slot start))
    (hsid : sid < cfg.numShader) (hshared : cfg.concurrentKernelSm = true)
    (hfits : start + paddedCtaSize k ≤ cfg.nThreadPerShader) : Runs ok g (h.addCta sid k slot start) :=
  hrun.step hok (.issueShared hsid hshared hfits)

theorem no_ctas {g : LocalGpu cfg} {sid slot : Nat} (hnone : (g sid).ctas = []) :
    ∀ c ∈ (g sid).ctas, c.slot ≠ slot := by
  intro c hc
  rw [hnone] at hc
  exact absurd hc List.not_mem_nil

/-- An SM with two CTAs of one warp, the other one with a CTA of two warps. -/
def clashing : LocalGpu (twoSms false) :=
  ((reset.bindCta 0 (oneWarpCtas false) 0).bindCta 0 (oneWarpCtas false) 1).bindCta 1
    (twoWarpCtas false) 0

end LocalGpu

end FlashGpuSim
