import FlashGpuSim.Mbarrier.NamedReleases

/-!
The moves at the named barriers, and what they keep.
-/

namespace FlashGpuSim

open Lib

namespace BarrierSet

variable {u u' : BarrierSet} {w id x ctaId barId : Nat} {barType : BarrierType}
  {barCount : Option Nat}

/-- What an arrival changes. -/
structure Enters (u u' : BarrierSet) (ctaId : Nat) (a : Arrival) : Prop where
  config : u'.config = u.config
  ctas : u'.ctaToWarps = u.ctaToWarps
  active : u'.warpActive = u.warpActive
  releases : u'.pendingReleases = u.pendingReleases
  bits : u'.barIdToWarps =
    Function.update u.barIdToWarps a.barId (insert a.warpId (u.barIdToWarps a.barId))
  counts : u'.barIdToCount = if a.barCount.isSome then
    Function.update u.barIdToCount (ctaId, a.barId)
      (u.barIdToCount (ctaId, a.barId) + u.config.warpSize) else u.barIdToCount
  named : ∀ w id, u'.NamedAt w id ↔
    (w = a.warpId ∧ a.barType ≠ .arrive ∧ id = a.barId) ∨ u.NamedAt w id

theorem enters (ctaId : Nat) (a : Arrival) (hlt : a.warpId < u.config.maxWarpsPerCore)
    (hidle : ¬ u.NamedWaiting a.warpId) :
    Enters u (u.enterBarrier ctaId a.warpId a.barType a.barId a.barCount) ctaId a := by
  unfold enterBarrier
  dsimp only
  split
  · rename_i harrive
    refine ⟨rfl, rfl, rfl, rfl, rfl, rfl, fun w id => ?_⟩
    simp only [harrive, ne_eq, not_true_eq_false, false_and, and_false, false_or]
    exact Iff.rfl
  · rename_i hwait
    refine ⟨rfl, rfl, rfl, rfl, rfl, rfl, fun w id => ?_⟩
    unfold NamedAt Waiting setWaiting
    dsimp only
    rcases eq_or_ne w a.warpId with rfl | hne
    · rw [Function.update_self, Function.update_self]
      constructor
      · rintro ⟨-, hid⟩
        exact .inl ⟨rfl, hwait, (Option.some.inj hid).symm⟩
      · rintro (⟨-, -, rfl⟩ | hat)
        · exact ⟨⟨hlt, Finset.mem_insert_self _ _, rfl⟩, rfl⟩
        · exact absurd (namedWaiting_iff.mpr ⟨id, hat⟩) hidle
    · rw [Function.update_of_ne hne, Function.update_of_ne hne, Finset.mem_insert]
      simp only [hne, false_and, false_or]

/-- What a release changes. -/
structure Releases (u u' : BarrierSet) (ctaId barId : Nat) (atBarrier : Finset Nat)
    (waiters : List Nat) : Prop where
  config : u'.config = u.config
  ctas : u'.ctaToWarps = u.ctaToWarps
  active : u'.warpActive = u.warpActive
  bits : u'.barIdToWarps = Function.update u.barIdToWarps barId (u.barIdToWarps barId \ atBarrier)
  counts : u'.barIdToCount = Function.update u.barIdToCount (ctaId, barId) 0
  waits : (∀ w id, u'.NamedAt w id ↔ u.NamedAt w id ∧ w ∉ waiters) ∧
      u'.pendingReleases = u.pendingReleases ∨
    ∃ latency, (∀ w id, u'.NamedAt w id ↔ u.NamedAt w id) ∧ u'.pendingReleases =
      u.pendingReleases ++ waiters.map (PendingWarpRelease.mk latency · .barSync)

theorem releases {atBarrier : Finset Nat} (hok : u.releaseBarrier ctaId barId atBarrier = .ok u') :
    Releases u u' ctaId barId atBarrier (u.namedBarrierWaiters barId atBarrier) := by
  unfold releaseBarrier at hok
  obtain ⟨v, hv, hok⟩ := bind_eq_ok hok
  cases hok
  by_cases hlatency : u.config.barrierReleaseLatency = 0
  · have hgo := letGo_clear (by exact hlatency) hv
    refine ⟨hgo.config, hgo.ctas, hgo.active, hgo.bits, ?_, .inl ⟨hgo.named, hgo.releases⟩⟩
    dsimp only
    rw [hgo.counts]
  · have hgo := countdown_clear rfl (by exact hlatency) hv
    subst hgo
    exact ⟨rfl, rfl, rfl, rfl, rfl, .inr ⟨_, fun _ _ => Iff.rfl, rfl⟩⟩

end BarrierSet

namespace NamedCore

open BarrierSet

variable {c c' : NamedCore} {hand : List PendingWarpRelease} {w id ctaId : Nat}
  {warps : Finset Nat}

/-! ### An arrival -/

theorem NamedInv.enter {a : Arrival} (h : c.NamedInv hand)
    (hcta : c.set.ctaToWarps ctaId = some warps) (hmem : a.warpId ∈ warps)
    (hidle : ¬ c.set.NamedWaiting a.warpId)
    (hfree : a.barType ≠ .arrive → ∀ e ∈ c.namedArrivals, e.warpId ≠ a.warpId)
    (hc' : c' = c.record (c.set.enterBarrier ctaId a.warpId a.barType a.barId a.barCount)
      [.arrived ctaId a]) : c'.NamedInv hand := by
  have he := enters ctaId a ((h.ctas ctaId warps hcta).2 _ hmem) hidle
  have hset : c'.set = c.set.enterBarrier ctaId a.warpId a.barType a.barId a.barCount := by
    rw [hc']
    rfl
  rw [← hset] at he
  have hlog : c'.log = c.log ++ [NamedEvent.arrived ctaId a] := by
    rw [hc']
    rfl
  have hgen : ∀ cta id, generation c'.log cta id =
      if ctaId = cta ∧ a.barId = id then generation c.log cta id ++ [a]
      else generation c.log cta id := by
    intro cta id
    rw [hlog, generation_concat]
    rfl
  have hgrown : generation c'.log ctaId a.barId = generation c.log ctaId a.barId ++ [a] := by
    rw [hgen]
    exact if_pos ⟨rfl, rfl⟩
  have hbit : ∀ id w, w ∈ c'.set.barIdToWarps id ↔
      (id = a.barId ∧ w = a.warpId) ∨ w ∈ c.set.barIdToWarps id := by
    intro id w
    rw [he.bits]
    rcases eq_or_ne id a.barId with rfl | hne
    · rw [Function.update_self, Finset.mem_insert]
      simp
    · rw [Function.update_of_ne hne]
      simp [hne]
  have hat : ∀ id, ¬ c.set.NamedAt a.warpId id :=
    fun id hat => hidle (namedWaiting_iff.mpr ⟨id, hat⟩)
  -- A warp of another CTA is another warp.
  have hother : ∀ cta warps' x, c.set.ctaToWarps cta = some warps' → x ∈ warps' → cta ≠ ctaId →
      x ≠ a.warpId := by
    rintro cta warps' x hcta' hx hne rfl
    exact hne (h.disjoint cta ctaId warps' warps a.warpId hcta' hcta hx hmem)
  constructor
  · rw [he.ctas, he.config]
    exact h.ctas
  · rw [he.ctas]
    exact h.disjoint
  · intro cta warps' hcta'
    rw [he.ctas] at hcta'
    rw [hlog, nonExited_concat, he.active]
    exact h.nonExited cta warps' hcta'
  · intro cta warps' id hcta' b hb
    rw [he.ctas] at hcta'
    rw [hgen] at hb
    rw [hbit]
    split at hb
    · rename_i hsame
      obtain ⟨rfl, rfl⟩ := hsame
      rw [hcta] at hcta'
      cases hcta'
      rcases List.mem_append.mp hb with hb | hb
      · have hold := h.members ctaId warps a.barId hcta b hb
        exact ⟨hold.1, .inr hold.2⟩
      · rw [List.mem_singleton.mp hb]
        exact ⟨hmem, .inl ⟨rfl, rfl⟩⟩
    · have hold := h.members cta warps' id hcta' b hb
      exact ⟨hold.1, .inr hold.2⟩
  · intro cta warps' id hcta' hid x hx hxbit
    rw [he.ctas] at hcta'
    rw [he.config] at hid
    have hold := h.fresh cta warps' id hcta' hid x hx
    rw [hgen]
    rcases (hbit id x).mp hxbit with ⟨rfl, rfl⟩ | hxbit
    · rcases eq_or_ne cta ctaId with rfl | hne
      · rw [if_pos ⟨rfl, rfl⟩]
        exact ⟨a, List.mem_append_right _ List.mem_cons_self, rfl⟩
      · exact absurd rfl (hother cta warps' a.warpId hcta' hx hne)
    · obtain ⟨b, hb, hbx⟩ := hold hxbit
      split
      · exact ⟨b, List.mem_append_left _ hb, hbx⟩
      · exact ⟨b, hb, hbx⟩
  · intro cta warps' id hcta'
    rw [he.ctas] at hcta'
    have hold := h.counts cta warps' id hcta'
    rw [he.counts, he.config]
    by_cases hsame : ctaId = cta ∧ a.barId = id
    · obtain ⟨rfl, rfl⟩ := hsame
      rw [hgrown, List.countP_append, List.countP_singleton]
      split
      · rw [Function.update_self, hold, Nat.mul_add, Nat.mul_one]
      · exact hold
    · rw [hgen, if_neg hsame]
      split
      · rw [Function.update_of_ne]
        · exact hold
        · rintro heq
          exact hsame ⟨(congrArg Prod.fst heq).symm, (congrArg Prod.snd heq).symm⟩
      · exact hold
  · intro x
    obtain ⟨s, hs, hphase⟩ := h.waits x
    rw [hlog, waitState_concat, hs, Option.bind_some, he.releases]
    by_cases hx : a.warpId = x ∧ a.barType ≠ .arrive
    · obtain ⟨rfl, htype⟩ := hx
      cases hphase with
      | idle _ hnone =>
        refine ⟨.waiting, ?_, .waiting a.barId ?_ ?_ hnone⟩
        · unfold WaitState.next
          simp [htype]
        · exact (he.named _ _).mpr (.inl ⟨rfl, htype, rfl⟩)
        · exact (hbit _ _).mpr (.inl ⟨rfl, rfl⟩)
      | waiting id hnamed => exact absurd hnamed (hat id)
      | released id hnamed => exact absurd hnamed (hat id)
    · refine ⟨s, ?_, hphase.congr ?_ ?_ rfl⟩
      · unfold WaitState.next
        dsimp only
        rw [if_neg hx]
      · intro id
        rw [he.named]
        apply or_iff_right
        rintro ⟨rfl, htype, -⟩
        exact hx ⟨rfl, htype⟩
      · intro id hnamed
        rw [hbit]
        apply or_iff_right
        rintro ⟨-, rfl⟩
        exact hat id hnamed
  · intro x hx
    rw [he.ctas]
    obtain ⟨id, hx⟩ := namedWaiting_iff.mp hx
    rcases (he.named x id).mp hx with ⟨rfl, -, -⟩ | hx
    · exact ⟨ctaId, warps, hcta, hmem⟩
    · exact h.homes x (namedWaiting_iff.mpr ⟨id, hx⟩)
  · intro cta warps' id hcta' x hx
    rw [he.ctas] at hcta'
    have hold := h.waiters cta warps' id hcta' x hx
    rw [hbit, he.named]
    by_cases hsame : ctaId = cta ∧ a.barId = id
    · obtain ⟨rfl, rfl⟩ := hsame
      rw [hgrown]
      simp only [List.mem_append, List.mem_singleton]
      constructor
      · rintro ⟨b, hb | rfl, hbx, htype⟩
        · obtain ⟨hnamed, hbits⟩ := hold.mp ⟨b, hb, hbx, htype⟩
          exact ⟨.inr hnamed, .inr hbits⟩
        · exact ⟨.inl ⟨hbx.symm, htype, trivial⟩, .inl ⟨trivial, hbx.symm⟩⟩
      · rintro ⟨⟨rfl, htype, -⟩ | hnamed, hbits⟩
        · exact ⟨a, .inr rfl, rfl, htype⟩
        · rcases hbits with ⟨-, rfl⟩ | hbits
          · exact absurd hnamed (hat _)
          · obtain ⟨b, hb, hbx, htype⟩ := hold.mpr ⟨hnamed, hbits⟩
            exact ⟨b, .inl hb, hbx, htype⟩
    · rw [hgen, if_neg hsame, hold]
      have hxne : id = a.barId → x ≠ a.warpId := by
        rintro rfl
        apply hother cta warps' x hcta' hx
        rintro rfl
        exact hsame ⟨rfl, rfl⟩
      constructor
      · rintro ⟨hnamed, hbits⟩
        exact ⟨.inr hnamed, .inr hbits⟩
      · rintro ⟨⟨rfl, -, rfl⟩ | hnamed, hbits⟩
        · exact absurd rfl (hxne rfl)
        · rcases hbits with ⟨rfl, rfl⟩ | hbits
          · exact absurd rfl (hxne rfl)
          · exact ⟨hnamed, hbits⟩
  · subst hc'
    exact h.pending
  · intro e hein
    have hin : e ∈ c.namedArrivals := by
      subst hc'
      exact hein
    obtain ⟨hactive, hwait, hhome⟩ := h.arrivals e hin
    unfold InCta
    rw [he.active, he.ctas]
    refine ⟨hactive, ?_, hhome⟩
    intro hx
    obtain ⟨id, hx⟩ := namedWaiting_iff.mp hx
    rcases (he.named _ id).mp hx with ⟨heq, htype, -⟩ | hx
    · exact hfree htype e hin heq
    · exact hwait (namedWaiting_iff.mpr ⟨id, hx⟩)
  · intro l₁ l₂ cta id cause ws broadcast hsplit
    rw [he.config]
    rw [hlog] at hsplit
    rcases split_concat hsplit with ⟨-, hfalse, -⟩ | ⟨l₂', -, hsplit⟩
    · cases hfalse
    · exact h.history l₁ l₂' cta id cause ws broadcast hsplit

/-! ### A release -/

theorem namedCountdowns_waiters {latency : Nat} {ws : List Nat} :
    countdownsOf (ws.map (PendingWarpRelease.mk latency · .barSync)) w = ws.count w := by
  unfold countdownsOf namedCountdowns
  induction ws with
  | nil => rfl
  | cons x ws ih =>
    rw [List.map_cons, List.filter_cons_of_pos (by rfl), List.countP_cons, ih, List.count_cons]
    simp

theorem NamedInv.release {barId : Nat} {cause : ReleaseCause} {atBarrier broadcast : Finset Nat}
    (h : c.NamedInv hand) (hcta : c.set.ctaToWarps ctaId = some warps)
    (hat : atBarrier = warps ∩ c.set.barIdToWarps barId)
    (hcause : ReleaseCause.Holds c.set.config.warpSize c.log ctaId barId cause)
    (hreduced : ∀ a ∈ generation c.log ctaId barId, a.barType = .red → a.warpId ∈ broadcast)
    (hok : c.releaseBarrier ctaId barId cause atBarrier broadcast = .ok c') : c'.NamedInv hand := by
  unfold releaseBarrier at hok
  cases hset : c.set.releaseBarrier ctaId barId atBarrier with
  | error e =>
    rw [hset] at hok
    cases hok
  | ok set =>
    rw [hset] at hok
    cases hok
    have hr := BarrierSet.releases hset
    generalize hws : c.set.namedBarrierWaiters barId atBarrier = ws at hr ⊢
    have hmem : ∀ w, w ∈ ws ↔ w ∈ warps ∧ c.set.NamedAt w barId ∧ w ∈ c.set.barIdToWarps barId := by
      intro w
      rw [← hws, mem_namedBarrierWaiters, hat, Finset.mem_inter]
      tauto
    have hwsNodup : ws.Nodup := by
      rw [← hws]
      exact List.nodup_range.filter _
    have hlog : (((c.record c.set [.released ctaId barId cause ws broadcast]).resume set).log) =
        (c.log ++ [NamedEvent.released ctaId barId cause ws broadcast]) ++
          (c.set.ended set).map .resumed := rfl
    generalize hc' : (c.record c.set [.released ctaId barId cause ws broadcast]).resume set = c'
      at hlog ⊢
    have hset' : c'.set = set := by
      rw [← hc']
      rfl
    have hgen : ∀ cta id, generation c'.log cta id =
        if ctaId = cta ∧ barId = id then [] else generation c.log cta id := by
      intro cta id
      rw [hlog, generation_resumed, generation_concat]
      rfl
    have hbit : ∀ id w, w ∈ set.barIdToWarps id ↔
        w ∈ c.set.barIdToWarps id ∧ ¬ (id = barId ∧ w ∈ warps) := by
      intro id w
      rw [hr.bits]
      rcases eq_or_ne id barId with rfl | hne
      · rw [Function.update_self, Finset.mem_sdiff, hat, Finset.mem_inter]
        tauto
      · rw [Function.update_of_ne hne]
        simp [hne]
    have hnamed : ∀ w id, set.NamedAt w id → c.set.NamedAt w id := by
      intro w id hw
      rcases hr.waits with ⟨hnamed, -⟩ | ⟨_, hnamed, -⟩
      · exact ((hnamed w id).mp hw).1
      · exact (hnamed w id).mp hw
    have hkept : ∀ w, w ∉ ws → ∀ id, set.NamedAt w id ↔ c.set.NamedAt w id := by
      intro w hw id
      rcases hr.waits with ⟨hnamed, -⟩ | ⟨_, hnamed, -⟩
      · rw [hnamed]
        exact and_iff_left hw
      · exact hnamed w id
    have hnext : ∀ w, waitState (c.log ++ [NamedEvent.released ctaId barId cause ws broadcast]) w =
        (waitState c.log w).bind
          (fun s => if w ∈ ws then if s = .waiting then some .released else none else some s) :=
      fun w => waitState_concat
    have hother : ∀ cta warps' x, c.set.ctaToWarps cta = some warps' → x ∈ warps' → cta ≠ ctaId →
        x ∉ warps :=
      fun cta warps' x hcta' hx hne hxw => hne (h.disjoint cta ctaId warps' warps x hcta' hcta hx hxw)
    constructor
    · rw [hset', hr.ctas, hr.config]
      exact h.ctas
    · rw [hset', hr.ctas]
      exact h.disjoint
    · intro cta warps' hcta'
      rw [hset', hr.ctas] at hcta'
      rw [hset', hlog, nonExited_resumed, nonExited_concat, hr.active]
      exact h.nonExited cta warps' hcta'
    · intro cta warps' id hcta' a ha
      rw [hset', hr.ctas] at hcta'
      rw [hgen] at ha
      rw [hset', hbit]
      split at ha
      · exact absurd ha List.not_mem_nil
      · rename_i hdiff
        have hold := h.members cta warps' id hcta' a ha
        refine ⟨hold.1, hold.2, ?_⟩
        rintro ⟨rfl, hxw⟩
        rcases eq_or_ne cta ctaId with rfl | hne
        · exact hdiff ⟨rfl, rfl⟩
        · exact hother cta warps' _ hcta' hold.1 hne hxw
    · intro cta warps' id hcta' hid x hx hxbit
      rw [hset', hr.ctas] at hcta'
      rw [hset', hr.config] at hid
      rw [hset', hbit] at hxbit
      rw [hgen, if_neg]
      · exact h.fresh cta warps' id hcta' hid x hx hxbit.1
      · rintro ⟨rfl, rfl⟩
        rw [hcta] at hcta'
        cases hcta'
        exact hxbit.2 ⟨rfl, hx⟩
    · intro cta warps' id hcta'
      rw [hset', hr.ctas] at hcta'
      rw [hset', hr.counts, hr.config, hgen]
      split
      · rename_i hsame
        obtain ⟨rfl, rfl⟩ := hsame
        rw [Function.update_self]
        rfl
      · rename_i hdiff
        rw [Function.update_of_ne]
        · exact h.counts cta warps' id hcta'
        · intro heq
          exact hdiff ⟨(congrArg Prod.fst heq).symm, (congrArg Prod.snd heq).symm⟩
    · intro x
      obtain ⟨s, hs, hphase⟩ := h.waits x
      rw [hset', hlog]
      by_cases hx : x ∈ ws
      · obtain ⟨hxw, hxat, hxbit⟩ := (hmem x).mp hx
        have hwaiting : s = .waiting ∧ countdownsOf (c.set.pendingReleases ++ hand) x = 0 := by
          cases hphase with
          | idle hidle => exact absurd (namedWaiting_iff.mpr ⟨barId, hxat⟩) hidle
          | waiting id _ _ hnone => exact ⟨rfl, hnone⟩
          | released id hxat' hleft =>
            rw [hxat'.unique hxat] at hleft
            exact absurd hxbit hleft
        obtain ⟨rfl, hnone⟩ := hwaiting
        have hreleased : waitState (c.log ++ [NamedEvent.released ctaId barId cause ws broadcast]) x =
            some .released := by
          rw [hnext, hs, Option.bind_some, if_pos hx, if_pos rfl]
        have hxbit' : x ∉ set.barIdToWarps barId := by
          rw [hbit]
          exact fun hboth => hboth.2 ⟨rfl, hxw⟩
        rcases hr.waits with ⟨hgo, hsame⟩ | ⟨latency, hstay, hmore⟩
        · have hidle : ¬ set.NamedWaiting x := by
            rw [namedWaiting_iff]
            rintro ⟨id, hx'⟩
            exact ((hgo x id).mp hx').2 hx
          refine ⟨.idle, ?_, .idle hidle (hsame ▸ hnone)⟩
          apply waitState_resumed (nodup_ended _ _) _ hreleased
          exact mem_ended.mpr ⟨namedWaiting_iff.mpr ⟨barId, hxat⟩, hidle⟩
        · refine ⟨.released, ?_, .released barId ((hstay x barId).mpr hxat) hxbit' ?_⟩
          · rw [waitState_other]
            · exact hreleased
            · intro hended
              exact (mem_ended.mp hended).2 (namedWaiting_iff.mpr ⟨barId, (hstay x barId).mpr hxat⟩)
          · rw [countdownsOf_append] at hnone
            rw [hmore, countdownsOf_append, countdownsOf_append, namedCountdowns_waiters,
              List.count_eq_one_of_mem hwsNodup hx]
            omega
      · refine ⟨s, ?_, hphase.congr (hkept x hx) ?_ ?_⟩
        · rw [waitState_other, hnext, hs, Option.bind_some, if_neg hx]
          intro hended
          obtain ⟨hwait, hnot⟩ := mem_ended.mp hended
          obtain ⟨id, hxat⟩ := namedWaiting_iff.mp hwait
          exact hnot (namedWaiting_iff.mpr ⟨id, (hkept x hx id).mpr hxat⟩)
        · intro id hxat
          rw [hbit]
          apply and_iff_left_of_imp
          rintro hxbit ⟨rfl, hxw⟩
          exact hx ((hmem x).mpr ⟨hxw, hxat, hxbit⟩)
        · rcases hr.waits with ⟨-, hsame⟩ | ⟨latency, -, hmore⟩
          · rw [hsame]
          · rw [hmore, countdownsOf_append, countdownsOf_append, countdownsOf_append,
              namedCountdowns_waiters, List.count_eq_zero_of_not_mem hx, Nat.add_zero]
    · intro x hx
      rw [hset'] at hx ⊢
      rw [hr.ctas]
      obtain ⟨id, hx⟩ := namedWaiting_iff.mp hx
      exact h.homes x (namedWaiting_iff.mpr ⟨id, hnamed x id hx⟩)
    · intro cta warps' id hcta' x hx
      rw [hset', hr.ctas] at hcta'
      rw [hset', hbit, hgen]
      have hold := h.waiters cta warps' id hcta' x hx
      split
      · rename_i hsame
        obtain ⟨rfl, rfl⟩ := hsame
        rw [hcta] at hcta'
        cases hcta'
        simp [hx]
      · rename_i hdiff
        rw [hold]
        have hfar : ¬ (id = barId ∧ x ∈ warps) := by
          rintro ⟨rfl, hxw⟩
          rcases eq_or_ne cta ctaId with rfl | hne
          · exact hdiff ⟨rfl, rfl⟩
          · exact hother cta warps' x hcta' hx hne hxw
        rw [and_iff_left hfar]
        by_cases hxws : x ∈ ws
        · obtain ⟨hxw, hxat, -⟩ := (hmem x).mp hxws
          constructor
          · rintro ⟨hxat', -⟩
            exact absurd ⟨hxat'.unique hxat, hxw⟩ hfar
          · rintro ⟨hxat', -⟩
            exact absurd ⟨(hnamed x id hxat').unique hxat, hxw⟩ hfar
        · rw [hkept x hxws]
    · rw [← hc']
      exact h.pending
    · intro e he
      have hin : e ∈ c.namedArrivals := by
        rw [← hc'] at he
        exact he
      obtain ⟨hactive, hwait, hhome⟩ := h.arrivals e hin
      unfold InCta
      rw [hset', hr.active, hr.ctas]
      refine ⟨hactive, ?_, hhome⟩
      intro hx
      obtain ⟨id, hx⟩ := namedWaiting_iff.mp hx
      exact hwait (namedWaiting_iff.mpr ⟨id, hnamed _ id hx⟩)
    · intro l₁ l₂ cta id cause' ws' broadcast' hsplit
      rw [hset', hr.config]
      rw [hlog] at hsplit
      rcases split_append hsplit with ⟨-, -, hresumed⟩ | ⟨l₂', hsplit⟩
      · obtain ⟨x, -, hx⟩ := List.mem_map.mp hresumed
        cases hx
      · rcases split_concat hsplit with ⟨rfl, heq, -⟩ | ⟨l₂'', -, hsplit⟩
        · cases heq
          refine ⟨hcause, ?_, hreduced⟩
          intro w
          rw [hmem]
          constructor
          · rintro ⟨hw, hwat, hwbit⟩
            exact (h.waiters ctaId warps barId hcta w hw).mpr ⟨hwat, hwbit⟩
          · rintro ⟨a, ha, rfl, htype⟩
            have hw := (h.members ctaId warps barId hcta a ha).1
            exact ⟨hw, (h.waiters ctaId warps barId hcta _ hw).mp ⟨a, ha, rfl, htype⟩⟩
        · exact h.history l₁ l₂'' cta id cause' ws' broadcast' hsplit

end NamedCore

end FlashGpuSim
