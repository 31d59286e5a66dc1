import FlashGpuSim.Mbarrier.NamedMoves

/-!
The end of a countdown, the exit of a warp, the start and the end of a CTA, and arrivals that
are not visible yet.
-/

namespace FlashGpuSim

open Lib

namespace NamedCore

open BarrierSet

variable {c c' : NamedCore} {hand : List PendingWarpRelease} {r : PendingWarpRelease}
  {w id ctaId : Nat} {warps : Finset Nat}

/-! ### Countdowns -/

theorem liftBarrier_ok {α : Type} {x : Except BarrierFailure α} {a : α}
    (h : liftBarrier x = .ok a) : x = .ok a := by
  cases x with
  | ok b =>
    cases h
    rfl
  | error e => cases h

theorem ended_aside {u u' : BarrierSet} (ha : Aside u u') : u.ended u' = [] := by
  apply List.eq_nil_iff_forall_not_mem.mpr
  intro w hw
  obtain ⟨hwait, hnot⟩ := mem_ended.mp hw
  exact hnot (ha.namedWaiting.mpr hwait)

theorem resume_aside {set : BarrierSet} (ha : Aside c.set set) :
    c.resume set = { c with set := set } := by
  unfold resume record
  rw [ended_aside ha, List.map_nil, List.append_nil]

theorem countdownsOf_cons {rs : List PendingWarpRelease} : countdownsOf (r :: rs) w =
    (if r.type = .barSync ∧ r.warpId = w then 1 else 0) + countdownsOf rs w := by
  unfold countdownsOf namedCountdowns
  rw [List.filter_cons]
  by_cases htype : r.type = .barSync
  · rw [if_pos (decide_eq_true htype), List.countP_cons, Nat.add_comm]
    simp [htype]
  · rw [if_neg (by simp [htype])]
    simp [htype]

theorem countdownsOf_perm {rs rs' : List PendingWarpRelease} (h : rs.Perm rs') :
    countdownsOf rs w = countdownsOf rs' w :=
  (h.filter _).countP_eq _

/-- A countdown of another kind that ends. -/
theorem NamedInv.expireElsewhere (h : c.NamedInv (r :: hand)) (htype : r.type ≠ .barSync) :
    c.NamedInv hand := by
  apply h.countdowns (Aside.refl c.set) _ rfl
  intro w
  rw [countdownsOf_append, countdownsOf_append, countdownsOf_cons]
  simp [htype]

/-- A released warp resumes at the end of its countdown. -/
theorem NamedInv.expireRelease (h : c.NamedInv (r :: hand)) (htype : r.type = .barSync)
    (hc' : c' = c.resume (c.set.dropWaiting r.warpId)) : c'.NamedInv hand := by
  have hcount : ∀ x, countdownsOf (c.set.pendingReleases ++ r :: hand) x =
      countdownsOf (c.set.pendingReleases ++ hand) x + if r.warpId = x then 1 else 0 := by
    intro x
    rw [countdownsOf_append, countdownsOf_append, countdownsOf_cons]
    simp only [htype, true_and]
    omega
  obtain ⟨id, hat, hleft, hone⟩ : ∃ id, c.set.NamedAt r.warpId id ∧
      r.warpId ∉ c.set.barIdToWarps id ∧
      countdownsOf (c.set.pendingReleases ++ r :: hand) r.warpId = 1 ∧
      waitState c.log r.warpId = some .released := by
    obtain ⟨s, hs, hphase⟩ := h.waits r.warpId
    have hpos := hcount r.warpId
    rw [if_pos rfl] at hpos
    cases hphase with
    | idle _ hnone => omega
    | waiting _ _ _ hnone => omega
    | released id hat hleft hone => exact ⟨id, hat, hleft, hone, hs⟩
  have hnamed : ∀ x id, c'.set.NamedAt x id ↔ c.set.NamedAt x id ∧ x ≠ r.warpId := by
    intro x id
    rw [hc']
    exact namedAt_dropWaiting
  have hwaiting : ∀ x, c'.set.NamedWaiting x → c.set.NamedWaiting x := by
    intro x hx
    obtain ⟨id, hx⟩ := namedWaiting_iff.mp hx
    exact namedWaiting_iff.mpr ⟨id, ((hnamed x id).mp hx).1⟩
  have hended : ∀ x, x ∈ c.set.ended (c.set.dropWaiting r.warpId) ↔ x = r.warpId := by
    intro x
    rw [mem_ended, namedWaiting_iff, namedWaiting_iff]
    simp only [namedAt_dropWaiting]
    constructor
    · rintro ⟨⟨id, hx⟩, hnot⟩
      by_contra hne
      exact hnot ⟨id, hx, hne⟩
    · rintro rfl
      exact ⟨⟨id, hat⟩, fun ⟨_, _, hne⟩ => hne rfl⟩
  have hlog : c'.log = c.log ++ (c.set.ended (c.set.dropWaiting r.warpId)).map .resumed := by
    rw [hc']
    rfl
  have hset : ∀ {α : Type} (f : BarrierSet → α), f (c.set.dropWaiting r.warpId) = f c.set →
      f c'.set = f c.set := by
    intro α f hf
    rw [hc']
    exact hf
  have hconfig := hset BarrierSet.config rfl
  have hctas := hset BarrierSet.ctaToWarps rfl
  have hbits := hset BarrierSet.barIdToWarps rfl
  have hcounts := hset BarrierSet.barIdToCount rfl
  have hactive := hset BarrierSet.warpActive rfl
  have hreleases := hset BarrierSet.pendingReleases rfl
  have hgen : ∀ cta id, generation c'.log cta id = generation c.log cta id := by
    intro cta id
    rw [hlog, generation_resumed]
  constructor
  · rw [hctas, hconfig]
    exact h.ctas
  · rw [hctas]
    exact h.disjoint
  · rw [hctas, hactive, hlog]
    intro cta warps hcta
    rw [nonExited_resumed]
    exact h.nonExited cta warps hcta
  · rw [hctas, hbits]
    intro cta warps id
    rw [hgen]
    exact h.members cta warps id
  · unfold Fresh
    rw [hctas, hconfig, hbits]
    intro cta warps id
    rw [hgen]
    exact h.fresh cta warps id
  · rw [hctas, hconfig, hcounts]
    intro cta warps id
    rw [hgen]
    exact h.counts cta warps id
  · intro x
    obtain ⟨s, hs, hphase⟩ := h.waits x
    have hx := hcount x
    rw [hlog, hreleases]
    rcases eq_or_ne x r.warpId with rfl | hne
    · refine ⟨.idle, ?_, .idle ?_ ?_⟩
      · exact waitState_resumed (nodup_ended _ _) ((hended _).mpr rfl) hone.2
      · rw [namedWaiting_iff]
        rintro ⟨id, hx⟩
        exact ((hnamed _ id).mp hx).2 rfl
      · rw [if_pos rfl] at hx
        omega
    · refine ⟨s, ?_, hphase.congr ?_ ?_ ?_⟩
      · rw [waitState_other]
        · exact hs
        · rw [hended]
          exact hne
      · intro id
        rw [hnamed]
        exact and_iff_left hne
      · intro id _
        rw [hbits]
      · rw [if_neg hne.symm] at hx
        exact hx.symm
  · intro x hx
    rw [hctas]
    exact h.homes x (hwaiting x hx)
  · intro cta warps id' hcta x hx
    rw [hctas] at hcta
    rw [hgen, hbits, hnamed, h.waiters cta warps id' hcta x hx]
    constructor
    · rintro ⟨hxat, hxbit⟩
      refine ⟨⟨hxat, ?_⟩, hxbit⟩
      rintro rfl
      rw [hxat.unique hat] at hxbit
      exact hleft hxbit
    · rintro ⟨⟨hxat, -⟩, hxbit⟩
      exact ⟨hxat, hxbit⟩
  · subst hc'
    exact h.pending
  · intro e he
    have hin : e ∈ c.namedArrivals := by
      subst hc'
      exact he
    obtain ⟨hon, hwait, hhome⟩ := h.arrivals e hin
    unfold InCta
    rw [hactive, hctas]
    exact ⟨hon, fun hx => hwait (hwaiting _ hx), hhome⟩
  · intro l₁ l₂ cta id cause ws broadcast hsplit
    rw [hconfig]
    rw [hlog] at hsplit
    rcases split_append hsplit with ⟨-, -, hresumed⟩ | ⟨l₂', hsplit⟩
    · obtain ⟨x, -, hx⟩ := List.mem_map.mp hresumed
      cases hx
    · exact h.history l₁ l₂' cta id cause ws broadcast hsplit

theorem NamedInv.expire (h : c.NamedInv (r :: hand)) (hok : c.expire r = .ok c') :
    c'.NamedInv hand := by
  obtain ⟨set, hset, hok⟩ := bind_eq_ok hok
  cases hok
  have hset := liftBarrier_ok hset
  unfold BarrierSet.expire at hset
  split at hset
  · rename_i hmbarrier
    cases hset
    rw [resume_aside (Aside.refl c.set)]
    apply h.expireElsewhere
    rw [hmbarrier.1]
    exact mbarrier_ne_barSync
  · obtain ⟨_, -, hset⟩ := bind_eq_ok hset
    by_cases htype : r.type = .barSync
    · obtain ⟨-, rfl⟩ := clearWarpWaiting_ok hset
      exact h.expireRelease htype rfl
    · have ha := aside_clearWarpWaiting htype hset
      rw [resume_aside ha]
      exact (h.expireElsewhere htype).aside ha rfl

/-- The countdowns tick, and those that have ended are taken in hand. -/
theorem NamedInv.tick {ticked : List PendingWarpRelease} (h : c.NamedInv [])
    (hticked : ticked = c.set.pendingReleases.map PendingWarpRelease.tick)
    (hc' : c' = { c with set :=
      { c.set with pendingReleases := ticked.filter (fun r => r.remaining ≠ 0) } }) :
    c'.NamedInv (ticked.reverse.filter (fun r => r.remaining = 0)) := by
  apply h.countdowns _ _ hc'
  · exact ⟨rfl, rfl, rfl, rfl, rfl, fun _ _ => Iff.rfl, rfl⟩
  · intro w
    have hsplit : (ticked.filter (fun r => decide (r.remaining ≠ 0)) ++
        ticked.reverse.filter (fun r => decide (r.remaining = 0))).Perm ticked := by
      rw [List.filter_reverse]
      refine (List.Perm.append_left _ (List.reverse_perm _)).trans ?_
      refine List.perm_append_comm.trans ?_
      have hnot : (fun r : PendingWarpRelease => decide (r.remaining ≠ 0)) =
          fun r => !decide (r.remaining = 0) := by
        funext r
        exact decide_not
      rw [hnot]
      exact List.filter_append_perm _ ticked
    dsimp only
    rw [countdownsOf_perm hsplit, hticked, List.append_nil]
    unfold countdownsOf namedCountdowns
    induction c.set.pendingReleases with
    | nil => rfl
    | cons r rs ih =>
      rw [List.map_cons, List.filter_cons, List.filter_cons]
      unfold PendingWarpRelease.tick at ih ⊢
      dsimp only
      split
      · rw [List.countP_cons, List.countP_cons, ih]
      · exact ih

theorem NamedInv.cycle {now : Nat} (h : c.NamedInv []) (hok : c.cycle now = .ok c') :
    c'.NamedInv [] := by
  obtain ⟨d, hd, hok⟩ := bind_eq_ok hok
  obtain ⟨set, hset, hok⟩ := bind_eq_ok hok
  cases hok
  have hrechecked : Aside d.set set :=
    aside_foldlM (fun _ _ _ => aside_recheck) (liftBarrier_ok hset)
  refine NamedInv.aside ?_ hrechecked rfl
  have hticked := h.tick rfl rfl
  have hstep : ∀ (r : PendingWarpRelease) (hand : List PendingWarpRelease) (s : NamedCore),
      s.NamedInv (r :: hand) →
      Outcome (s.expire r) (fun t => t.NamedInv hand) (fun _ => True) := by
    intro r hand s hs
    exact outcome_of_ok_imp fun t ht => hs.expire ht
  exact (outcome_foldlM (fun hand s => NamedInv s hand) hstep _ _ hticked).of_ok hd

/-! ### The exit of a warp -/

theorem namedAt_markExited {u : BarrierSet} {x : Nat} (hw : ¬ u.NamedWaiting w) :
    (u.markExited w).NamedAt x id ↔ u.NamedAt x id := by
  unfold markExited NamedAt Waiting
  dsimp only
  rcases eq_or_ne x w with rfl | hne
  · rw [Function.update_self]
    constructor
    · exact fun h => nomatch h.2
    · exact fun h => absurd (namedWaiting_iff.mpr ⟨id, h⟩) hw
  · rw [Function.update_of_ne hne]

theorem NamedInv.exited (h : c.NamedInv hand) (hcta : c.set.ctaToWarps ctaId = some warps)
    (hmem : w ∈ warps) (hidle : ¬ c.set.NamedWaiting w) (hpending : c.pendingArrivals w = 0)
    (hc' : c' = c.record (c.set.markExited w) [.exited ctaId w]) : c'.NamedInv hand := by
  have hnamed : ∀ x id, c'.set.NamedAt x id ↔ c.set.NamedAt x id := by
    intro x id
    rw [hc']
    exact namedAt_markExited hidle
  have hwaiting : ∀ x, c'.set.NamedWaiting x ↔ c.set.NamedWaiting x := by
    intro x
    rw [namedWaiting_iff, namedWaiting_iff]
    simp only [hnamed]
  have hlog : c'.log = c.log ++ [NamedEvent.exited ctaId w] := by
    rw [hc']
    rfl
  have hgen : ∀ cta id, generation c'.log cta id = generation c.log cta id := by
    intro cta id
    rw [hlog, generation_concat]
    rfl
  have hset : ∀ {α : Type} (f : BarrierSet → α), f (c.set.markExited w) = f c.set →
      f c'.set = f c.set := by
    intro α f hf
    rw [hc']
    exact hf
  have hconfig := hset BarrierSet.config rfl
  have hctas := hset BarrierSet.ctaToWarps rfl
  have hbits := hset BarrierSet.barIdToWarps rfl
  have hcounts := hset BarrierSet.barIdToCount rfl
  have hreleases := hset BarrierSet.pendingReleases rfl
  have hactive : c'.set.warpActive = c.set.warpActive.erase w := by
    rw [hc']
    rfl
  constructor
  · rw [hctas, hconfig]
    exact h.ctas
  · rw [hctas]
    exact h.disjoint
  · intro cta warps' hcta'
    rw [hctas] at hcta'
    rw [hlog, nonExited_concat, hactive]
    unfold remainingWarps
    dsimp only
    rw [h.nonExited cta warps' hcta', Finset.inter_erase]
    split
    · rfl
    · rename_i hne
      rw [Finset.erase_eq_of_notMem]
      intro hw
      exact hne (h.disjoint ctaId cta warps warps' w hcta hcta' hmem (Finset.mem_inter.mp hw).1)
  · rw [hctas, hbits]
    intro cta warps' id
    rw [hgen]
    exact h.members cta warps' id
  · unfold Fresh
    rw [hctas, hconfig, hbits]
    intro cta warps' id
    rw [hgen]
    exact h.fresh cta warps' id
  · rw [hctas, hconfig, hcounts]
    intro cta warps' id
    rw [hgen]
    exact h.counts cta warps' id
  · intro x
    obtain ⟨s, hs, hphase⟩ := h.waits x
    rw [hlog, waitState_concat, hs, hreleases]
    refine ⟨s, rfl, hphase.congr (hnamed x) ?_ rfl⟩
    intro id _
    rw [hbits]
  · intro x hx
    rw [hctas]
    exact h.homes x ((hwaiting x).mp hx)
  · intro cta warps' id hcta' x hx
    rw [hctas] at hcta'
    rw [hgen, hbits, hnamed]
    exact h.waiters cta warps' id hcta' x hx
  · subst hc'
    exact h.pending
  · intro e he
    have hin : e ∈ c.namedArrivals := by
      subst hc'
      exact he
    obtain ⟨hon, hwait, hhome⟩ := h.arrivals e hin
    unfold InCta
    rw [hactive, hctas, hwaiting, Finset.mem_erase]
    refine ⟨⟨?_, hon⟩, hwait, hhome⟩
    rintro rfl
    have hpos : 0 < c.namedArrivals.countP (fun e' => e'.warpId = e.warpId) :=
      List.countP_pos_iff.mpr ⟨e, hin, decide_eq_true rfl⟩
    rw [← h.pending, hpending] at hpos
    exact absurd hpos (lt_irrefl 0)
  · intro l₁ l₂ cta id cause ws broadcast hsplit
    rw [hconfig]
    rw [hlog] at hsplit
    rcases split_concat hsplit with ⟨-, hfalse, -⟩ | ⟨l₂', -, hsplit⟩
    · cases hfalse
    · exact h.history l₁ l₂' cta id cause ws broadcast hsplit

/-! ### The start and the end of a CTA -/

theorem mem_clearBarriers {u : BarrierSet} : w ∈ u.clearBarriers warps id ↔
    w ∈ u.barIdToWarps id ∧ ¬ (id < u.config.maxBarriersPerCta ∧ w ∈ warps) := by
  unfold clearBarriers
  split
  · rename_i hid
    rw [Finset.mem_sdiff]
    simp [hid]
  · rename_i hid
    simp [hid]

theorem NamedInv.allocate {info : Nat → WarpInfo} {set : BarrierSet} (h : c.NamedInv [])
    (hvalid : c.set.Valid (.allocate ctaId warps info))
    (hset : c.set.allocateBarrier ctaId warps info = .ok set)
    (hc' : c' = c.record set [.allocated ctaId warps]) : c'.NamedInv [] := by
  obtain ⟨_, hfree, hset⟩ := bind_eq_ok hset
  cases hset
  obtain ⟨hcta, hnone⟩ : ctaId < c.set.config.maxCtaPerCore ∧ c.set.ctaToWarps ctaId = none := by
    have hboth := require_true hfree
    rw [Bool.and_eq_true, decide_eq_true_eq, Option.isNone_iff_eq_none] at hboth
    exact hboth
  obtain ⟨hlt, hnew, -⟩ := hvalid
  have hother : ∀ cta warps' x, c.set.ctaToWarps cta = some warps' → x ∈ warps' → x ∉ warps :=
    fun cta warps' x hcta' hx hxw => hnew cta (h.ctas cta warps' hcta').1 x hxw ⟨warps', hcta', hx⟩
  have hidle : ∀ x ∈ warps, ¬ c.set.NamedWaiting x := by
    intro x hx hwait
    obtain ⟨cta, warps', hcta', hx'⟩ := h.homes x hwait
    exact hother cta warps' x hcta' hx' hx
  have hnamed : ∀ x id, c'.set.NamedAt x id ↔ c.set.NamedAt x id := by
    intro x id
    rw [hc']
    unfold record NamedAt Waiting
    dsimp only
    by_cases hx : x ∈ warps
    · rw [if_pos hx]
      constructor
      · exact fun hat => nomatch hat.2
      · exact fun hat => absurd (namedWaiting_iff.mpr ⟨id, hat⟩) (hidle x hx)
    · rw [if_neg hx, Finset.mem_sdiff, and_iff_left hx]
  have hwaiting : ∀ x, c'.set.NamedWaiting x ↔ c.set.NamedWaiting x := by
    intro x
    rw [namedWaiting_iff, namedWaiting_iff]
    simp only [hnamed]
  have hlog : c'.log = c.log ++ [NamedEvent.allocated ctaId warps] := by
    rw [hc']
    rfl
  have hgen : ∀ cta id, generation c'.log cta id =
      if ctaId = cta then [] else generation c.log cta id := by
    intro cta id
    rw [hlog, generation_concat]
    rfl
  have hctas : ∀ cta, c'.set.ctaToWarps cta =
      if cta = ctaId then some warps else c.set.ctaToWarps cta := by
    intro cta
    rw [hc']
    exact Function.update_apply _ _ _ _
  have hactive : c'.set.warpActive = c.set.warpActive ∪ warps := by
    rw [hc']
    rfl
  have hbits : ∀ id x, x ∈ c'.set.barIdToWarps id ↔
      x ∈ c.set.barIdToWarps id ∧ ¬ (id < c.set.config.maxBarriersPerCta ∧ x ∈ warps) := by
    intro id x
    rw [hc']
    exact mem_clearBarriers
  have hcounts : ∀ key, c'.set.barIdToCount key =
      if key.1 = ctaId then 0 else c.set.barIdToCount key := by
    intro key
    rw [hc']
    rfl
  have hconfig : c'.set.config = c.set.config := by
    rw [hc']
    rfl
  -- Every CTA is the new one or one of the others.
  have hcases : ∀ cta warps', c'.set.ctaToWarps cta = some warps' →
      (cta = ctaId ∧ warps' = warps) ∨ (ctaId ≠ cta ∧ c.set.ctaToWarps cta = some warps') := by
    intro cta warps' hcta'
    rw [hctas] at hcta'
    split at hcta'
    · rename_i hsame
      cases hcta'
      exact .inl ⟨hsame, rfl⟩
    · rename_i hne
      exact .inr ⟨Ne.symm hne, hcta'⟩
  constructor
  · intro cta warps' hcta'
    rw [hconfig]
    rcases hcases cta warps' hcta' with ⟨rfl, rfl⟩ | ⟨-, hold⟩
    · exact ⟨hcta, hlt⟩
    · exact h.ctas cta warps' hold
  · intro cta cta' warps₁ warps₂ x hcta₁ hcta₂ hx₁ hx₂
    rcases hcases cta warps₁ hcta₁ with ⟨rfl, rfl⟩ | ⟨-, hold₁⟩
    · rcases hcases cta' warps₂ hcta₂ with ⟨rfl, rfl⟩ | ⟨-, hold₂⟩
      · rfl
      · exact absurd hx₁ (hother cta' warps₂ x hold₂ hx₂)
    · rcases hcases cta' warps₂ hcta₂ with ⟨rfl, rfl⟩ | ⟨-, hold₂⟩
      · exact absurd hx₂ (hother cta warps₁ x hold₁ hx₁)
      · exact h.disjoint cta cta' warps₁ warps₂ x hold₁ hold₂ hx₁ hx₂
  · intro cta warps' hcta'
    rw [hlog, nonExited_concat, hactive]
    unfold remainingWarps
    dsimp only
    rcases hcases cta warps' hcta' with ⟨rfl, rfl⟩ | ⟨hne, hold⟩
    · rw [if_pos rfl, Finset.inter_union_distrib_left, Finset.inter_self]
      exact (Finset.union_eq_right.mpr Finset.inter_subset_left).symm
    · rw [if_neg hne, h.nonExited cta warps' hold]
      apply Finset.ext
      intro x
      simp only [Finset.mem_inter, Finset.mem_union]
      have hx := hother cta warps' x hold
      tauto
  · intro cta warps' id hcta' a ha
    rw [hgen] at ha
    rw [hbits]
    rcases hcases cta warps' hcta' with ⟨rfl, rfl⟩ | ⟨hne, hold⟩
    · rw [if_pos rfl] at ha
      exact absurd ha List.not_mem_nil
    · rw [if_neg hne] at ha
      have hmem := h.members cta warps' id hold a ha
      exact ⟨hmem.1, hmem.2, fun hnew => hother cta warps' _ hold hmem.1 hnew.2⟩
  · intro cta warps' id hcta' hid x hx hxbit
    rw [hconfig] at hid
    rw [hbits] at hxbit
    rw [hgen]
    rcases hcases cta warps' hcta' with ⟨rfl, rfl⟩ | ⟨hne, hold⟩
    · exact absurd ⟨hid, hx⟩ hxbit.2
    · rw [if_neg hne]
      exact h.fresh cta warps' id hold hid x hx hxbit.1
  · intro cta warps' id hcta'
    rw [hcounts, hgen, hconfig]
    rcases hcases cta warps' hcta' with ⟨rfl, rfl⟩ | ⟨hne, hold⟩
    · rw [if_pos rfl, if_pos rfl]
      rfl
    · rw [if_neg hne, if_neg hne.symm]
      exact h.counts cta warps' id hold
  · intro x
    obtain ⟨s, hs, hphase⟩ := h.waits x
    rw [hlog, waitState_concat, hs]
    refine ⟨s, rfl, hphase.congr (hnamed x) ?_ ?_⟩
    · intro id hat
      rw [hbits]
      apply and_iff_left
      rintro ⟨-, hx⟩
      exact hidle x hx (namedWaiting_iff.mpr ⟨id, hat⟩)
    · rw [hc']
      rfl
  · intro x hx
    obtain ⟨cta, warps', hcta', hxw⟩ := h.homes x ((hwaiting x).mp hx)
    refine ⟨cta, warps', ?_, hxw⟩
    rw [hctas, if_neg]
    · exact hcta'
    · rintro rfl
      rw [hnone] at hcta'
      cases hcta'
  · intro cta warps' id hcta' x hx
    rw [hgen, hbits, hnamed]
    rcases hcases cta warps' hcta' with ⟨rfl, rfl⟩ | ⟨hne, hold⟩
    · rw [if_pos rfl]
      constructor
      · rintro ⟨a, ha, -⟩
        exact absurd ha List.not_mem_nil
      · rintro ⟨hat, -⟩
        exact absurd (namedWaiting_iff.mpr ⟨id, hat⟩) (hidle x hx)
    · rw [if_neg hne, h.waiters cta warps' id hold x hx]
      have hxw := hother cta warps' x hold hx
      simp [hxw]
  · rw [hc']
    exact h.pending
  · intro e he
    have hin : e ∈ c.namedArrivals := by
      rw [hc'] at he
      exact he
    obtain ⟨hon, hwait, warps', hcta', hxw⟩ := h.arrivals e hin
    rw [hactive, hwaiting]
    refine ⟨Finset.mem_union_left _ hon, hwait, warps', ?_, hxw⟩
    rw [hctas, if_neg]
    · exact hcta'
    · rintro heq
      rw [heq, hnone] at hcta'
      cases hcta'
  · intro l₁ l₂ cta id cause ws broadcast hsplit
    rw [hconfig]
    rw [hlog] at hsplit
    rcases split_concat hsplit with ⟨-, hfalse, -⟩ | ⟨l₂', -, hsplit⟩
    · cases hfalse
    · exact h.history l₁ l₂' cta id cause ws broadcast hsplit

theorem NamedInv.deallocate {set : BarrierSet} (h : c.NamedInv [])
    (hset : c.set.deallocateBarrier ctaId = .ok set) (hc' : c' = { c with set := set }) :
    c'.NamedInv [] := by
  unfold deallocateBarrier at hset
  split at hset
  · cases hset
    subst hc'
    exact h
  rename_i warps hcta
  obtain ⟨v, hv, hset⟩ := bind_eq_ok hset
  have ha := aside_cleanup hv
  have hinv : NamedInv { c with set := v } [] := h.aside ha rfl
  obtain ⟨_, hdone, hset⟩ := bind_eq_ok hset
  cases hset
  obtain ⟨hwaits, hexited⟩ := require_ok hdone
  rw [← ha.ctas] at hcta
  generalize hd : { c with set := v } = d at hinv
  have hv' : v = d.set := by rw [← hd]
  rw [hv'] at hwaits hexited hcta
  have hdown : ∀ x ∈ warps, x ∉ d.set.warpAtBarrier ∧ x ∉ d.set.warpActive := by
    intro x hx
    rw [Finset.eq_empty_iff_forall_notMem] at hwaits hexited
    refine ⟨fun hat => hwaits x ?_, fun hon => hexited x ?_⟩
    · exact Finset.mem_inter.mpr ⟨hx, hat⟩
    · exact Finset.mem_inter.mpr ⟨hx, hon⟩
  have hidle : ∀ x ∈ warps, ¬ d.set.NamedWaiting x :=
    fun x hx => not_namedWaiting_of_idle (hdown x hx).1
  have hnamed : ∀ x id, c'.set.NamedAt x id ↔ d.set.NamedAt x id := by
    intro x id
    rw [hc', hv']
    unfold NamedAt Waiting
    dsimp only
    by_cases hx : x ∈ warps
    · rw [if_pos hx]
      constructor
      · exact fun hat => nomatch hat.2
      · exact fun hat => absurd (namedWaiting_iff.mpr ⟨id, hat⟩) (hidle x hx)
    · rw [if_neg hx]
  have hwaiting : ∀ x, c'.set.NamedWaiting x ↔ d.set.NamedWaiting x := by
    intro x
    rw [namedWaiting_iff, namedWaiting_iff]
    simp only [hnamed]
  have hctas : ∀ cta, c'.set.ctaToWarps cta =
      if cta = ctaId then none else d.set.ctaToWarps cta := by
    intro cta
    rw [hc', hv']
    exact Function.update_apply _ _ _ _
  have hbits : ∀ id x, x ∈ c'.set.barIdToWarps id ↔
      x ∈ d.set.barIdToWarps id ∧ ¬ (id < d.set.config.maxBarriersPerCta ∧ x ∈ warps) := by
    intro id x
    rw [hc', hv']
    exact mem_clearBarriers
  have hcounts : ∀ key, c'.set.barIdToCount key =
      if key.1 = ctaId then 0 else d.set.barIdToCount key := by
    intro key
    rw [hc', hv']
  have hset : ∀ {α : Type} (f : BarrierSet → α), f { d.set with
      ctaToWarps := Function.update d.set.ctaToWarps ctaId none
      barIdToWarps := d.set.clearBarriers warps
      barIdToCount := fun key => if key.1 = ctaId then 0 else d.set.barIdToCount key
      warpNamedBarrierId := fun w => if w ∈ warps then none else d.set.warpNamedBarrierId w } =
        f d.set → f c'.set = f d.set := by
    intro α f hf
    rw [hc', hv']
    exact hf
  have hconfig := hset BarrierSet.config rfl
  have hactive := hset BarrierSet.warpActive rfl
  have hreleases := hset BarrierSet.pendingReleases rfl
  have hlog : c'.log = d.log := by
    rw [hc', ← hd]
  -- The CTAs that are left.
  have hcases : ∀ cta warps', c'.set.ctaToWarps cta = some warps' →
      cta ≠ ctaId ∧ d.set.ctaToWarps cta = some warps' ∧ ∀ x ∈ warps', x ∉ warps := by
    intro cta warps' hcta'
    rw [hctas] at hcta'
    split at hcta'
    · cases hcta'
    · rename_i hne
      refine ⟨hne, hcta', fun x hx hxw => ?_⟩
      exact hne (hinv.disjoint cta ctaId warps' warps x hcta' hcta hx hxw)
  constructor
  · intro cta warps' hcta'
    rw [hconfig]
    exact hinv.ctas cta warps' (hcases cta warps' hcta').2.1
  · intro cta cta' warps₁ warps₂ x hcta₁ hcta₂
    exact hinv.disjoint cta cta' warps₁ warps₂ x (hcases cta warps₁ hcta₁).2.1
      (hcases cta' warps₂ hcta₂).2.1
  · intro cta warps' hcta'
    rw [hlog, hactive]
    exact hinv.nonExited cta warps' (hcases cta warps' hcta').2.1
  · intro cta warps' id hcta' a
    obtain ⟨-, hold, hfar⟩ := hcases cta warps' hcta'
    rw [hlog, hbits]
    intro ha'
    have hmem := hinv.members cta warps' id hold a ha'
    exact ⟨hmem.1, hmem.2, fun hboth => hfar _ hmem.1 hboth.2⟩
  · intro cta warps' id hcta' hid x hx hxbit
    rw [hconfig] at hid
    rw [hbits] at hxbit
    rw [hlog]
    exact hinv.fresh cta warps' id (hcases cta warps' hcta').2.1 hid x hx hxbit.1
  · intro cta warps' id hcta'
    obtain ⟨hne, hold, -⟩ := hcases cta warps' hcta'
    rw [hcounts, if_neg hne, hlog, hconfig]
    exact hinv.counts cta warps' id hold
  · intro x
    obtain ⟨s, hs, hphase⟩ := hinv.waits x
    rw [hlog, hreleases]
    refine ⟨s, hs, hphase.congr (hnamed x) ?_ rfl⟩
    intro id hat
    rw [hbits]
    apply and_iff_left
    rintro ⟨-, hx⟩
    exact hidle x hx (namedWaiting_iff.mpr ⟨id, hat⟩)
  · intro x hx
    obtain ⟨cta, warps', hcta', hxw⟩ := hinv.homes x ((hwaiting x).mp hx)
    refine ⟨cta, warps', ?_, hxw⟩
    rw [hctas, if_neg]
    · exact hcta'
    · rintro rfl
      rw [hcta] at hcta'
      cases hcta'
      exact hidle x hxw ((hwaiting x).mp hx)
  · intro cta warps' id hcta' x hx
    obtain ⟨-, hold, hfar⟩ := hcases cta warps' hcta'
    rw [hlog, hbits, hnamed, hinv.waiters cta warps' id hold x hx]
    simp [hfar x hx]
  · rw [← hd] at hinv
    rw [hc']
    exact hinv.pending
  · intro e he
    have hin : e ∈ d.namedArrivals := by
      rw [hc'] at he
      rw [← hd]
      exact he
    obtain ⟨hon, hwait, warps', hcta', hxw⟩ := hinv.arrivals e hin
    rw [hactive, hwaiting]
    refine ⟨hon, hwait, warps', ?_, hxw⟩
    rw [hctas, if_neg]
    · exact hcta'
    · intro heq
      rw [heq, hcta] at hcta'
      cases hcta'
      exact (hdown _ hxw).2 hon
  · rw [hlog, hconfig]
    exact hinv.history

end NamedCore

end FlashGpuSim
