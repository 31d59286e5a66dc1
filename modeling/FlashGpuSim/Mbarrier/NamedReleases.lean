import FlashGpuSim.Lib.History
import FlashGpuSim.Mbarrier.NamedAside

/-!
What holds of the named barriers in every reachable state. The tables count the arrivals of
the current generations, and a warp waits, is released and resumes once each time. The moves
are an arrival, a release, the end of a countdown, an exit, and the start and end of a CTA.
-/

namespace FlashGpuSim

open Lib

/-! ### Histories that grow -/

section History

variable {log : List NamedEvent} {e : NamedEvent} {ctaId barId w : Nat} {ws : List Nat}

theorem generation_concat : generation (log ++ [e]) ctaId barId =
    Arrival.next ctaId barId (generation log ctaId barId) e := by
  unfold generation
  rw [List.foldl_append]
  rfl

theorem nonExited_concat : nonExited (log ++ [e]) ctaId =
    remainingWarps ctaId (nonExited log ctaId) e := by
  unfold nonExited
  rw [List.foldl_append]
  rfl

theorem waitState_concat : waitState (log ++ [e]) w =
    (waitState log w).bind (fun s => s.next w e) := by
  unfold waitState
  rw [List.foldlM_append]
  cases log.foldlM (WaitState.next w) WaitState.idle with
  | none => rfl
  | some s =>
    change List.foldlM (WaitState.next w) s [e] = s.next w e
    rw [List.foldlM_cons]
    cases s.next w e with
    | none => rfl
    | some s' => rfl

theorem generation_resumed : generation (log ++ ws.map .resumed) ctaId barId =
    generation log ctaId barId := by
  induction ws generalizing log with
  | nil => rw [List.map_nil, List.append_nil]
  | cons x ws ih =>
    rw [List.map_cons, List.append_cons, ih, generation_concat]
    rfl

theorem nonExited_resumed : nonExited (log ++ ws.map .resumed) ctaId = nonExited log ctaId := by
  induction ws generalizing log with
  | nil => rw [List.map_nil, List.append_nil]
  | cons x ws ih =>
    rw [List.map_cons, List.append_cons, ih, nonExited_concat]
    rfl

theorem waitState_other (hw : w ∉ ws) :
    waitState (log ++ ws.map .resumed) w = waitState log w := by
  induction ws generalizing log with
  | nil => rw [List.map_nil, List.append_nil]
  | cons x ws ih =>
    rw [List.mem_cons, not_or] at hw
    rw [List.map_cons, List.append_cons, ih hw.2, waitState_concat]
    unfold WaitState.next
    simp [Ne.symm hw.1]

/-- A released warp resumes once. -/
theorem waitState_resumed (hnodup : ws.Nodup) (hw : w ∈ ws)
    (hlog : waitState log w = some .released) :
    waitState (log ++ ws.map .resumed) w = some .idle := by
  induction ws generalizing log with
  | nil => exact absurd hw List.not_mem_nil
  | cons x ws ih =>
    rw [List.nodup_cons] at hnodup
    rw [List.map_cons, List.append_cons]
    rcases List.mem_cons.mp hw with rfl | hw
    · rw [waitState_other hnodup.1, waitState_concat, hlog]
      unfold WaitState.next
      simp
    · apply ih hnodup.2 hw
      have hne : x ≠ w := by
        rintro rfl
        exact hnodup.1 hw
      rw [waitState_concat, hlog]
      unfold WaitState.next
      simp [hne]

end History

namespace BarrierSet

variable {u u' : BarrierSet} {w id : Nat} {ws : List Nat}

theorem mem_namedBarrierWaiters {participants : Finset Nat} :
    w ∈ u.namedBarrierWaiters id participants ↔ w ∈ participants ∧ u.NamedAt w id := by
  unfold namedBarrierWaiters warpIds NamedAt Waiting
  simp only [List.mem_filter, List.mem_range, decide_eq_true_eq]
  tauto

theorem mem_ended : w ∈ u.ended u' ↔ u.NamedWaiting w ∧ ¬ u'.NamedWaiting w := by
  unfold ended warpIds
  rw [List.mem_filter, List.mem_range, decide_eq_true_eq]
  exact and_iff_right_of_imp fun h => h.1.1.1

theorem nodup_ended (u u' : BarrierSet) : (u.ended u').Nodup := List.nodup_range.filter _

/-- A warp waits at one barrier. -/
theorem NamedAt.unique {id' : Nat} (h : u.NamedAt w id) (h' : u.NamedAt w id') : id = id' :=
  Option.some.inj (h.2.symm.trans h'.2)

/-- The waiters of a barrier are let go at once. -/
structure LetGo (u u' : BarrierSet) (ws : List Nat) : Prop where
  config : u'.config = u.config
  ctas : u'.ctaToWarps = u.ctaToWarps
  bits : u'.barIdToWarps = u.barIdToWarps
  counts : u'.barIdToCount = u.barIdToCount
  active : u'.warpActive = u.warpActive
  named : ∀ w id, u'.NamedAt w id ↔ u.NamedAt w id ∧ w ∉ ws
  releases : u'.pendingReleases = u.pendingReleases

theorem namedAt_dropWaiting {x : Nat} : (u.dropWaiting w).NamedAt x id ↔ u.NamedAt x id ∧ x ≠ w := by
  unfold NamedAt Waiting dropWaiting
  dsimp only
  rcases eq_or_ne x w with rfl | hne
  · rw [Function.update_self]
    constructor
    · exact fun h => nomatch h.2
    · exact fun h => absurd rfl h.2
  · rw [Function.update_of_ne hne, Finset.mem_erase]
    tauto

theorem letGo_clear (hlatency : u.config.barrierReleaseLatency = 0)
    (hok : u.clearNamedBarrierWaiters ws = .ok u') : LetGo u u' ws := by
  unfold clearNamedBarrierWaiters at hok
  induction ws generalizing u with
  | nil =>
    cases hok
    exact ⟨rfl, rfl, rfl, rfl, rfl, fun _ _ => (and_iff_left List.not_mem_nil).symm, rfl⟩
  | cons x ws ih =>
    rw [List.foldlM_cons] at hok
    obtain ⟨v, hv, hok⟩ := bind_eq_ok hok
    unfold releaseDelayed at hv
    rw [if_pos hlatency] at hv
    obtain ⟨-, rfl⟩ := clearWarpWaiting_ok hv
    have hlatency' : (u.dropWaiting x).config.barrierReleaseLatency = 0 := hlatency
    have hrest := ih hlatency' hok
    refine ⟨hrest.config, hrest.ctas, hrest.bits, hrest.counts, hrest.active, ?_, hrest.releases⟩
    intro w id
    rw [hrest.named, namedAt_dropWaiting, List.mem_cons, not_or, and_assoc]

/-- With a latency they get a countdown each. -/
theorem countdown_clear {latency : Nat} (hl : u.config.barrierReleaseLatency = latency)
    (hlatency : latency ≠ 0) (hok : u.clearNamedBarrierWaiters ws = .ok u') :
    u' = { u with
      pendingReleases := u.pendingReleases ++ ws.map (PendingWarpRelease.mk latency · .barSync) } := by
  unfold clearNamedBarrierWaiters at hok
  induction ws generalizing u with
  | nil =>
    cases hok
    rw [List.map_nil, List.append_nil]
  | cons x ws ih =>
    rw [List.foldlM_cons] at hok
    obtain ⟨v, hv, hok⟩ := bind_eq_ok hok
    unfold releaseDelayed at hv
    rw [hl, if_neg hlatency] at hv
    cases hv
    rw [ih (by exact hl) hok, List.map_cons, List.append_assoc]
    rfl

end BarrierSet

namespace NamedCore

open BarrierSet

variable {c c' : NamedCore} {hand : List PendingWarpRelease} {w id ctaId : Nat}

/-- The countdowns under way for a warp that waits at a named barrier. -/
def countdownsOf (rs : List PendingWarpRelease) (w : Nat) : Nat :=
  (namedCountdowns rs).countP (fun r => r.warpId = w)

theorem countdownsOf_append {rs rs' : List PendingWarpRelease} :
    countdownsOf (rs ++ rs') w = countdownsOf rs w + countdownsOf rs' w := by
  unfold countdownsOf namedCountdowns
  rw [List.filter_append, List.countP_append]

/-- A warp does not wait, has arrived at the barrier where it waits, or is about to resume. -/
inductive WaitPhase (u : BarrierSet) (countdowns w : Nat) : WaitState → Prop
  | idle (hidle : ¬ u.NamedWaiting w) (hnone : countdowns = 0) : WaitPhase u countdowns w .idle
  | waiting (id : Nat) (hat : u.NamedAt w id) (harrived : w ∈ u.barIdToWarps id)
      (hnone : countdowns = 0) : WaitPhase u countdowns w .waiting
  | released (id : Nat) (hat : u.NamedAt w id) (hleft : w ∉ u.barIdToWarps id)
      (hone : countdowns = 1) : WaitPhase u countdowns w .released

/-- Why the generation of a barrier may end: enough threads, or all warps that are left, have
arrived. -/
def ReleaseCause.Holds (warpSize : Nat) (log : List NamedEvent) (ctaId barId : Nat) :
    ReleaseCause → Prop
  | .arrival ⟨_, _, _, some count⟩ => count ≤
      warpSize * (generation log ctaId barId).countP (fun a => a.barCount.isSome)
  | .arrival ⟨_, _, _, none⟩ | .exit _ =>
    ∀ w ∈ nonExited log ctaId, ∃ a ∈ generation log ctaId barId, a.warpId = w

/-- A release has its cause in the generation that it ends, takes all waiters of that
generation and no others, and reaches all of them that wait for a reduction. -/
structure ReleaseHolds (warpSize : Nat) (log : List NamedEvent) (ctaId barId : Nat)
    (cause : ReleaseCause) (waiters : List Nat) (broadcast : Finset Nat) : Prop where
  cause : ReleaseCause.Holds warpSize log ctaId barId cause
  together : ∀ w, w ∈ waiters ↔
    ∃ a ∈ generation log ctaId barId, a.warpId = w ∧ a.barType ≠ .arrive
  reduced : ∀ a ∈ generation log ctaId barId, a.barType = .red → a.warpId ∈ broadcast

/-- The countdowns in `hand` have ended, and their warps are about to resume. -/
structure NamedInv (c : NamedCore) (hand : List PendingWarpRelease) : Prop where
  ctas : ∀ cta warps, c.set.ctaToWarps cta = some warps →
    cta < c.set.config.maxCtaPerCore ∧ ∀ w ∈ warps, w < c.set.config.maxWarpsPerCore
  disjoint : ∀ cta cta' warps warps' w, c.set.ctaToWarps cta = some warps →
    c.set.ctaToWarps cta' = some warps' → w ∈ warps → w ∈ warps' → cta = cta'
  nonExited : ∀ cta warps, c.set.ctaToWarps cta = some warps →
    nonExited c.log cta = warps ∩ c.set.warpActive
  members : ∀ cta warps id, c.set.ctaToWarps cta = some warps →
    ∀ a ∈ generation c.log cta id, a.warpId ∈ warps ∧ a.warpId ∈ c.set.barIdToWarps id
  fresh : ∀ cta warps id, c.set.ctaToWarps cta = some warps →
    id < c.set.config.maxBarriersPerCta → c.Fresh cta id warps
  counts : ∀ cta warps id, c.set.ctaToWarps cta = some warps → c.set.barIdToCount (cta, id) =
    c.set.config.warpSize * (generation c.log cta id).countP (fun a => a.barCount.isSome)
  waits : ∀ w, ∃ s, waitState c.log w = some s ∧
    WaitPhase c.set (countdownsOf (c.set.pendingReleases ++ hand) w) w s
  homes : ∀ w, c.set.NamedWaiting w → ∃ cta warps, c.set.ctaToWarps cta = some warps ∧ w ∈ warps
  waiters : ∀ cta warps id, c.set.ctaToWarps cta = some warps → ∀ w ∈ warps,
    (∃ a ∈ generation c.log cta id, a.warpId = w ∧ a.barType ≠ .arrive) ↔
      c.set.NamedAt w id ∧ w ∈ c.set.barIdToWarps id
  pending : ∀ w, c.pendingArrivals w = c.namedArrivals.countP (fun e => e.warpId = w)
  arrivals : ∀ e ∈ c.namedArrivals, e.warpId ∈ c.set.warpActive ∧
    ¬ c.set.NamedWaiting e.warpId ∧ c.set.InCta e.ctaId e.warpId
  history : ∀ l₁ l₂ cta id cause ws broadcast,
    c.log = l₁ ++ .released cta id cause ws broadcast :: l₂ →
    ReleaseHolds c.set.config.warpSize l₁ cta id cause ws broadcast

theorem WaitPhase.congr {u u' : BarrierSet} {n n' : Nat} {s : WaitState} (h : WaitPhase u n w s)
    (hnamed : ∀ id, u'.NamedAt w id ↔ u.NamedAt w id)
    (hbits : ∀ id, u.NamedAt w id → (w ∈ u'.barIdToWarps id ↔ w ∈ u.barIdToWarps id))
    (hn : n' = n) : WaitPhase u' n' w s := by
  cases h with
  | idle hidle hnone =>
    apply WaitPhase.idle _ (hn.trans hnone)
    rw [namedWaiting_iff] at hidle ⊢
    simp only [hnamed]
    exact hidle
  | waiting id hat harrived hnone =>
    exact .waiting id ((hnamed id).mpr hat) ((hbits id hat).mpr harrived) (hn.trans hnone)
  | released id hat hleft hone =>
    refine .released id ((hnamed id).mpr hat) ?_ (hn.trans hone)
    rw [hbits id hat]
    exact hleft

/-! ### What happens elsewhere -/

/-- The countdowns may move to and from the hand. -/
theorem NamedInv.countdowns {set : BarrierSet} {hand' : List PendingWarpRelease}
    (h : c.NamedInv hand)
    (ha : Aside c.set { set with pendingReleases := c.set.pendingReleases })
    (hcount : ∀ w, countdownsOf (set.pendingReleases ++ hand') w =
      countdownsOf (c.set.pendingReleases ++ hand) w)
    (hc' : c' = { c with set := set }) : c'.NamedInv hand' := by
  have hconfig : set.config = c.set.config := ha.config
  have hctas : set.ctaToWarps = c.set.ctaToWarps := ha.ctas
  have hbits : set.barIdToWarps = c.set.barIdToWarps := ha.bits
  have hcounts : set.barIdToCount = c.set.barIdToCount := ha.counts
  have hactive : set.warpActive = c.set.warpActive := ha.active
  have hnamed : ∀ w id, set.NamedAt w id ↔ c.set.NamedAt w id := ha.named
  have hwaiting : ∀ w, set.NamedWaiting w ↔ c.set.NamedWaiting w := fun _ => ha.namedWaiting
  subst hc'
  constructor
  · rw [hctas, hconfig]
    exact h.ctas
  · rw [hctas]
    exact h.disjoint
  · rw [hctas, hactive]
    exact h.nonExited
  · rw [hctas, hbits]
    exact h.members
  · unfold Fresh
    rw [hctas, hconfig, hbits]
    exact h.fresh
  · rw [hctas, hconfig, hcounts]
    exact h.counts
  · intro w
    obtain ⟨s, hs, hphase⟩ := h.waits w
    refine ⟨s, hs, hphase.congr (hnamed w) ?_ (hcount w)⟩
    intro id _
    rw [hbits]
  · intro w hw
    rw [hctas]
    exact h.homes w ((hwaiting w).mp hw)
  · intro cta warps id hcta w hw
    rw [hctas] at hcta
    rw [hbits, hnamed]
    exact h.waiters cta warps id hcta w hw
  · exact h.pending
  · intro e he
    unfold InCta
    rw [hctas, hactive, hwaiting]
    exact h.arrivals e he
  · rw [hconfig]
    exact h.history

theorem NamedInv.aside {set : BarrierSet} (h : c.NamedInv hand) (ha : Aside c.set set)
    (hc' : c' = { c with set := set }) : c'.NamedInv hand := by
  apply h.countdowns _ _ hc'
  · exact ⟨ha.config, ha.ctas, ha.bits, ha.counts, ha.active, ha.named, rfl⟩
  · intro w
    rw [countdownsOf_append, countdownsOf_append]
    unfold countdownsOf
    rw [ha.countdowns]

end NamedCore

end FlashGpuSim
