import FlashGpuSim.Cluster.ClusterPhases

/-!
The cluster barrier over whole runs. While the phase counters do not wrap, a warp is released
once for each wait, when all live warps of its group have arrived as often, and nobody waits
longer than that.
-/

namespace FlashGpuSim

open Lib

namespace ClusterBarriers

variable {c₀ c d : ClusterBarriers} {localSm cta warp : Nat}

/-! ### The operations before they look at the barriers -/

theorem ReleasedInTurn.concat {log : List ClusterBarEvent} {e : ClusterBarEvent}
    (h : c₀.ReleasedInTurn log) (he : ∀ key, e ≠ .released key) :
    c₀.ReleasedInTurn (log ++ [e]) := by
  intro l₁ key l₂ hsplit
  rcases split_concat hsplit with ⟨-, heq, -⟩ | ⟨l₂', -, hlog⟩
  · exact absurd heq.symm (he key)
  · exact h l₁ key l₂' hlog

theorem Issues.sits (h : c.Issues localSm cta warp) :
    c.Sits (c.layout.ctaGroup localSm cta) ⟨localSm, cta, warp⟩ :=
  ⟨h.1, h.2.1, h.2.2.1, h.2.2.2.1, rfl, h.2.2.2.2.1⟩

/-- An event that is no exit does not end a warp. -/
theorem exited_concat {key : ClusterBarKey} {e : ClusterBarEvent} (he : ∀ key, e ≠ .exited key) :
    .exited key ∈ c.log ++ [e] ↔ .exited key ∈ c.log := by
  rw [List.mem_append, List.mem_singleton]
  constructor
  · rintro (hin | heq)
    · exact hin
    · exact absurd heq.symm (he key)
  · exact .inl

theorem Inv.arrive (h : Inv c₀ c) (hissues : c.Issues localSm cta warp)
    (hbound : ((c.phases (localSm, warp)).getD {}).completed + 1 < 2 ^ 32)
    {phase : ClusterBarPhase} (hphase : phase =
      if ((c.phases (localSm, warp)).getD {}).arrived =
          ((c.phases (localSm, warp)).getD {}).completed then
        { (c.phases (localSm, warp)).getD {} with
          arrived := (((c.phases (localSm, warp)).getD {}).completed + 1) % 2 ^ 32 }
      else (c.phases (localSm, warp)).getD {}) :
    Inv c₀ { c with
      phases := Function.update c.phases (localSm, warp) (some phase)
      log := c.log ++ [ClusterBarEvent.arrived (localSm, warp)] } := by
  have hexit : ∀ key, ClusterBarEvent.exited key ∈ c.log ++ [ClusterBarEvent.arrived (localSm, warp)] ↔
      .exited key ∈ c.log := fun key => exited_concat (fun _ => nofun)
  refine ⟨h.start, h.layout, ?_, ?_, h.history.concat (fun _ => nofun)⟩
  · intro group key
    rw [hexit]
    exact h.live group key
  · intro key
    obtain ⟨p, hp, ht⟩ := h.progress key
    dsimp only
    rw [clusterProgress_concat, hp]
    rcases eq_or_ne key (localSm, warp) with rfl | hne
    · have hnot := ((h.live _ _).mp hissues.sits.live).2
      have hat := ht.phase hnot
      rw [show (localSm, warp) = (⟨localSm, cta, warp⟩ : ClusterBarrierWaiter).key from rfl] at hat
      rw [show (localSm, warp) = (⟨localSm, cta, warp⟩ : ClusterBarrierWaiter).key from rfl, hat]
        at hphase
      rw [show (localSm, warp) = (⟨localSm, cta, warp⟩ : ClusterBarrierWaiter).key from rfl, hat]
        at hbound
      dsimp only at hphase hbound
      rw [Nat.mod_eq_of_lt hbound] at hphase
      by_cases heq : p.arrivals = p.releases
      · rw [if_pos heq] at hphase
        refine ⟨{ p with arrivals := p.releases + 1 }, ?_, ?_⟩
        · simp [ClusterProgress.next, heq]
        · refine ⟨?_, ?_, ⟨Nat.le_succ _, le_refl _⟩, hbound, ht.next⟩
          · intro _
            dsimp only
            rw [Function.update_self, hphase]
            rfl
          · intro hx
            rw [hexit] at hx
            exact ht.waiting hx
      · rw [if_neg heq] at hphase
        refine ⟨p, ?_, ?_⟩
        · simp [ClusterProgress.next, heq]
        · refine ⟨?_, ?_, ht.order, ht.bound, ht.next⟩
          · intro _
            dsimp only
            rw [Function.update_self, hphase]
            rfl
          · intro hx
            rw [hexit] at hx
            exact ht.waiting hx
    · refine ⟨p, ?_, ?_⟩
      · simp [ClusterProgress.next, hne.symm]
      · refine ⟨?_, ?_, ht.order, ht.bound, ht.next⟩
        · intro hx
          rw [hexit] at hx
          dsimp only
          rw [Function.update_of_ne hne]
          exact ht.phase hx
        · intro hx
          rw [hexit] at hx
          exact ht.waiting hx

theorem Inv.wait (h : Inv c₀ c) (hissues : c.Issues localSm cta warp)
    (hbound : ((c.phases (localSm, warp)).getD {}).completed + 1 < 2 ^ 32)
    (waiters : Nat → List ClusterBarrierWaiter) (groups : List Nat) :
    Inv c₀ { c with
      atBarrier := insert (localSm, warp) c.atBarrier
      waiters := waiters
      groups := groups
      log := c.log ++ [ClusterBarEvent.waited (localSm, warp)] } := by
  have hexit : ∀ key, ClusterBarEvent.exited key ∈ c.log ++ [ClusterBarEvent.waited (localSm, warp)] ↔
      .exited key ∈ c.log := fun key => exited_concat (fun _ => nofun)
  refine ⟨h.start, h.layout, ?_, ?_, h.history.concat (fun _ => nofun)⟩
  · intro group key
    rw [hexit]
    exact h.live group key
  · intro key
    obtain ⟨p, hp, ht⟩ := h.progress key
    dsimp only
    rw [clusterProgress_concat, hp]
    rcases eq_or_ne key (localSm, warp) with rfl | hne
    · have hnot : ClusterBarEvent.exited (localSm, warp) ∉ c.log :=
        ((h.live _ _).mp hissues.sits.live).2
      have hidle : p.waiting = false := by
        rw [Bool.eq_false_iff, ne_eq, ht.waiting hnot]
        exact hissues.2.2.2.2.2
      rw [ht.phase hnot] at hbound
      refine ⟨{ p with waiting := true }, ?_, ?_⟩
      · simp [ClusterProgress.next, hidle]
      · refine ⟨?_, ?_, ht.order, ht.bound, fun _ => hbound⟩
        · intro hx
          exact ht.phase hnot
        · intro _
          simp
    · refine ⟨p, ?_, ?_⟩
      · simp [ClusterProgress.next, hne.symm]
      · refine ⟨?_, ?_, ht.order, ht.bound, ht.next⟩
        · intro hx
          rw [hexit] at hx
          exact ht.phase hx
        · intro hx
          rw [hexit] at hx
          rw [ht.waiting hx]
          simp [hne]

theorem Seated.wait (hs : Seated c) (h : Inv c₀ c) (hissues : c.Issues localSm cta warp)
    (log : List ClusterBarEvent) :
    Seated { c with
      atBarrier := insert (localSm, warp) c.atBarrier
      waiters := Function.update c.waiters (c.layout.ctaGroup localSm cta)
        (c.waiters (c.layout.ctaGroup localSm cta) ++ [⟨localSm, cta, warp⟩])
      groups := if c.layout.ctaGroup localSm cta ∈ c.groups then c.groups
        else c.groups ++ [c.layout.ctaGroup localSm cta]
      log := log } := by
  have hsits := hissues.sits
  generalize c.layout.ctaGroup localSm cta = g at hsits ⊢
  generalize hd : ({ c with
      atBarrier := insert (localSm, warp) c.atBarrier
      waiters := Function.update c.waiters g (c.waiters g ++ [⟨localSm, cta, warp⟩])
      groups := if g ∈ c.groups then c.groups else c.groups ++ [g]
      log := log } : ClusterBarriers) = d
  have hsame : SameWarps c d := by
    rw [← hd]
    exact ⟨rfl, rfl, rfl, rfl⟩
  have hat : d.atBarrier = insert (localSm, warp) c.atBarrier := by rw [← hd]
  have hwaiters : d.waiters = Function.update c.waiters g
      (c.waiters g ++ [⟨localSm, cta, warp⟩]) := by rw [← hd]
  have hmem : ∀ {group w}, w ∈ d.waiters group ↔
      w ∈ c.waiters group ∨ (group = g ∧ w = ⟨localSm, cta, warp⟩) := by
    intro group w
    rw [hwaiters]
    rcases eq_or_ne group g with rfl | hne
    · simp
    · simp [hne]
  refine ⟨?_, ?_, ?_, ?_⟩
  · intro group w hw
    rw [hat, Finset.mem_insert]
    rcases hmem.mp hw with hw | ⟨rfl, rfl⟩
    · obtain ⟨hx, hin⟩ := hs.sits group w hw
      exact ⟨hsame.sits hx, .inr hin⟩
    · exact ⟨hsame.sits hsits, .inl rfl⟩
  · intro group key hlive hin
    rw [hsame.liveWarps] at hlive
    rw [hat, Finset.mem_insert] at hin
    rcases hin with rfl | hin
    · obtain ⟨w, hw, hkey⟩ := mem_liveWarps.mp hlive
      obtain ⟨rfl, rfl⟩ := hw.unique h.disjoint hsits hkey
      exact ⟨_, hmem.mpr (.inr ⟨rfl, rfl⟩), rfl⟩
    · obtain ⟨w, hw, rfl⟩ := hs.seated group key hlive hin
      exact ⟨w, hmem.mpr (.inl hw), rfl⟩
  · intro group
    rw [hwaiters]
    rcases eq_or_ne group g with rfl | hne
    · rw [Function.update_self, List.map_append, List.nodup_append]
      refine ⟨hs.nodup group, List.nodup_singleton _, ?_⟩
      intro x hx y hy heq
      obtain ⟨w, hw, rfl⟩ := List.mem_map.mp hx
      obtain rfl := List.mem_singleton.mp hy
      apply hissues.2.2.2.2.2
      have hin := (hs.sits group w hw).2
      rw [heq] at hin
      exact hin
    · rw [Function.update_of_ne hne]
      exact hs.nodup group
  · intro group hsome
    rw [← hd]
    dsimp only
    rw [hwaiters] at hsome
    rcases eq_or_ne group g with rfl | hne
    · split
      · assumption
      · exact List.mem_append_right _ List.mem_cons_self
    · rw [Function.update_of_ne hne] at hsome
      have hin := hs.groups group hsome
      split
      · exact hin
      · exact List.mem_append_left _ hin

/-- The waiters but for those of one warp. -/
theorem keep_eq (ws : List ClusterBarrierWaiter) :
    ws.filter (fun w => !(w.localSm == localSm && w.warp == warp)) =
      ws.filter fun w => decide (w.key ≠ (localSm, warp)) := by
  apply List.filter_congr
  intro w _
  rw [Bool.eq_iff_iff]
  unfold ClusterBarrierWaiter.key
  simp

/-- The exited warp is no longer live. -/
theorem sits_exit {group : Nat} {w : ClusterBarrierWaiter} (hlayout : d.layout = c.layout)
    (hactive : d.ctaActive = c.ctaActive)
    (hwarps : d.warpActive =
      Function.update c.warpActive localSm ((c.warpActive localSm).erase warp)) :
    d.Sits group w ↔ c.Sits group w ∧ w.key ≠ (localSm, warp) := by
  have hmask : w.warp ∈ d.activeWarpMask w.localSm w.cta ↔
      w.warp ∈ c.activeWarpMask w.localSm w.cta ∧ w.key ≠ (localSm, warp) := by
    unfold activeWarpMask ClusterBarrierWaiter.key
    rw [hlayout, hwarps, Finset.mem_inter, Finset.mem_inter]
    rcases eq_or_ne w.localSm localSm with heq | hne
    · rw [heq, Function.update_self, Finset.mem_erase]
      simp only [ne_eq, Prod.mk.injEq, true_and]
      tauto
    · rw [Function.update_of_ne hne]
      simp [hne]
  constructor
  · rintro ⟨hsm, hslot, hw, hin, hgroup, hm⟩
    obtain ⟨hm, hne⟩ := hmask.mp hm
    rw [hlayout] at hsm hslot hw hgroup
    rw [hactive] at hin
    exact ⟨⟨hsm, hslot, hw, hin, hgroup, hm⟩, hne⟩
  · rintro ⟨⟨hsm, hslot, hw, hin, hgroup, hm⟩, hne⟩
    have hm := hmask.mpr ⟨hm, hne⟩
    rw [← hlayout] at hsm hslot hw hgroup
    rw [← hactive] at hin
    exact ⟨hsm, hslot, hw, hin, hgroup, hm⟩

theorem liveWarps_exit {group : Nat} {key : ClusterBarKey} (hlayout : d.layout = c.layout)
    (hactive : d.ctaActive = c.ctaActive)
    (hwarps : d.warpActive =
      Function.update c.warpActive localSm ((c.warpActive localSm).erase warp)) :
    key ∈ d.liveWarps group ↔ key ∈ c.liveWarps group ∧ key ≠ (localSm, warp) := by
  rw [mem_liveWarps, mem_liveWarps]
  simp only [sits_exit hlayout hactive hwarps]
  constructor
  · rintro ⟨w, ⟨hw, hne⟩, rfl⟩
    exact ⟨⟨w, hw, rfl⟩, hne⟩
  · rintro ⟨⟨w, hw, rfl⟩, hne⟩
    exact ⟨w, ⟨hw, hne⟩, rfl⟩

theorem Inv.exit (h : Inv c₀ c) (hlayout : d.layout = c.layout)
    (hactive : d.ctaActive = c.ctaActive)
    (hwarps : d.warpActive =
      Function.update c.warpActive localSm ((c.warpActive localSm).erase warp))
    (hphases : d.phases = Function.update c.phases (localSm, warp) none)
    (hat : d.atBarrier = c.atBarrier) (hlog : d.log = c.log ++ [ClusterBarEvent.exited (localSm, warp)]) :
    Inv c₀ d := by
  have hexit : ∀ key, ClusterBarEvent.exited key ∈ d.log ↔
      .exited key ∈ c.log ∨ key = (localSm, warp) := by
    intro key
    rw [hlog]
    simp
  refine ⟨h.start, hlayout.trans h.layout, ?_, ?_, ?_⟩
  · intro group key
    rw [liveWarps_exit hlayout hactive hwarps, h.live, hexit, not_or, and_assoc]
  · intro key
    obtain ⟨p, hp, ht⟩ := h.progress key
    rw [hlog, clusterProgress_concat, hp]
    rcases eq_or_ne key (localSm, warp) with rfl | hne
    · refine ⟨{ p with waiting := false }, by simp [ClusterProgress.next], ?_⟩
      have hin := (hexit (localSm, warp)).mpr (.inr rfl)
      refine ⟨fun hx => absurd hin hx, fun hx => absurd hin hx, ht.order, ht.bound, ?_⟩
      intro hwait
      cases hwait
    · refine ⟨p, by simp [ClusterProgress.next, hne.symm], ?_⟩
      refine ⟨?_, ?_, ht.order, ht.bound, ht.next⟩
      · intro hx
        rw [hexit, not_or] at hx
        rw [hphases, Function.update_of_ne hne]
        exact ht.phase hx.1
      · intro hx
        rw [hexit, not_or] at hx
        rw [hat]
        exact ht.waiting hx.1
  · rw [hlog]
    apply h.history.concat
    intro key hevent
    cases hevent

theorem Seated.exit (hs : Seated c) (hlayout : d.layout = c.layout)
    (hactive : d.ctaActive = c.ctaActive)
    (hwarps : d.warpActive =
      Function.update c.warpActive localSm ((c.warpActive localSm).erase warp))
    (hat : d.atBarrier = c.atBarrier)
    (hwaiters : d.waiters = fun group => (c.waiters group).filter fun w =>
      decide (w.key ≠ (localSm, warp)))
    (hgroups : d.groups = c.groups.filter fun group => decide (d.waiters group ≠ [])) :
    Seated d := by
  have hmem : ∀ {group w}, w ∈ d.waiters group ↔
      w ∈ c.waiters group ∧ w.key ≠ (localSm, warp) := by
    intro group w
    rw [hwaiters, List.mem_filter, decide_eq_true_eq]
  refine ⟨?_, ?_, ?_, ?_⟩
  · intro group w hw
    obtain ⟨hw, hne⟩ := hmem.mp hw
    obtain ⟨hsits, hin⟩ := hs.sits group w hw
    exact ⟨(sits_exit hlayout hactive hwarps).mpr ⟨hsits, hne⟩, hat ▸ hin⟩
  · intro group key hlive hin
    obtain ⟨hlive, hne⟩ := (liveWarps_exit hlayout hactive hwarps).mp hlive
    rw [hat] at hin
    obtain ⟨w, hw, rfl⟩ := hs.seated group key hlive hin
    exact ⟨w, hmem.mpr ⟨hw, hne⟩, rfl⟩
  · intro group
    rw [hwaiters]
    exact (hs.nodup group).sublist (List.filter_sublist.map _)
  · intro group hsome
    rw [hgroups, List.mem_filter]
    refine ⟨hs.groups group ?_, decide_eq_true hsome⟩
    intro hnil
    apply hsome
    rw [hwaiters]
    dsimp only
    rw [hnil]
    rfl

/-- A finished CTA had no live warp. -/
theorem sits_finish {slot group : Nat} {w : ClusterBarrierWaiter}
    (hempty : c.activeWarpMask localSm slot = ∅) :
    Sits { c with
      ctaActive := Function.update c.ctaActive localSm
        (Function.update (c.ctaActive localSm) slot false) } group w ↔ c.Sits group w := by
  have hactive : w.warp ∈ c.activeWarpMask w.localSm w.cta →
      Function.update c.ctaActive localSm (Function.update (c.ctaActive localSm) slot false)
        w.localSm w.cta = c.ctaActive w.localSm w.cta := by
    intro hm
    rcases eq_or_ne w.localSm localSm with rfl | hne
    · rw [Function.update_self]
      apply Function.update_of_ne
      rintro rfl
      rw [hempty] at hm
      exact absurd hm (Finset.notMem_empty _)
    · rw [Function.update_of_ne hne]
  constructor
  · rintro ⟨hsm, hslot, hw, hin, hgroup, hm⟩
    exact ⟨hsm, hslot, hw, hactive hm ▸ hin, hgroup, hm⟩
  · rintro ⟨hsm, hslot, hw, hin, hgroup, hm⟩
    exact ⟨hsm, hslot, hw, (hactive hm).trans hin, hgroup, hm⟩

/-- States that differ in nothing that the invariant speaks about. -/
theorem Inv.congr (h : Inv c₀ c) (hlayout : d.layout = c.layout)
    (hsits : ∀ group w, d.Sits group w ↔ c.Sits group w) (hphases : d.phases = c.phases)
    (hat : d.atBarrier = c.atBarrier) (hlog : d.log = c.log) : Inv c₀ d := by
  refine ⟨h.start, hlayout.trans h.layout, ?_, ?_, hlog ▸ h.history⟩
  · intro group key
    rw [mem_liveWarps, hlog, ← h.live, mem_liveWarps]
    simp only [hsits]
  · intro key
    obtain ⟨p, hp, ht⟩ := h.progress key
    refine ⟨p, hlog ▸ hp, ?_, ?_, ht.order, ht.bound, ht.next⟩
    · rw [hlog, hphases]
      exact ht.phase
    · rw [hlog, hat]
      exact ht.waiting

theorem Seated.congr (hs : Seated c) (hsits : ∀ group w, d.Sits group w ↔ c.Sits group w)
    (hat : d.atBarrier = c.atBarrier) (hwaiters : d.waiters = c.waiters)
    (hgroups : ∀ group, group ∈ c.groups → group ∈ d.groups) : Seated d := by
  refine ⟨?_, ?_, ?_, ?_⟩
  · intro group w hw
    rw [hwaiters] at hw
    rw [hsits, hat]
    exact hs.sits group w hw
  · intro group key hlive hin
    rw [mem_liveWarps] at hlive
    simp only [hsits] at hlive
    rw [hat] at hin
    rw [hwaiters]
    exact hs.seated group key (mem_liveWarps.mpr hlive) hin
  · rw [hwaiters]
    exact hs.nodup
  · intro group hsome
    rw [hwaiters] at hsome
    exact hgroups group (hs.groups group hsome)

/-! ### Runs -/

/-- The phase counters of the warp do not wrap. -/
def Bounded (c : ClusterBarriers) : ClusterBarOp → Prop
  | .arrive localSm _ warp | .wait localSm _ warp =>
    ((c.phases (localSm, warp)).getD {}).completed + 1 < 2 ^ 32
  | _ => True

instance : (o : ClusterBarOp) → Decidable (c.Bounded o)
  | .arrive localSm _ warp | .wait localSm _ warp =>
    inferInstanceAs (Decidable (((c.phases (localSm, warp)).getD {}).completed + 1 < 2 ^ 32))
  | .exit _ _ | .finish _ _ | .dsm _ _ | .rehash _ => .isTrue trivial

/-- An operation succeeds, and if it looks at the barriers nobody is left who may go. -/
theorem Inv.step {o : ClusterBarOp} (h : Inv c₀ c) (hs : Seated c) (hallowed : c.allowed o)
    (hbound : c.Bounded o) :
    ∃ d, c.step o = .ok d ∧ Inv c₀ d ∧ Seated d ∧
      (rechecks o = true → ∀ group, d.readyWaiters group = []) := by
  have hlook : ∀ {e}, Inv c₀ e → Seated e → e.releaseReadyClusterBarriers = c.step o →
      ∃ d, c.step o = .ok d ∧ Inv c₀ d ∧ Seated d ∧
        (rechecks o = true → ∀ group, d.readyWaiters group = []) := by
    intro e he hse heq
    obtain ⟨d, hd, hinv, hseated, hdone⟩ := he.releaseReady hse
    exact ⟨d, heq ▸ hd, hinv, hseated, fun _ => hdone⟩
  cases o with
  | arrive localSm cta warp =>
    refine hlook (h.arrive hallowed hbound rfl) ?_ rfl
    exact hs.congr (fun _ _ => ⟨fun hx => ⟨hx.1, hx.2, hx.3, hx.4, hx.5, hx.6⟩,
      fun hx => ⟨hx.1, hx.2, hx.3, hx.4, hx.5, hx.6⟩⟩) rfl rfl (fun _ hx => hx)
  | wait localSm cta warp =>
    have hidle : (localSm, warp) ∉ c.atBarrier := hallowed.2.2.2.2.2
    have hnot : ((c.waiters (c.layout.ctaGroup localSm cta)).any fun w =>
        w.localSm == localSm && w.warp == warp) = false := by
      rw [List.any_eq_false]
      intro w hw hsame
      rw [Bool.and_eq_true, beq_iff_eq, beq_iff_eq] at hsame
      obtain ⟨rfl, rfl⟩ := hsame
      exact hidle (hs.sits _ w hw).2
    refine hlook (h.wait hallowed hbound _ _) (hs.wait h hallowed _) ?_
    unfold ClusterBarriers.step clusterBarrierWait
    dsimp only
    rw [require_pass hallowed.2.2.2.1, require_pass (decide_eq_true hidle), hnot]
    rfl
  | exit localSm warp =>
    generalize he : ({ c with
      warpActive := Function.update c.warpActive localSm ((c.warpActive localSm).erase warp)
      phases := Function.update c.phases (localSm, warp) none
      waiters := fun group => (c.waiters group).filter fun w =>
        !(w.localSm == localSm && w.warp == warp)
      groups := c.groups.filter fun group => (c.waiters group).filter
        (fun w => !(w.localSm == localSm && w.warp == warp)) ≠ []
      log := c.log ++ [ClusterBarEvent.exited (localSm, warp)] } : ClusterBarriers) = e
    refine hlook (e := e) ?_ ?_ ?_
    · rw [← he]
      exact h.exit rfl rfl rfl rfl rfl rfl
    · rw [← he]
      refine hs.exit rfl rfl rfl rfl ?_ rfl
      funext group
      exact keep_eq _
    · rw [← he]
      rfl
  | finish localSm slot =>
    generalize he : ({ c with
      ctaActive := Function.update c.ctaActive localSm
        (Function.update (c.ctaActive localSm) slot false) } : ClusterBarriers) = e
    have hsits : ∀ group w, e.Sits group w ↔ c.Sits group w := by
      rw [← he]
      exact fun group w => sits_finish hallowed
    refine hlook (e := e) ?_ ?_ ?_
    · apply h.congr _ hsits <;> rw [← he]
    · apply hs.congr hsits <;> rw [← he]
      exact fun _ hx => hx
    · rw [← he]
      rfl
  | dsm busy recheck =>
    have hsits : ∀ group w, Sits { c with dsmBusy := busy } group w ↔ c.Sits group w :=
      fun _ _ => ⟨fun hx => ⟨hx.1, hx.2, hx.3, hx.4, hx.5, hx.6⟩,
        fun hx => ⟨hx.1, hx.2, hx.3, hx.4, hx.5, hx.6⟩⟩
    have hinv : Inv c₀ { c with dsmBusy := busy } := h.congr rfl hsits rfl rfl rfl
    have hseated : Seated { c with dsmBusy := busy } := hs.congr hsits rfl rfl (fun _ hx => hx)
    cases recheck with
    | true => exact hlook hinv hseated rfl
    | false => exact ⟨_, rfl, hinv, hseated, nofun⟩
  | rehash groups =>
    have hsits : ∀ group w, Sits { c with groups := groups } group w ↔ c.Sits group w :=
      fun _ _ => ⟨fun hx => ⟨hx.1, hx.2, hx.3, hx.4, hx.5, hx.6⟩,
        fun hx => ⟨hx.1, hx.2, hx.3, hx.4, hx.5, hx.6⟩⟩
    refine ⟨_, rfl, h.congr rfl hsits rfl rfl rfl, hs.congr hsits rfl rfl ?_, nofun⟩
    exact fun group hx => hallowed.mem_iff.mpr hx

theorem Start.inv (h : c₀.Start) : Inv c₀ c₀ ∧ Seated c₀ := by
  obtain ⟨hat, hphases, hgroups, hwaiters, hlog⟩ := h.fresh
  refine ⟨⟨h, rfl, ?_, ?_, ?_⟩, ⟨?_, ?_, ?_, ?_⟩⟩
  · intro group key
    rw [hlog]
    simp
  · intro key
    refine ⟨{}, by rw [hlog]; rfl, ?_, ?_, ⟨le_refl _, Nat.le_succ _⟩, by simp, nofun⟩
    · intro _
      rw [hphases]
      rfl
    · intro _
      rw [hat]
      simp
  · intro l₁ key l₂ hsplit
    rw [hlog] at hsplit
    simp at hsplit
  · intro group w hw
    rw [hwaiters] at hw
    exact absurd hw List.not_mem_nil
  · intro group key _ hin
    rw [hat] at hin
    exact absurd hin (Finset.notMem_empty _)
  · intro group
    rw [hwaiters]
    exact List.nodup_nil
  · intro group hsome
    rw [hwaiters] at hsome
    exact absurd rfl hsome

/-- Nobody waits for a phase at which all live warps of the group have arrived, unless a CTA that
waits has DSM work. -/
def Settled (c : ClusterBarriers) : Prop :=
  ∀ group phase,
    (∀ w, c.Sits group w → w.key ∈ c.atBarrier → c.dsmBusy w.localSm w.cta = false) →
    (∀ key ∈ c.liveWarps group, ∃ p, clusterProgress c.log key = some p ∧ phase ≤ p.arrivals) →
    ∀ key ∈ c.liveWarps group, ∀ p, clusterProgress c.log key = some p → p.waiting = true →
      p.releases + 1 ≠ phase

theorem Inv.settled (h : Inv c₀ c) (hs : Seated c) (hdone : ∀ group, c.readyWaiters group = []) :
    c.Settled := by
  intro group phase hbusy harrived key hlive p hp hwaiting heq
  obtain ⟨q, hq, ht⟩ := h.progress key
  obtain rfl : p = q := Option.some.inj (hp.symm.trans hq)
  have hnot := ((h.live group key).mp hlive).2
  obtain ⟨w, hw, rfl⟩ := hs.seated group key hlive ((ht.waiting hnot).mp hwaiting)
  have hready : (w, phase) ∈ c.readyWaiters group := by
    refine h.mem_readyWaiters.mpr ⟨List.ne_nil_of_mem hlive, ?_, hw, ?_, ?_⟩
    · intro x hx
      obtain ⟨hsits, hin⟩ := hs.sits group x hx
      exact hbusy x hsits hin
    · unfold required
      dsimp only
      rw [ht.phase hnot, ← heq]
      exact (Nat.mod_eq_of_lt (ht.next hwaiting)).symm
    · intro other hother
      obtain ⟨x, hx, hle⟩ := harrived other hother
      obtain ⟨y, hy, hty⟩ := h.progress other
      obtain rfl : x = y := Option.some.inj (hx.symm.trans hy)
      have hphase := hty.phase ((h.live group other).mp hother).2
      unfold arrivedAt
      cases hz : c.phases other with
      | none =>
        rw [hz] at hphase
        have hzero : x.arrivals = 0 := (congrArg ClusterBarPhase.arrived hphase).symm
        omega
      | some z =>
        rw [hz] at hphase
        obtain rfl : z = ⟨x.arrivals, x.releases⟩ := hphase
        exact decide_eq_true hle
  rw [hdone] at hready
  exact absurd hready List.not_mem_nil

theorem reaches_inv (hstart : c₀.Start)
    (hrun : Reaches step (fun c o => c.allowed o ∧ c.Bounded o) c₀ c) : Inv c₀ c ∧ Seated c := by
  apply hrun.invariant (fun c => Inv c₀ c ∧ Seated c) hstart.inv
  rintro c d o ⟨h, hs⟩ ⟨hallowed, hbound⟩ hok
  obtain ⟨e, he, hinv, hseated, -⟩ := h.step hs hallowed hbound
  obtain rfl : e = d := Except.ok.inj (he.symm.trans hok)
  exact ⟨hinv, hseated⟩

/-- A wait ends once, the phase counters of a live warp count its arrivals and its releases, an
arrival repeated before the release does not count, and releases are in turn. -/
structure Sound (c₀ c : ClusterBarriers) : Prop where
  once : ∀ key, ∃ p, clusterProgress c.log key = some p
  generation : ∀ group, ∀ key ∈ c.liveWarps group, ∀ p, clusterProgress c.log key = some p →
    (c.phases key).getD {} = ⟨p.arrivals, p.releases⟩ ∧ p.arrivals ≤ p.releases + 1 ∧
      (p.waiting = true ↔ key ∈ c.atBarrier)
  released : c₀.ReleasedInTurn c.log

theorem Inv.sound (h : Inv c₀ c) : Sound c₀ c := by
  refine ⟨?_, ?_, h.history⟩
  · intro key
    obtain ⟨p, hp, -⟩ := h.progress key
    exact ⟨p, hp⟩
  · intro group key hlive p hp
    obtain ⟨q, hq, ht⟩ := h.progress key
    obtain rfl : p = q := Option.some.inj (hp.symm.trans hq)
    have hnot := ((h.live group key).mp hlive).2
    exact ⟨ht.phase hnot, ht.order.2, ht.waiting hnot⟩

/-- Two SMs with one warp each. -/
def duo : ClusterBarriers where
  layout := {
    numCores := 2
    maxCtaPerShader := 1
    maxWarpsPerShader := 1
    ctaGroup := fun _ _ => 0
    ctaWarps := fun _ slot => if slot = 0 then {0} else ∅
    groupSizes := fun group => if group = 0 then some 2 else none
    groupIssued := fun group => if group = 0 then some 2 else none }
  ctaActive := fun _ _ => true
  warpActive := fun _ => {0}

theorem start_duo : duo.Start := by
  refine ⟨⟨rfl, rfl, rfl, rfl, rfl⟩, ?_, ?_⟩
  · intro group size hsize
    refine ⟨2, ?_⟩
    simp only [duo] at hsize ⊢
    split at hsize
    · rename_i hgroup
      cases hsize
      exact ⟨if_pos hgroup, le_refl _⟩
    · cases hsize
  · intro sm slot slot' w hw hw'
    have hzero : ∀ slot, w ∈ duo.layout.ctaWarps sm slot → slot = 0 := by
      intro slot hin
      simp only [duo] at hin
      split at hin
      · assumption
      · exact absurd hin (Finset.notMem_empty w)
    rw [hzero slot hw, hzero slot' hw']

/-- Nobody waits. -/
def between (phases : ClusterBarKey → Option ClusterBarPhase) (log : List ClusterBarEvent) :
    ClusterBarriers :=
  { duo with phases := phases, log := log }

section

variable {phases : ClusterBarKey → Option ClusterBarPhase} {log : List ClusterBarEvent}
  {sm n : Nat}

theorem between_issues (hsm : sm < 2) : (between phases log).Issues sm 0 0 := by
  refine ⟨hsm, Nat.zero_lt_one, Nat.zero_lt_one, rfl, ?_, Finset.notMem_empty _⟩
  exact (by decide : 0 ∈ ({0} : Finset Nat) ∩ {0})

theorem between_arrive (hrun : Reaches step allowed duo (between phases log)) (hsm : sm < 2)
    (hphase : (phases (sm, 0)).getD {} = ⟨n, n⟩) (hn : n + 1 < 2 ^ 32) :
    Reaches step allowed duo (between (Function.update phases (sm, 0) (some ⟨n + 1, n⟩))
      (log ++ [ClusterBarEvent.arrived (sm, 0)])) := by
  apply hrun.next (o := ClusterBarOp.arrive sm 0 0) (between_issues hsm)
  unfold step clusterBarrierArrive between
  dsimp only
  rw [hphase, if_pos rfl, Nat.mod_eq_of_lt hn]
  rfl

theorem between_wait {phase : Nat}
    (hphase : phase = (((phases (sm, 0)).getD {}).completed + 1) % 2 ^ 32)
    (hall : ∀ key ∈ [(0, 0), (1, 0)], (between phases log).arrivedAt phase key = true) :
    (between phases log).step (.wait sm 0 0) =
      .ok (between ((between phases log).completePhase (sm, 0) phase).phases
        (log ++ [ClusterBarEvent.waited (sm, 0), .released (sm, 0)])) := by
  generalize he : ({ between phases log with
      atBarrier := {(sm, 0)}
      waiters := Function.update (fun _ => []) 0 [⟨sm, 0, 0⟩]
      groups := [0]
      log := log ++ [ClusterBarEvent.waited (sm, 0)] } : ClusterBarriers) = e
  have hstep : (between phases log).step (.wait sm 0 0) = e.releaseReadyClusterBarriers := by
    rw [← he]
    rfl
  have hlive : e.liveWarps 0 = [(0, 0), (1, 0)] := by
    rw [← he]
    exact (by decide : duo.liveWarps 0 = [(0, 0), (1, 0)])
  have hwaiters : e.waiters 0 = [⟨sm, 0, 0⟩] := by
    rw [← he]
    rfl
  have hexpected : e.expected 0 (e.waiters 0) = 2 := by
    unfold expected
    rw [hlive, hwaiters, ← he]
    rfl
  have harrived : e.arrivedAt phase = (between phases log).arrivedAt phase := by
    rw [← he]
    rfl
  have hready : e.readyWaiters 0 = [(⟨sm, 0, 0⟩, phase)] := by
    have hrequired : e.required (sm, 0) = phase := by
      rw [hphase, ← he]
      rfl
    have hbusy : e.dsmBusy = fun _ _ => false := by
      rw [← he]
      rfl
    unfold readyWaiters
    dsimp only
    rw [hexpected, hlive, hwaiters, hbusy]
    have hcount : 2 ≤ [((0 : Nat), (0 : Nat)), (1, 0)].countP (e.arrivedAt phase) := by
      rw [harrived, List.countP_eq_length.mpr hall]
      exact le_refl 2
    simp [ClusterBarrierWaiter.key, hrequired, hcount]
  have hgroup : e.releaseGroup 0 =
      .ok (between ((between phases log).completePhase (sm, 0) phase).phases
        (log ++ [ClusterBarEvent.waited (sm, 0), .released (sm, 0)])) := by
    generalize hw : ((⟨sm, 0, 0⟩ : ClusterBarrierWaiter), phase) = w
    have hkey : w.1.key = (sm, 0) := by
      rw [← hw]
      rfl
    have hrelease : e.releaseWaiter w = .ok { e with
        phases := ((between phases log).completePhase (sm, 0) phase).phases
        atBarrier := ∅
        log := log ++ [ClusterBarEvent.waited (sm, 0)] ++ [ClusterBarEvent.released (sm, 0)] } := by
      have hcomplete : e.completePhase w.1.key w.2 = { e with
          phases := ((between phases log).completePhase (sm, 0) phase).phases } := by
        rw [hkey, ← hw, ← he]
        unfold completePhase between
        dsimp only
        split
        · split <;> rfl
        · rfl
      have hin : e.atBarrier = {(sm, 0)} := by rw [← he]
      unfold releaseWaiter
      rw [hcomplete]
      dsimp only
      rw [hkey, hin, require_pass (decide_eq_true (Finset.mem_singleton_self _)),
        Finset.erase_singleton, ← he]
      rfl
    have hkeep : Function.update (Function.update (fun _ => []) 0 [(⟨sm, 0, 0⟩ :
        ClusterBarrierWaiter)]) 0 [] = fun _ => [] := by
      rw [Function.update_idem]
      exact Function.update_eq_self 0 (fun _ => [])
    unfold releaseGroup
    dsimp only
    rw [hready, hw, List.foldlM_cons, hrelease, List.map_cons, hkey, ← he]
    simp [between, hkeep, ClusterBarrierWaiter.key]
    exact ⟨rfl, rfl, rfl⟩
  rw [hstep]
  unfold releaseReadyClusterBarriers
  have hgroups : e.groups = [0] := by rw [← he]
  rw [hgroups, List.foldlM_cons, hgroup]
  rfl

theorem between_leave (hrun : Reaches step allowed duo (between phases log)) (hsm : sm < 2)
    (hphase : phases (sm, 0) = some ⟨n + 1, n⟩) (hn : n + 1 < 2 ^ 32)
    (hall : ∀ key ∈ [(0, 0), (1, 0)], (between phases log).arrivedAt (n + 1) key = true) :
    Reaches step allowed duo (between (Function.update phases (sm, 0) (some ⟨n + 1, n + 1⟩))
      (log ++ [ClusterBarEvent.waited (sm, 0), .released (sm, 0)])) := by
  have hrequired : n + 1 = (((phases (sm, 0)).getD {}).completed + 1) % 2 ^ 32 := by
    rw [hphase]
    exact (Nat.mod_eq_of_lt hn).symm
  have hcomplete : ((between phases log).completePhase (sm, 0) (n + 1)).phases =
      Function.update phases (sm, 0) (some ⟨n + 1, n + 1⟩) := by
    unfold completePhase between
    simp [hphase]
  rw [← hcomplete]
  exact hrun.next (o := ClusterBarOp.wait sm 0 0) (between_issues hsm) (between_wait hrequired hall)

/-- Both warps have completed as many phases. -/
structure Lapped (n : Nat) (phases : ClusterBarKey → Option ClusterBarPhase)
    (log : List ClusterBarEvent) : Prop where
  run : Reaches step allowed duo (between phases log)
  phase : ∀ key ∈ [(0, 0), (1, 0)], (phases key).getD {} = ⟨n, n⟩
  progress : ∀ key ∈ [(0, 0), (1, 0)], clusterProgress log key = some ⟨n, n, false⟩
  alive : ∀ key, .exited key ∉ log

theorem clusterProgress_append (log es : List ClusterBarEvent) (key : ClusterBarKey) :
    clusterProgress (log ++ es) key =
      (clusterProgress log key).bind fun p => es.foldlM (ClusterProgress.next key) p := by
  unfold clusterProgress
  rw [List.foldlM_append]
  rfl

/-- One phase more: both warps arrive, and then both wait. -/
theorem Lapped.next (h : Lapped n phases log) (hn : n + 1 < 2 ^ 32) :
    ∃ phases' log', Lapped (n + 1) phases' log' := by
  have h₀ := h.phase (0, 0) (by simp)
  have h₁ := h.phase (1, 0) (by simp)
  have hrun₁ := between_arrive h.run Nat.zero_lt_two h₀ hn
  have hrun₂ := between_arrive hrun₁ Nat.one_lt_two (by simpa using h₁) hn
  have hrun₃ := between_leave hrun₂ Nat.zero_lt_two (by simp) hn (by simp [arrivedAt, between])
  have hrun₄ := between_leave hrun₃ Nat.one_lt_two (by simp) hn (by simp [arrivedAt, between])
  refine ⟨_, _, hrun₄, by simp, ?_, by simp [h.alive]⟩
  intro key hkey
  simp only [List.append_assoc]
  rw [clusterProgress_append, h.progress key hkey]
  simp only [List.mem_cons, List.not_mem_nil, or_false] at hkey
  rcases hkey with rfl | rfl
  · simp [ClusterProgress.next]
  · simp [ClusterProgress.next]

theorem lapped (hn : n < 2 ^ 32) : ∃ phases log, Lapped n phases log := by
  induction n with
  | zero =>
    refine ⟨fun _ => none, [], ?_, ?_, ?_, ?_⟩
    · exact .refl
    · exact fun _ _ => rfl
    · exact fun _ _ => rfl
    · exact fun _ => List.not_mem_nil
  | succ n ih =>
    obtain ⟨phases, log, h⟩ := ih (by omega)
    exact h.next hn

end

end ClusterBarriers

end FlashGpuSim
