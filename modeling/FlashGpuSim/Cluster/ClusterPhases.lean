import FlashGpuSim.Cluster.ClusterBarrier
import FlashGpuSim.Lib.History
import Mathlib.Tactic

/-!
What the cluster barrier keeps. The phase of a warp counts the arrivals and the releases in the
history, a waiter is a live warp of the group where it waits, and a look at the barriers leaves
no waiter that may go.
-/

namespace FlashGpuSim

open Lib

namespace ClusterBarriers

variable {c₀ c d : ClusterBarriers} {group : Nat} {key : ClusterBarKey}

/-! ### Live warps -/

/-- A waiter stands for a live warp of a CTA of the group. -/
structure Sits (c : ClusterBarriers) (group : Nat) (w : ClusterBarrierWaiter) : Prop where
  sm : w.localSm < c.layout.numCores
  slot : w.cta < c.layout.maxCtaPerShader
  warp : w.warp < c.layout.maxWarpsPerShader
  active : c.ctaActive w.localSm w.cta = true
  group : c.layout.ctaGroup w.localSm w.cta = group
  mask : w.warp ∈ c.activeWarpMask w.localSm w.cta

theorem mem_liveWarps : key ∈ c.liveWarps group ↔ ∃ w, c.Sits group w ∧ w.key = key := by
  unfold liveWarps groupSlots
  simp only [List.mem_flatMap, List.mem_map, List.mem_filter, List.mem_range, Bool.and_eq_true,
    beq_iff_eq, decide_eq_true_eq, Prod.exists]
  constructor
  · rintro ⟨sm, slot, ⟨sm', hsm, slot', ⟨hslot, hactive, hgroup⟩, heq⟩, w, ⟨hw, hmask⟩, rfl⟩
    cases heq
    exact ⟨⟨sm, slot, w⟩, ⟨hsm, hslot, hw, hactive, hgroup, hmask⟩, rfl⟩
  · rintro ⟨w, hw, rfl⟩
    exact ⟨w.localSm, w.cta, ⟨w.localSm, hw.sm, w.cta, ⟨hw.slot, hw.active, hw.group⟩, rfl⟩,
      w.warp, ⟨hw.warp, hw.mask⟩, rfl⟩

theorem Sits.live {w : ClusterBarrierWaiter} (h : c.Sits group w) : w.key ∈ c.liveWarps group :=
  mem_liveWarps.mpr ⟨w, h, rfl⟩

/-- A warp sits in one CTA only. -/
theorem Sits.unique (hdisjoint : ∀ sm slot slot' w, w ∈ c.layout.ctaWarps sm slot →
    w ∈ c.layout.ctaWarps sm slot' → slot = slot') {group' : Nat} {w w' : ClusterBarrierWaiter}
    (h : c.Sits group w) (h' : c.Sits group' w') (hkey : w.key = w'.key) :
    w = w' ∧ group = group' := by
  obtain ⟨sm, slot, warp⟩ := w
  obtain ⟨sm', slot', warp'⟩ := w'
  obtain ⟨rfl, rfl⟩ := Prod.mk.inj hkey
  have hin : warp ∈ c.layout.ctaWarps sm slot := Finset.mem_of_mem_inter_left h.mask
  have hin' : warp ∈ c.layout.ctaWarps sm slot' := Finset.mem_of_mem_inter_left h'.mask
  obtain rfl := hdisjoint sm slot slot' warp hin hin'
  exact ⟨rfl, h.group.symm.trans h'.group⟩

/-- What decides which warps are live, and which CTAs have DSM work, is as before. -/
structure SameWarps (c d : ClusterBarriers) : Prop where
  layout : d.layout = c.layout
  ctaActive : d.ctaActive = c.ctaActive
  warpActive : d.warpActive = c.warpActive
  dsmBusy : d.dsmBusy = c.dsmBusy

theorem SameWarps.trans {e : ClusterBarriers} (h : SameWarps c d) (h' : SameWarps d e) :
    SameWarps c e :=
  ⟨h'.layout.trans h.layout, h'.ctaActive.trans h.ctaActive, h'.warpActive.trans h.warpActive,
    h'.dsmBusy.trans h.dsmBusy⟩

theorem SameWarps.liveWarps (h : SameWarps c d) (group : Nat) :
    d.liveWarps group = c.liveWarps group := by
  unfold ClusterBarriers.liveWarps groupSlots activeWarpMask
  rw [h.layout, h.ctaActive, h.warpActive]

theorem SameWarps.sits {w : ClusterBarrierWaiter} (h : SameWarps c d) (hw : c.Sits group w) :
    d.Sits group w := by
  obtain ⟨hsm, hslot, hwarp, hactive, hgroup, hmask⟩ := hw
  unfold activeWarpMask at hmask
  rw [← h.layout] at hsm hslot hwarp hgroup hmask
  rw [← h.ctaActive] at hactive
  rw [← h.warpActive] at hmask
  exact ⟨hsm, hslot, hwarp, hactive, hgroup, hmask⟩

/-! ### The invariant -/

/-- The phase counters of a warp, and whether it waits, follow its history. -/
structure Tracks (c : ClusterBarriers) (key : ClusterBarKey) (p : ClusterProgress) : Prop where
  phase : .exited key ∉ c.log → (c.phases key).getD {} = ⟨p.arrivals, p.releases⟩
  waiting : .exited key ∉ c.log → (p.waiting = true ↔ key ∈ c.atBarrier)
  order : p.releases ≤ p.arrivals ∧ p.arrivals ≤ p.releases + 1
  bound : p.arrivals < 2 ^ 32
  next : p.waiting = true → p.releases + 1 < 2 ^ 32

/-- A warp was released from a phase at which all warps of its group had arrived that had not
exited then. -/
def ReleasedInTurn (c₀ : ClusterBarriers) (log : List ClusterBarEvent) : Prop :=
  ∀ l₁ key l₂, log = l₁ ++ .released key :: l₂ →
    ∃ group, key ∈ c₀.liveWarps group ∧ .exited key ∉ l₁ ∧
      ∃ p, clusterProgress l₁ key = some p ∧
        ∀ other ∈ c₀.liveWarps group, .exited other ∉ l₁ →
          ∃ q, clusterProgress l₁ other = some q ∧ p.releases + 1 ≤ q.arrivals

structure Inv (c₀ c : ClusterBarriers) : Prop where
  start : c₀.Start
  layout : c.layout = c₀.layout
  live : ∀ group key, key ∈ c.liveWarps group ↔
    key ∈ c₀.liveWarps group ∧ .exited key ∉ c.log
  progress : ∀ key, ∃ p, clusterProgress c.log key = some p ∧ c.Tracks key p
  history : c₀.ReleasedInTurn c.log

/-- The waiters are the live warps that wait, each once. -/
structure Seated (c : ClusterBarriers) : Prop where
  sits : ∀ group, ∀ w ∈ c.waiters group, c.Sits group w ∧ w.key ∈ c.atBarrier
  seated : ∀ group, ∀ key ∈ c.liveWarps group, key ∈ c.atBarrier →
    ∃ w ∈ c.waiters group, w.key = key
  nodup : ∀ group, ((c.waiters group).map ClusterBarrierWaiter.key).Nodup
  groups : ∀ group, c.waiters group ≠ [] → group ∈ c.groups

theorem Inv.disjoint (h : Inv c₀ c) (sm slot slot' w : Nat) :
    w ∈ c.layout.ctaWarps sm slot → w ∈ c.layout.ctaWarps sm slot' → slot = slot' := by
  rw [h.layout]
  exact h.start.disjoint sm slot slot' w

/-- As all CTAs are issued, just the live warps are waited for. -/
theorem Inv.expected (h : Inv c₀ c) (waiters : List ClusterBarrierWaiter) :
    c.expected group waiters = (c.liveWarps group).length := by
  unfold ClusterBarriers.expected
  dsimp only
  split
  · rename_i size front rest hsize
    rw [h.layout] at hsize
    obtain ⟨issued, hissued, hle⟩ := h.start.issued group size hsize
    rw [h.layout, hissued]
    exact if_neg (not_lt.mpr hle)
  · rfl

theorem clusterProgress_concat (log : List ClusterBarEvent) (e : ClusterBarEvent) :
    clusterProgress (log ++ [e]) key =
      (clusterProgress log key).bind fun p => ClusterProgress.next key p e := by
  unfold clusterProgress
  rw [List.foldlM_append]
  cases List.foldlM (ClusterProgress.next key) {} log with
  | none => rfl
  | some p => simp

/-! ### One release -/

/-- A waiter that may leave, and the phase that it leaves. -/
structure Ready (c : ClusterBarriers) (group : Nat) (r : ClusterBarrierWaiter × Nat) : Prop where
  sits : c.Sits group r.1
  waits : r.1.key ∈ c.atBarrier
  phase : r.2 = c.required r.1.key
  arrived : ∀ key ∈ c.liveWarps group, c.arrivedAt r.2 key = true

/-- The releases of some waiters. -/
structure Releases (c d : ClusterBarriers) (keys : List ClusterBarKey) : Prop where
  same : SameWarps c d
  waiters : d.waiters = c.waiters
  groups : d.groups = c.groups
  atBarrier : ∀ key, key ∈ d.atBarrier ↔ key ∈ c.atBarrier ∧ key ∉ keys
  phases : ∀ key, key ∉ keys → d.phases key = c.phases key
  arrived : ∀ phase key, d.arrivedAt phase key = c.arrivedAt phase key

theorem Releases.none : Releases c c [] :=
  ⟨⟨rfl, rfl, rfl, rfl⟩, rfl, rfl, fun _ => by simp, fun _ _ => rfl, fun _ _ => rfl⟩

theorem Releases.append {e : ClusterBarriers} {keys keys' : List ClusterBarKey}
    (h : Releases c d keys) (h' : Releases d e keys') : Releases c e (keys ++ keys') := by
  refine ⟨h.same.trans h'.same, h'.waiters.trans h.waiters, h'.groups.trans h.groups, ?_, ?_, ?_⟩
  · intro key
    rw [h'.atBarrier, h.atBarrier, List.mem_append, not_or, and_assoc]
  · intro key hkey
    rw [List.mem_append, not_or] at hkey
    rw [h'.phases key hkey.2, h.phases key hkey.1]
  · intro phase key
    rw [h'.arrived, h.arrived]

theorem Ready.of_releases {keys : List ClusterBarKey} {r : ClusterBarrierWaiter × Nat}
    (h : Ready c group r) (hd : Releases c d keys) (hkey : r.1.key ∉ keys) : Ready d group r := by
  refine ⟨hd.same.sits h.sits, (hd.atBarrier _).mpr ⟨h.waits, hkey⟩, ?_, ?_⟩
  · unfold required
    rw [hd.phases _ hkey]
    exact h.phase
  · intro key hlive
    rw [hd.same.liveWarps] at hlive
    rw [hd.arrived]
    exact h.arrived key hlive

/-- The progress of a waiter that may leave. -/
theorem Inv.ready {r : ClusterBarrierWaiter × Nat} (h : Inv c₀ c) (hr : Ready c group r) :
    ∃ p, clusterProgress c.log r.1.key = some p ∧ c.Tracks r.1.key p ∧ p.waiting = true ∧
      r.2 = p.releases + 1 ∧ p.arrivals = p.releases + 1 ∧
        c.phases r.1.key = some ⟨p.releases + 1, p.releases⟩ := by
  obtain ⟨p, hp, ht⟩ := h.progress r.1.key
  have hexit := ((h.live group _).mp hr.sits.live).2
  have hwaiting := (ht.waiting hexit).mpr hr.waits
  have hphase := ht.phase hexit
  have hrequired : r.2 = p.releases + 1 := by
    rw [hr.phase]
    unfold required
    rw [hphase]
    exact Nat.mod_eq_of_lt (ht.next hwaiting)
  have harrived := hr.arrived _ hr.sits.live
  unfold arrivedAt at harrived
  cases hq : c.phases r.1.key with
  | none =>
    rw [hq] at harrived
    cases harrived
  | some q =>
    rw [hq] at harrived hphase
    obtain rfl : q = ⟨p.arrivals, p.releases⟩ := hphase
    have hle : r.2 ≤ p.arrivals := of_decide_eq_true harrived
    have horder := ht.order
    have heq : p.arrivals = p.releases + 1 := by omega
    refine ⟨p, hp, ht, hwaiting, hrequired, heq, ?_⟩
    rw [heq]

/-- All live warps have come as far as the phase that a waiter leaves. -/
theorem Inv.arrivals_of_ready {r : ClusterBarrierWaiter × Nat} {other : ClusterBarKey}
    (h : Inv c₀ c) (hr : Ready c group r) (hlive : other ∈ c.liveWarps group) :
    ∃ q, clusterProgress c.log other = some q ∧ r.2 ≤ q.arrivals := by
  obtain ⟨q, hq, ht⟩ := h.progress other
  refine ⟨q, hq, ?_⟩
  have hphase := ht.phase ((h.live group other).mp hlive).2
  have harrived := hr.arrived other hlive
  unfold arrivedAt at harrived
  cases hx : c.phases other with
  | none =>
    rw [hx] at harrived
    cases harrived
  | some x =>
    rw [hx] at harrived hphase
    obtain rfl : x = ⟨q.arrivals, q.releases⟩ := hphase
    exact of_decide_eq_true harrived

theorem Inv.releaseWaiter {r : ClusterBarrierWaiter × Nat} (h : Inv c₀ c) (hr : Ready c group r) :
    ∃ d, c.releaseWaiter r = .ok d ∧ Inv c₀ d ∧ Releases c d [r.1.key] := by
  obtain ⟨p, hp, ht, hwaiting, hphase, harrivals, hat⟩ := h.ready hr
  have hcomplete : c.completePhase r.1.key r.2 = { c with
      phases := Function.update c.phases r.1.key (some ⟨p.releases + 1, p.releases + 1⟩) } := by
    unfold completePhase
    rw [hat, hphase]
    exact if_pos ⟨le_refl _, Nat.lt_succ_self _⟩
  have hok : c.releaseWaiter r = .ok { c with
      phases := Function.update c.phases r.1.key (some ⟨p.releases + 1, p.releases + 1⟩)
      atBarrier := c.atBarrier.erase r.1.key
      log := c.log ++ [ClusterBarEvent.released r.1.key] } := by
    unfold ClusterBarriers.releaseWaiter
    rw [hcomplete]
    dsimp only
    rw [require_pass (decide_eq_true hr.waits)]
    rfl
  have hexit : ∀ key, ClusterBarEvent.exited key ∈ c.log ++ [ClusterBarEvent.released r.1.key] ↔
      .exited key ∈ c.log := by
    intro key
    simp
  refine ⟨_, hok, ⟨h.start, h.layout, ?_, ?_, ?_⟩, ⟨⟨rfl, rfl, rfl, rfl⟩, rfl, rfl, ?_, ?_, ?_⟩⟩
  · intro group key
    rw [hexit]
    exact h.live group key
  · intro key
    dsimp only
    rw [clusterProgress_concat]
    rcases eq_or_ne key r.1.key with rfl | hne
    · rw [hp]
      refine ⟨{ p with releases := p.releases + 1, waiting := false }, ?_, ?_⟩
      · simp [ClusterProgress.next, hwaiting]
      · refine ⟨?_, ?_, ?_, ht.bound, fun hw => nomatch hw⟩
        · intro _
          dsimp only
          rw [Function.update_self, harrivals]
          rfl
        · intro _
          simp
        · dsimp only
          omega
    · obtain ⟨q, hq, htq⟩ := h.progress key
      refine ⟨q, ?_, ?_⟩
      · simp [hq, ClusterProgress.next, hne.symm]
      · refine ⟨?_, ?_, htq.order, htq.bound, htq.next⟩
        · intro hnot
          rw [hexit] at hnot
          dsimp only
          rw [Function.update_of_ne hne]
          exact htq.phase hnot
        · intro hnot
          rw [hexit] at hnot
          rw [htq.waiting hnot]
          simp [hne]
  · intro l₁ key l₂ hsplit
    rcases split_concat hsplit with ⟨rfl, heq, rfl⟩ | ⟨l₂', rfl, hlog⟩
    · cases heq
      have hstart := (h.live group _).mp hr.sits.live
      refine ⟨group, hstart.1, hstart.2, p, hp, ?_⟩
      intro other hother hnot
      obtain ⟨q, hq, hle⟩ := h.arrivals_of_ready hr ((h.live group other).mpr ⟨hother, hnot⟩)
      exact ⟨q, hq, hphase ▸ hle⟩
    · exact h.history l₁ key l₂' hlog
  · intro key
    simp [and_comm]
  · intro key hkey
    rw [List.mem_singleton] at hkey
    exact Function.update_of_ne hkey _ _
  · intro phase key
    unfold arrivedAt
    dsimp only
    rcases eq_or_ne key r.1.key with rfl | hne
    · rw [Function.update_self, hat]
      rfl
    · rw [Function.update_of_ne hne]

theorem Inv.releaseWaiters {ready : List (ClusterBarrierWaiter × Nat)} (h : Inv c₀ c)
    (hready : ∀ r ∈ ready, Ready c group r) (hnodup : (ready.map fun r => r.1.key).Nodup) :
    ∃ d, ready.foldlM ClusterBarriers.releaseWaiter c = .ok d ∧ Inv c₀ d ∧
      Releases c d (ready.map fun r => r.1.key) := by
  induction ready generalizing c with
  | nil => exact ⟨c, rfl, h, .none⟩
  | cons r rest ih =>
    obtain ⟨hnew, hnodup⟩ := List.nodup_cons.mp hnodup
    obtain ⟨d, hd, hinv, hrel⟩ := h.releaseWaiter (hready r List.mem_cons_self)
    have hrest : ∀ x ∈ rest, Ready d group x := by
      intro x hx
      apply (hready x (List.mem_cons_of_mem _ hx)).of_releases hrel
      rw [List.mem_singleton]
      intro heq
      exact hnew (List.mem_map.mpr ⟨x, hx, heq⟩)
    obtain ⟨e, he, hinv', hrel'⟩ := ih hinv hrest hnodup
    refine ⟨e, ?_, hinv', hrel.append hrel'⟩
    rw [List.foldlM_cons, hd]
    exact he

/-! ### A look at the barriers -/

/-- A waiter may leave when nobody who waits with it has DSM work, and all live warps have
arrived. -/
theorem Inv.mem_readyWaiters (h : Inv c₀ c) {r : ClusterBarrierWaiter × Nat} :
    r ∈ c.readyWaiters group ↔ c.liveWarps group ≠ [] ∧
      (∀ w ∈ c.waiters group, c.dsmBusy w.localSm w.cta = false) ∧
      r.1 ∈ c.waiters group ∧ r.2 = c.required r.1.key ∧
        ∀ key ∈ c.liveWarps group, c.arrivedAt r.2 key = true := by
  unfold readyWaiters
  dsimp only
  rw [h.expected]
  have hall : ∀ phase, (c.liveWarps group).length ≤ (c.liveWarps group).countP (c.arrivedAt phase) ↔
      ∀ key ∈ c.liveWarps group, c.arrivedAt phase key = true := by
    intro phase
    rw [← List.countP_eq_length]
    have hle := (c.liveWarps group).countP_le_length (p := c.arrivedAt phase)
    omega
  split
  · rename_i hopen
    have hbusy : ∀ w ∈ c.waiters group, c.dsmBusy w.localSm w.cta = false := by
      intro w hw
      have hx := List.all_eq_true.mp hopen.2 w hw
      simpa using hx
    have hlive : c.liveWarps group ≠ [] := by
      intro hnil
      apply hopen.1
      rw [hnil]
      rfl
    rw [List.mem_filter, List.mem_map]
    constructor
    · rintro ⟨⟨w, hw, rfl⟩, harrived⟩
      exact ⟨hlive, hbusy, hw, rfl, (hall _).mp (of_decide_eq_true harrived)⟩
    · rintro ⟨-, -, hw, hphase, harrived⟩
      refine ⟨⟨r.1, hw, ?_⟩, decide_eq_true ((hall _).mpr harrived)⟩
      rw [← hphase]
  · rename_i hclosed
    constructor
    · intro hr
      exact absurd hr List.not_mem_nil
    · rintro ⟨hlive, hbusy, -⟩
      apply absurd _ hclosed
      refine ⟨?_, ?_⟩
      · rw [ne_eq, List.length_eq_zero_iff]
        exact hlive
      · rw [List.all_eq_true]
        intro w hw
        rw [hbusy w hw]
        rfl

theorem readyWaiters_sublist (c : ClusterBarriers) (group : Nat) :
    ((c.readyWaiters group).map fun r => r.1).Sublist (c.waiters group) := by
  unfold readyWaiters
  dsimp only
  split
  · have hsub := (List.filter_sublist (p := fun r : ClusterBarrierWaiter × Nat =>
      decide (c.expected group (c.waiters group) ≤
        (c.liveWarps group).countP (c.arrivedAt r.2)))
      (l := (c.waiters group).map fun w => (w, c.required w.key))).map (fun r => r.1)
    rw [List.map_map] at hsub
    have hid : ((fun r : ClusterBarrierWaiter × Nat => r.1) ∘ fun w => (w, c.required w.key)) =
        id := rfl
    rw [hid, List.map_id] at hsub
    exact hsub
  · exact List.nil_sublist _

/-- The releases of a group, and the waiters that stay. -/
structure GroupReleased (c d : ClusterBarriers) (group : Nat) : Prop where
  same : SameWarps c d
  done : d.readyWaiters group = []
  others : ∀ group', group' ≠ group → c.readyWaiters group' = [] → d.readyWaiters group' = []

/-- A state in which the waiters of a group with these keys are gone. -/
structure Dropped (c d : ClusterBarriers) (group : Nat) (keys : List ClusterBarKey) : Prop where
  same : SameWarps c d
  atBarrier : ∀ key, key ∈ d.atBarrier ↔ key ∈ c.atBarrier ∧ key ∉ keys
  phases : ∀ key, key ∉ keys → d.phases key = c.phases key
  arrived : ∀ phase key, d.arrivedAt phase key = c.arrivedAt phase key
  here : d.waiters group = (c.waiters group).filter fun w => !keys.contains w.key
  others : ∀ group', group' ≠ group → d.waiters group' = c.waiters group'
  groups : ∀ group', d.waiters group' ≠ [] → group' ∈ c.groups → group' ∈ d.groups

theorem Dropped.mem {keys : List ClusterBarKey} {w : ClusterBarrierWaiter}
    (h : Dropped c d group keys) : w ∈ d.waiters group ↔ w ∈ c.waiters group ∧ w.key ∉ keys := by
  rw [h.here, List.mem_filter]
  simp

/-- The waiters of another group have other keys. -/
theorem Dropped.not_mem {keys : List ClusterBarKey} {group' : Nat} {w : ClusterBarrierWaiter}
    (h : Inv c₀ c) (hs : Seated c) (hkeys : ∀ key ∈ keys, ∃ w ∈ c.waiters group, w.key = key)
    (hne : group' ≠ group) (hw : w ∈ c.waiters group') : w.key ∉ keys := by
  intro hin
  obtain ⟨x, hx, heq⟩ := hkeys _ hin
  exact hne ((hs.sits group' w hw).1.unique h.disjoint (hs.sits group x hx).1 heq.symm).2

theorem Dropped.seated {keys : List ClusterBarKey} (hd : Dropped c d group keys) (h : Inv c₀ c)
    (hs : Seated c) (hkeys : ∀ key ∈ keys, ∃ w ∈ c.waiters group, w.key = key) : Seated d := by
  refine ⟨?_, ?_, ?_, ?_⟩
  · intro group' w hw
    rw [hd.atBarrier]
    rcases eq_or_ne group' group with rfl | hne
    · obtain ⟨hw, hnot⟩ := hd.mem.mp hw
      obtain ⟨hsits, hat⟩ := hs.sits group' w hw
      exact ⟨hd.same.sits hsits, hat, hnot⟩
    · rw [hd.others group' hne] at hw
      obtain ⟨hsits, hat⟩ := hs.sits group' w hw
      exact ⟨hd.same.sits hsits, hat, not_mem h hs hkeys hne hw⟩
  · intro group' key hlive hat
    rw [hd.same.liveWarps] at hlive
    rw [hd.atBarrier] at hat
    obtain ⟨w, hw, rfl⟩ := hs.seated group' key hlive hat.1
    refine ⟨w, ?_, rfl⟩
    rcases eq_or_ne group' group with rfl | hne
    · exact hd.mem.mpr ⟨hw, hat.2⟩
    · rw [hd.others group' hne]
      exact hw
  · intro group'
    rcases eq_or_ne group' group with rfl | hne
    · rw [hd.here]
      exact (hs.nodup group').sublist (List.filter_sublist.map _)
    · rw [hd.others group' hne]
      exact hs.nodup group'
  · intro group' hsome
    apply hd.groups group' hsome
    apply hs.groups
    intro hnil
    apply hsome
    rcases eq_or_ne group' group with rfl | hne
    · rw [hd.here, hnil]
      rfl
    · rw [hd.others group' hne, hnil]

/-- Who is ready in a group after a release was ready before it. -/
theorem Dropped.ready {keys : List ClusterBarKey} {group' : Nat} {r : ClusterBarrierWaiter × Nat}
    (hd : Dropped c d group keys) (h : Inv c₀ c) (hinv : Inv c₀ d)
    (hwaiters : ∀ w ∈ c.waiters group', w ∈ d.waiters group' ∨ c.dsmBusy w.localSm w.cta = false)
    (hmem : r.1 ∈ d.waiters group' → r.1 ∈ c.waiters group' ∧ r.1.key ∉ keys)
    (hr : r ∈ d.readyWaiters group') : r ∈ c.readyWaiters group' ∧ r.1.key ∉ keys := by
  obtain ⟨hlive, hbusy, hw, hphase, harrived⟩ := hinv.mem_readyWaiters.mp hr
  obtain ⟨hw, hnot⟩ := hmem hw
  rw [hd.same.liveWarps] at hlive harrived
  rw [hd.same.dsmBusy] at hbusy
  refine ⟨h.mem_readyWaiters.mpr ⟨hlive, ?_, hw, ?_, ?_⟩, hnot⟩
  · intro x hx
    rcases hwaiters x hx with hx | hx
    · exact hbusy x hx
    · exact hx
  · rw [hphase]
    unfold required
    rw [hd.phases _ hnot]
  · intro key hkey
    rw [← hd.arrived]
    exact harrived key hkey

theorem Inv.releaseGroup (h : Inv c₀ c) (hs : Seated c) (group : Nat) :
    ∃ d, c.releaseGroup group = .ok d ∧ Inv c₀ d ∧ Seated d ∧ GroupReleased c d group := by
  have hready : ∀ r ∈ c.readyWaiters group, Ready c group r := by
    intro r hr
    obtain ⟨-, -, hw, hphase, harrived⟩ := h.mem_readyWaiters.mp hr
    obtain ⟨hsits, hat⟩ := hs.sits group r.1 hw
    exact ⟨hsits, hat, hphase, harrived⟩
  have hnodup : ((c.readyWaiters group).map fun r => r.1.key).Nodup := by
    have hsub := (c.readyWaiters_sublist group).map ClusterBarrierWaiter.key
    rw [List.map_map] at hsub
    exact (hs.nodup group).sublist hsub
  obtain ⟨d, hd, hinv, hrel⟩ := h.releaseWaiters hready hnodup
  generalize hkeys : (c.readyWaiters group).map (fun r => r.1.key) = keys at hrel hnodup
  generalize hkeep : (d.waiters group).filter (fun w => !keys.contains w.key) = keep
  generalize he : { d with
      waiters := Function.update d.waiters group keep
      groups := if keep = [] then d.groups.erase group else d.groups } = e
  have hok : c.releaseGroup group = .ok e := by
    unfold ClusterBarriers.releaseGroup
    dsimp only
    rw [hd, hkeys, ← he, ← hkeep]
    rfl
  have hdrop : Dropped c e group keys := by
    rw [← he]
    refine ⟨⟨hrel.same.layout, hrel.same.ctaActive, hrel.same.warpActive, hrel.same.dsmBusy⟩,
      hrel.atBarrier, hrel.phases, hrel.arrived, ?_, ?_, ?_⟩
    · dsimp only
      rw [Function.update_self, ← hkeep, hrel.waiters]
    · intro group' hne
      dsimp only
      rw [Function.update_of_ne hne, hrel.waiters]
    · intro group' hsome hin
      dsimp only at hsome ⊢
      rw [hrel.groups]
      split
      · rename_i hnil
        rcases eq_or_ne group' group with rfl | hne
        · rw [Function.update_self] at hsome
          exact absurd hnil hsome
        · exact (List.mem_erase_of_ne hne).mpr hin
      · exact hin
  have hinv' : Inv c₀ e := by
    rw [← he]
    refine ⟨hinv.start, hinv.layout, hinv.live, ?_, hinv.history⟩
    intro key
    obtain ⟨p, hp, ht⟩ := hinv.progress key
    exact ⟨p, hp, ht.phase, ht.waiting, ht.order, ht.bound, ht.next⟩
  have hwaits : ∀ key ∈ keys, ∃ w ∈ c.waiters group, w.key = key := by
    intro key hkey
    rw [← hkeys, List.mem_map] at hkey
    obtain ⟨r, hr, rfl⟩ := hkey
    exact ⟨r.1, (h.mem_readyWaiters.mp hr).2.2.1, rfl⟩
  refine ⟨e, hok, hinv', hdrop.seated h hs hwaits, hdrop.same, ?_, ?_⟩
  · apply List.eq_nil_iff_forall_not_mem.mpr
    intro r hr
    have hstay : ∀ w ∈ c.waiters group,
        w ∈ e.waiters group ∨ c.dsmBusy w.localSm w.cta = false := by
      intro w hw
      by_cases hin : w.key ∈ keys
      · rw [← hkeys, List.mem_map] at hin
        obtain ⟨x, hx, -⟩ := hin
        exact .inr ((h.mem_readyWaiters.mp hx).2.1 w hw)
      · exact .inl (hdrop.mem.mpr ⟨hw, hin⟩)
    obtain ⟨hr, hnot⟩ := hdrop.ready h hinv' hstay hdrop.mem.mp hr
    apply hnot
    rw [← hkeys]
    exact List.mem_map.mpr ⟨r, hr, rfl⟩
  · intro group' hne hnil
    apply List.eq_nil_iff_forall_not_mem.mpr
    intro r hr
    have hsame := hdrop.others group' hne
    obtain ⟨hr, -⟩ := hdrop.ready h hinv' (fun w hw => .inl (hsame ▸ hw))
      (fun hw => ⟨hsame ▸ hw, Dropped.not_mem h hs hwaits hne (hsame ▸ hw)⟩) hr
    rw [hnil] at hr
    exact absurd hr List.not_mem_nil

theorem readyWaiters_nil (h : c.waiters group = []) : c.readyWaiters group = [] := by
  unfold readyWaiters
  rw [h]
  simp

/-- After a look at the barriers nobody is left who may go. -/
theorem Inv.releaseReady (h : Inv c₀ c) (hs : Seated c) :
    ∃ d, c.releaseReadyClusterBarriers = .ok d ∧ Inv c₀ d ∧ Seated d ∧
      ∀ group, d.readyWaiters group = [] := by
  have hstep : ∀ g rest d, (Inv c₀ d ∧ Seated d ∧ ∀ group, group ∉ g :: rest →
      d.readyWaiters group = []) → Outcome (d.releaseGroup g) (fun e => Inv c₀ e ∧ Seated e ∧
        ∀ group, group ∉ rest → e.readyWaiters group = []) (fun _ => False) := by
    rintro g rest d ⟨hinv, hseated, hdone⟩
    obtain ⟨e, he, hinv', hseated', hgroup⟩ := hinv.releaseGroup hseated g
    rw [he]
    refine ⟨hinv', hseated', ?_⟩
    intro group hnot
    rcases eq_or_ne group g with rfl | hne
    · exact hgroup.done
    · exact hgroup.others group hne (hdone group (by simp [hne, hnot]))
  have hinit : ∀ group, group ∉ c.groups → c.readyWaiters group = [] := by
    intro group hnot
    apply readyWaiters_nil
    by_contra hsome
    exact hnot (hs.groups group hsome)
  obtain ⟨d, hd, hinv, hseated, hdone⟩ := Outcome.exists_ok
    (outcome_foldlM (fun todo d => Inv c₀ d ∧ Seated d ∧
      ∀ group, group ∉ todo → d.readyWaiters group = []) hstep c.groups c ⟨h, hs, hinit⟩)
  exact ⟨d, hd, hinv, hseated, fun group => hdone group List.not_mem_nil⟩

end ClusterBarriers

end FlashGpuSim
