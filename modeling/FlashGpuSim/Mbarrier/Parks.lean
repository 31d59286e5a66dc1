import FlashGpuSim.Lib.Reach
import FlashGpuSim.Mbarrier.Registrations

/-!
A warp parked by a remote `try_wait` has no local wait, so no barrier of its SM releases
it. What can release it by mistake is a countdown from an earlier wait of the warp. This
module has the steps of which the operations consist.
-/

namespace FlashGpuSim

open Lib

namespace BarrierSet

variable {u u' : BarrierSet} {all : Prop} {parks : Finset Nat} {w warpId : Nat} {key : Int × Nat}
  {type : BarrierWaitType}

/-- The state of a warp that only its remote barrier may release. -/
structure ParkedAt (u : BarrierSet) (w : Nat) : Prop where
  waiting : u.Waiting w .mbarrier
  inst : (u.trywaitInst w).isSome = true
  no_wait : u.pendingWaits w = none
  no_release : ∀ r ∈ u.pendingReleases, r.warpId = w → r.type ≠ .mbarrier

/-- The warps of a CTA have the same software CTA. -/
def CtasAgree (u : BarrierSet) : Prop :=
  ∀ ctaId warps, u.ctaToWarps ctaId = some warps → ctaId < u.config.maxCtaPerCore ∧
    (∀ w ∈ warps, w < u.config.maxWarpsPerCore) ∧
      ∀ w ∈ warps, ∀ w' ∈ warps, (u.warps w).swCtaId = (u.warps w').swCtaId

/-- The invariant of a run that keeps track of some parked warps, or of all of them. -/
structure Inv (all : Prop) (parks : Finset Nat) (u : BarrierSet) : Prop where
  parks_eq : all → u.remoteParks = parks
  distinct : u.manager.Distinct
  registered : ∀ w key, u.manager.Registered w key → ∃ wait, u.pendingWaits w = some wait ∧
    wait.swCtaId = key.1 ∧ key.2 ∈ wait.lanes.map LaneWait.addr
  parked : ∀ w ∈ parks, u.ParkedAt w
  remote : u.manager.HasRemote → u.config.hasRemotePath = true
  ctas : u.CtasAgree

theorem inv_init (config : BarrierConfig) : Inv all ∅ { config := config } where
  parks_eq _ := rfl
  distinct := nofun
  registered := by
    rintro w key ⟨b, hb, -⟩
    cases hb
  parked := nofun
  remote := by
    rintro ⟨key, b, hb, -⟩
    cases hb
  ctas := nofun

theorem Inv.not_parked_of_wait {wait : PendingMbarrierWait} (h : Inv all parks u)
    (hw : u.pendingWaits w = some wait) : w ∉ parks := by
  intro hmem
  exact nomatch (h.parked w hmem).no_wait.symm.trans hw

theorem Inv.not_parked_of_registered (h : Inv all parks u) (hw : u.manager.Registered w key) :
    w ∉ parks := by
  obtain ⟨wait, hwait, -⟩ := h.registered w key hw
  exact h.not_parked_of_wait hwait

theorem Inv.not_parked_of_idle (h : Inv all parks u) (hw : w ∉ u.warpAtBarrier) : w ∉ parks :=
  fun hmem => hw (h.parked w hmem).waiting.2.1

theorem Inv.not_parked_of_type (h : Inv all parks u) (hw : u.Waiting w type)
    (htype : type ≠ .mbarrier) : w ∉ parks := by
  intro hmem
  exact htype (hw.2.2.symm.trans (h.parked w hmem).waiting.2.2)

/-- Changes to what the invariant does not look at. -/
theorem Inv.congr (h : Inv all parks u) (hconfig : u'.config = u.config)
    (hmanager : u'.manager = u.manager) (hat : u'.warpAtBarrier = u.warpAtBarrier)
    (htype : u'.warpBarrierType = u.warpBarrierType) (hwaits : u'.pendingWaits = u.pendingWaits)
    (hreleases : u'.pendingReleases = u.pendingReleases)
    (hinst : u'.trywaitInst = u.trywaitInst) (hparks : u'.remoteParks = u.remoteParks)
    (hctas : u'.CtasAgree) : Inv all parks u' where
  parks_eq hall := hparks.trans (h.parks_eq hall)
  distinct := hmanager ▸ h.distinct
  remote := by
    rw [hmanager, hconfig]
    exact h.remote
  ctas := hctas
  registered := by
    rw [hmanager, hwaits]
    exact h.registered
  parked w hw := by
    obtain ⟨hwaiting, hsome, hnone, hrelease⟩ := h.parked w hw
    refine ⟨?_, hinst ▸ hsome, hwaits ▸ hnone, hreleases ▸ hrelease⟩
    unfold Waiting
    rw [hconfig, hat, htype]
    exact hwaiting

theorem Inv.setManager {m : MbarrierManager} (h : Inv all parks u)
    (hm : MbarrierManager.Fewer u.manager m) : Inv all parks { u with manager := m } where
  parks_eq := h.parks_eq
  distinct := hm.distinct h.distinct
  registered := fun w key hw => h.registered w key (hm.registered w key hw)
  remote := fun hr => h.remote (hm.remote hr)
  ctas := h.ctas
  parked := fun w hw => ⟨(h.parked w hw).waiting, (h.parked w hw).inst, (h.parked w hw).no_wait,
    (h.parked w hw).no_release⟩

/-- Another wait for a warp that is not parked, and the registrations of its lanes. -/
theorem Inv.setWait {m : MbarrierManager} {wait : PendingMbarrierWait} (h : Inv all parks u)
    (hw : w ∉ parks)
    (hm : MbarrierManager.Registers w wait.swCtaId (wait.lanes.map LaneWait.addr) u.manager m)
    (hlanes : ∀ key, u.manager.Registered w key →
      wait.swCtaId = key.1 ∧ key.2 ∈ wait.lanes.map LaneWait.addr) :
    Inv all parks ({ u with manager := m }.setWait w wait) where
  parks_eq := h.parks_eq
  distinct := hm.distinct h.distinct
  remote hr := h.remote (hm.remote hr)
  ctas := h.ctas
  registered x key hx := by
    by_cases heq : x = w
    · subst heq
      refine ⟨wait, Function.update_self _ _ _, ?_⟩
      obtain hold | ⟨-, hnew⟩ := hm.registered x key hx
      · exact hlanes key hold
      · exact hnew
    · obtain hold | ⟨hfalse, -⟩ := hm.registered x key hx
      · obtain ⟨wait', hwait', hrest⟩ := h.registered x key hold
        exact ⟨wait', (Function.update_of_ne heq _ _).trans hwait', hrest⟩
      · exact absurd hfalse heq
  parked x hx := by
    have hne : x ≠ w := fun heq => hw (heq ▸ hx)
    obtain ⟨hwaiting, hsome, hnone, hrelease⟩ := h.parked x hx
    exact ⟨hwaiting, hsome, (Function.update_of_ne hne _ _).trans hnone, hrelease⟩

theorem Inv.notifyMbarrierPhaseChange (h : Inv all parks u) (notifiedWarps : List Nat) (now : Nat) :
    Inv all parks (u.notifyMbarrierPhaseChange notifiedWarps now) where
  parks_eq := h.parks_eq
  distinct := h.distinct
  remote := h.remote
  ctas := h.ctas
  registered w key hw := by
    obtain ⟨wait, hwait, hsw, hlane⟩ := h.registered w key hw
    unfold BarrierSet.notifyMbarrierPhaseChange
    by_cases hmem : w ∈ notifiedWarps
    · refine ⟨notified wait now, by simp [hmem, hwait], ?_⟩
      unfold notified
      split <;> exact ⟨hsw, hlane⟩
    · exact ⟨wait, by simp [hmem, hwait], hsw, hlane⟩
  parked w hw := by
    obtain ⟨hwaiting, hsome, hnone, hrelease⟩ := h.parked w hw
    refine ⟨hwaiting, hsome, ?_, hrelease⟩
    unfold BarrierSet.notifyMbarrierPhaseChange
    simp [hnone]

/-- New countdowns for warps that are not parked. -/
theorem Inv.addReleases {rs : List PendingWarpRelease} (h : Inv all parks u)
    (hrs : ∀ r ∈ rs, r.type = .mbarrier → r.warpId ∉ parks) :
    Inv all parks { u with pendingReleases := u.pendingReleases ++ rs } where
  parks_eq := h.parks_eq
  distinct := h.distinct
  remote := h.remote
  ctas := h.ctas
  registered := h.registered
  parked w hw := by
    obtain ⟨hwaiting, hsome, hnone, hrelease⟩ := h.parked w hw
    refine ⟨hwaiting, hsome, hnone, fun r hr heq => ?_⟩
    rcases List.mem_append.mp hr with hold | hnew
    · exact hrelease r hold heq
    · intro htype
      exact hrs r hnew htype (heq ▸ hw)

theorem Inv.releaseWarps {released : List Nat} (h : Inv all parks u)
    (hreleased : ∀ w ∈ released, w ∉ parks) : Inv all parks (u.releaseWarps released) := by
  unfold BarrierSet.releaseWarps
  split
  · refine h.addReleases fun r hr _ => ?_
    obtain ⟨w, hw, rfl⟩ := List.mem_map.mp hr
    exact hreleased w (List.mem_filter.mp hw).1
  · exact h

theorem Inv.dropWaiting (h : Inv all parks u) (hw : w ∉ parks) : Inv all parks (u.dropWaiting w) where
  parks_eq := h.parks_eq
  distinct := h.distinct
  remote := h.remote
  ctas := h.ctas
  registered := h.registered
  parked x hx := by
    have hne : x ≠ w := fun heq => hw (heq ▸ hx)
    obtain ⟨⟨hlt, hat, htype⟩, hsome, hnone, hrelease⟩ := h.parked x hx
    exact ⟨⟨hlt, Finset.mem_erase.mpr ⟨hne, hat⟩, htype⟩, hsome, hnone, hrelease⟩

theorem Inv.setWaiting (h : Inv all parks u) (hw : w ∉ parks) (type : BarrierWaitType)
    (bar : Option Nat) : Inv all parks (u.setWaiting w type bar) where
  parks_eq := h.parks_eq
  distinct := h.distinct
  remote := h.remote
  ctas := h.ctas
  registered := h.registered
  parked x hx := by
    have hne : x ≠ w := fun heq => hw (heq ▸ hx)
    obtain ⟨⟨hlt, hat, htype⟩, hsome, hnone, hrelease⟩ := h.parked x hx
    refine ⟨⟨hlt, Finset.mem_insert_of_mem hat, ?_⟩, hsome, hnone, hrelease⟩
    exact (Function.update_of_ne hne _ _).trans htype

theorem clearWarpWaiting_ok (hok : u.clearWarpWaiting w type = .ok u') :
    u.Waiting w type ∧ u' = u.dropWaiting w := by
  obtain ⟨⟨⟩, hrequire, hrest⟩ := bind_eq_ok hok
  cases hrest
  exact ⟨require_ok hrequire, rfl⟩

/-- A release of another kind of wait. -/
theorem Inv.clearWarpWaiting (h : Inv all parks u) (htype : type ≠ .mbarrier)
    (hok : u.clearWarpWaiting w type = .ok u') : Inv all parks u' := by
  obtain ⟨hwaiting, rfl⟩ := clearWarpWaiting_ok hok
  exact h.dropWaiting (h.not_parked_of_type hwaiting htype)

theorem Inv.clearUnparked (h : Inv all parks u) (hw : w ∉ parks)
    (hok : u.clearWarpWaiting w type = .ok u') : Inv all parks u' := by
  obtain ⟨-, rfl⟩ := clearWarpWaiting_ok hok
  exact h.dropWaiting hw

/-- The end of a local wait cancels all its registrations. -/
theorem Inv.endWait {wait : PendingMbarrierWait} {clearWaitBit : Bool} (h : Inv all parks u)
    (hwait : u.pendingWaits w = some wait) (hok : u.endWait w wait clearWaitBit = .ok u') :
    Inv all parks u' := by
  have hnot := h.not_parked_of_wait hwait
  have hcancel : Inv all parks { u with
      manager := u.manager.cancelLanes wait.swCtaId w wait.lanes
      pendingWaits := Function.update u.pendingWaits w none } := by
    have hfewer : MbarrierManager.Fewer u.manager
        (u.manager.cancelLanes wait.swCtaId w wait.lanes) :=
      MbarrierManager.cancelLanes_fewer wait.lanes u.manager
    refine ⟨h.parks_eq, hfewer.distinct h.distinct, ?_, ?_, fun hr => h.remote (hfewer.remote hr),
      h.ctas⟩
    · intro x key hx
      obtain ⟨wait', hwait', hsw, hlane⟩ := h.registered x key (hfewer.registered x key hx)
      have hne : x ≠ w := by
        rintro rfl
        cases hwait'.symm.trans hwait
        obtain ⟨l, hl, haddr⟩ := List.mem_map.mp hlane
        have hkey : key = (wait.swCtaId, l.addr) := Prod.ext hsw.symm haddr.symm
        rw [hkey] at hx
        exact MbarrierManager.not_registered_cancelLanes wait.lanes u.manager h.distinct hl hx
      exact ⟨wait', (Function.update_of_ne hne _ _).trans hwait', hsw, hlane⟩
    · intro x hx
      have hne : x ≠ w := fun heq => hnot (heq ▸ hx)
      obtain ⟨hwaiting, hsome, hnone, hrelease⟩ := h.parked x hx
      exact ⟨hwaiting, hsome, (Function.update_of_ne hne _ _).trans hnone, hrelease⟩
  unfold BarrierSet.endWait at hok
  dsimp only at hok
  split at hok
  · exact hcancel.clearUnparked hnot hok
  · cases hok
    exact hcancel

theorem Inv.finishMbarrierWait (h : Inv all parks u) (hok : u.finishMbarrierWait w = .ok u') :
    Inv all parks u' := by
  unfold BarrierSet.finishMbarrierWait at hok
  split at hok
  · cases hok
  · rename_i wait hwait
    obtain ⟨-, -, hok⟩ := bind_eq_ok hok
    have hwritten : Inv all parks { u with
        predicates := u.predicates ++
          wait.lanes.map (fun l => PredicateWrite.mk w l.lane wait.staticInst l.result) } :=
      h.congr rfl rfl rfl rfl rfl rfl rfl rfl h.ctas
    exact hwritten.endWait hwait hok

theorem Inv.cancelMbarrierWait {clearWaitBit : Bool} (h : Inv all parks u)
    (hok : u.cancelMbarrierWait w clearWaitBit = .ok u') : Inv all parks u' := by
  unfold BarrierSet.cancelMbarrierWait at hok
  split at hok
  · cases hok
    exact h
  · rename_i wait hwait
    exact h.endWait hwait hok

theorem Inv.cleanupCtaPendingMbarrierWaits {hwCtaId : Nat} (h : Inv all parks u)
    (hok : u.cleanupCtaPendingMbarrierWaits hwCtaId = .ok u') : Inv all parks u' :=
  foldlM_invariant (Inv all parks) (fun _ _ _ _ hs => hs.cancelMbarrierWait) h hok

/-- Only a countdown of its own could release a parked warp. -/
theorem Inv.expire {r : PendingWarpRelease} (h : Inv all parks u)
    (hr : r.type = .mbarrier → r.warpId ∉ parks) (hok : u.expire r = .ok u') : Inv all parks u' := by
  unfold BarrierSet.expire at hok
  split at hok
  · cases hok
    exact h
  · obtain ⟨-, -, hok⟩ := bind_eq_ok hok
    by_cases htype : r.type = .mbarrier
    · exact h.clearUnparked (hr htype) hok
    · exact h.clearWarpWaiting htype hok

theorem Inv.expireReleases (h : Inv all parks u) (hok : u.expireReleases = .ok u') :
    Inv all parks u' := by
  have hticked : ∀ r ∈ u.pendingReleases.map PendingWarpRelease.tick,
      r.type = .mbarrier → r.warpId ∉ parks := by
    intro r hr htype hmem
    obtain ⟨r', hr', rfl⟩ := List.mem_map.mp hr
    exact (h.parked _ hmem).no_release r' hr' rfl htype
  unfold BarrierSet.expireReleases at hok
  refine foldlM_invariant (Inv all parks) (fun v r v' hr hv hok => ?_) ?_ hok
  · refine hv.expire (hticked r ?_) hok
    exact List.mem_reverse.mp (List.mem_filter.mp hr).1
  · refine ⟨h.parks_eq, h.distinct, h.registered, fun w hw => ?_, h.remote, h.ctas⟩
    obtain ⟨hwaiting, hsome, hnone, -⟩ := h.parked w hw
    refine ⟨hwaiting, hsome, hnone, fun r hr heq htype => ?_⟩
    exact hticked r (List.mem_filter.mp hr).1 htype (heq ▸ hw)

end BarrierSet

end FlashGpuSim
