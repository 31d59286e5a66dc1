import FlashGpuSim.Mbarrier.NamedBarriers
import FlashGpuSim.Mbarrier.RemoteParks

/-!
What the other operations of the barrier set leave alone: the tables of the named barriers,
the warps that wait at one and their countdowns. The history of a core is only an addition.
-/

namespace FlashGpuSim

open Lib

namespace BarrierSet

variable {u v u' : BarrierSet} {w id : Nat} {type : BarrierWaitType} {now : Nat}

theorem namedWaiting_iff : u.NamedWaiting w ↔ ∃ id, u.NamedAt w id := by
  unfold NamedWaiting NamedAt
  rw [exists_and_left, Option.isSome_iff_exists]

theorem mbarrier_ne_barSync : BarrierWaitType.mbarrier ≠ .barSync := nofun

/-- The countdowns of waits at named barriers. -/
def namedCountdowns (rs : List PendingWarpRelease) : List PendingWarpRelease :=
  rs.filter fun r => r.type = .barSync

/-- Nothing happens at the named barriers. -/
structure Aside (u u' : BarrierSet) : Prop where
  config : u'.config = u.config
  ctas : u'.ctaToWarps = u.ctaToWarps
  bits : u'.barIdToWarps = u.barIdToWarps
  counts : u'.barIdToCount = u.barIdToCount
  active : u'.warpActive = u.warpActive
  named : ∀ w id, u'.NamedAt w id ↔ u.NamedAt w id
  countdowns : namedCountdowns u'.pendingReleases = namedCountdowns u.pendingReleases

theorem Aside.refl (u : BarrierSet) : Aside u u :=
  ⟨rfl, rfl, rfl, rfl, rfl, fun _ _ => Iff.rfl, rfl⟩

theorem Aside.trans (h : Aside u v) (h' : Aside v u') : Aside u u' where
  config := h'.config.trans h.config
  ctas := h'.ctas.trans h.ctas
  bits := h'.bits.trans h.bits
  counts := h'.counts.trans h.counts
  active := h'.active.trans h.active
  named w id := (h'.named w id).trans (h.named w id)
  countdowns := h'.countdowns.trans h.countdowns

theorem Aside.namedWaiting (h : Aside u u') : u'.NamedWaiting w ↔ u.NamedWaiting w := by
  rw [namedWaiting_iff, namedWaiting_iff]
  simp only [h.named]

theorem aside_foldl {α : Type} {f : BarrierSet → α → BarrierSet} (hf : ∀ u a, Aside u (f u a))
    (l : List α) (u : BarrierSet) : Aside u (l.foldl f u) := by
  induction l generalizing u with
  | nil => exact .refl u
  | cons a l ih => exact (hf u a).trans (ih (f u a))

theorem aside_foldlM {α : Type} {f : BarrierSet → α → Except BarrierFailure BarrierSet}
    (hf : ∀ u a u', f u a = .ok u' → Aside u u') {l : List α} (hok : l.foldlM f u = .ok u') :
    Aside u u' := by
  refine foldlM_invariant (fun v => Aside u v) ?_ (.refl u) hok
  exact fun s a t _ hs hstep => hs.trans (hf s a t hstep)

/-! ### Waits of other kinds -/

/-- A warp that does not wait at a barrier may start another wait. -/
theorem aside_setWaiting (hw : ¬ u.NamedWaiting w) (type : BarrierWaitType) :
    Aside u (u.setWaiting w type none) := by
  refine ⟨rfl, rfl, rfl, rfl, rfl, ?_, rfl⟩
  intro x id
  unfold NamedAt Waiting setWaiting
  dsimp only
  rcases eq_or_ne x w with rfl | hne
  · rw [Function.update_self, Function.update_self]
    constructor
    · exact fun h => nomatch h.2
    · exact fun h => absurd (namedWaiting_iff.mpr ⟨id, h⟩) hw
  · rw [Function.update_of_ne hne, Function.update_of_ne hne, Finset.mem_insert]
    simp only [hne, false_or]

theorem not_namedWaiting_of_idle (hw : w ∉ u.warpAtBarrier) : ¬ u.NamedWaiting w :=
  fun h => hw h.1.2.1

theorem not_namedWaiting_of_type (hw : u.Waiting w type) (htype : type ≠ .barSync) :
    ¬ u.NamedWaiting w :=
  fun h => htype (hw.2.2.symm.trans h.1.2.2)

theorem aside_dropWaiting (hw : ¬ u.NamedWaiting w) : Aside u (u.dropWaiting w) := by
  refine ⟨rfl, rfl, rfl, rfl, rfl, ?_, rfl⟩
  intro x id
  unfold NamedAt Waiting dropWaiting
  dsimp only
  rcases eq_or_ne x w with rfl | hne
  · rw [Function.update_self]
    constructor
    · exact fun h => nomatch h.2
    · exact fun h => absurd (namedWaiting_iff.mpr ⟨id, h⟩) hw
  · rw [Function.update_of_ne hne, Finset.mem_erase]
    simp only [ne_eq, hne, not_false_eq_true, true_and]

theorem aside_clearWarpWaiting (htype : type ≠ .barSync)
    (hok : u.clearWarpWaiting w type = .ok u') : Aside u u' := by
  obtain ⟨hwaiting, rfl⟩ := clearWarpWaiting_ok hok
  exact aside_dropWaiting (not_namedWaiting_of_type hwaiting htype)

theorem aside_addReleases {rs : List PendingWarpRelease} (hrs : ∀ r ∈ rs, r.type ≠ .barSync) :
    Aside u { u with pendingReleases := u.pendingReleases ++ rs } := by
  refine ⟨rfl, rfl, rfl, rfl, rfl, fun _ _ => Iff.rfl, ?_⟩
  unfold namedCountdowns
  rw [List.filter_append, List.append_right_eq_self, List.filter_eq_nil_iff]
  intro r hr
  rw [decide_eq_true_eq]
  exact hrs r hr

theorem aside_releaseWarps (u : BarrierSet) (released : List Nat) :
    Aside u (u.releaseWarps released) := by
  unfold releaseWarps
  split
  · apply aside_addReleases
    intro r hr
    obtain ⟨w, -, rfl⟩ := List.mem_map.mp hr
    exact nofun
  · exact .refl u

theorem aside_enterWait (hok : u.enterWait w type = .ok u') : Aside u u' := by
  obtain ⟨_, hidle, hok⟩ := bind_eq_ok hok
  cases hok
  exact aside_setWaiting (not_namedWaiting_of_idle (require_ok hidle)) type

theorem aside_releaseDelayed {latency : Nat} (htype : type ≠ .barSync)
    (hok : u.releaseDelayed w latency type = .ok u') : Aside u u' := by
  unfold releaseDelayed at hok
  split at hok
  · exact aside_clearWarpWaiting htype hok
  · cases hok
    apply aside_addReleases
    intro r hr
    rw [List.mem_singleton.mp hr]
    exact htype

theorem aside_holdWarp {latency : Nat} (hw : ¬ u.NamedWaiting w) (htype : type ≠ .barSync) :
    Aside u (u.holdWarp w latency type) := by
  unfold holdWarp
  split
  · exact .refl u
  · refine (aside_setWaiting hw type).trans (aside_addReleases ?_)
    intro r hr
    rw [List.mem_singleton.mp hr]
    exact htype

/-! ### `mbarrier` waits -/

theorem aside_endWait {wait : PendingMbarrierWait} {clearWaitBit : Bool}
    (hok : u.endWait w wait clearWaitBit = .ok u') : Aside u u' := by
  unfold endWait at hok
  dsimp only at hok
  have hcancel : ∀ m, Aside u { u with
      manager := m, pendingWaits := Function.update u.pendingWaits w none } :=
    fun m => ⟨rfl, rfl, rfl, rfl, rfl, fun _ _ => Iff.rfl, rfl⟩
  split at hok
  · exact (hcancel _).trans (aside_clearWarpWaiting mbarrier_ne_barSync hok)
  · cases hok
    exact hcancel _

theorem aside_finishMbarrierWait (hok : u.finishMbarrierWait w = .ok u') : Aside u u' := by
  unfold finishMbarrierWait at hok
  split at hok
  · cases hok
  · obtain ⟨_, -, hok⟩ := bind_eq_ok hok
    refine Aside.trans ?_ (aside_endWait hok)
    exact ⟨rfl, rfl, rfl, rfl, rfl, fun _ _ => Iff.rfl, rfl⟩

theorem aside_cancelMbarrierWait {clearWaitBit : Bool}
    (hok : u.cancelMbarrierWait w clearWaitBit = .ok u') : Aside u u' := by
  unfold cancelMbarrierWait at hok
  split at hok
  · cases hok
    exact .refl u
  · exact aside_endWait hok

theorem aside_cleanup {hwCtaId : Nat} (hok : u.cleanupCtaPendingMbarrierWaits hwCtaId = .ok u') :
    Aside u u' :=
  aside_foldlM (fun _ _ _ => aside_cancelMbarrierWait) hok

theorem aside_setWait (u : BarrierSet) (m : MbarrierManager) (w : Nat) (wait : PendingMbarrierWait) :
    Aside u ({ u with manager := m }.setWait w wait) :=
  ⟨rfl, rfl, rfl, rfl, rfl, fun _ _ => Iff.rfl, rfl⟩

theorem aside_recheck (hok : u.recheck w now = .ok u') : Aside u u' := by
  unfold recheck at hok
  split at hok
  · cases hok
    exact .refl u
  · split at hok
    · exact aside_cancelMbarrierWait hok
    · split at hok
      · exact aside_finishMbarrierWait hok
      · obtain ⟨⟨lanes, m⟩, -, hok⟩ := bind_eq_ok hok
        dsimp only at hok
        split at hok
        · split at hok
          · cases hok
            exact aside_setWait u m w _
          · exact (aside_setWait u m w _).trans (aside_finishMbarrierWait hok)
        · cases hok
          exact aside_setWait u m w _

theorem aside_manager (u : BarrierSet) (m : MbarrierManager) : Aside u { u with manager := m } :=
  ⟨rfl, rfl, rfl, rfl, rfl, fun _ _ => Iff.rfl, rfl⟩

theorem aside_notify (u : BarrierSet) (notifiedWarps : List Nat) (now : Nat) :
    Aside u (u.notifyMbarrierPhaseChange notifiedWarps now) :=
  ⟨rfl, rfl, rfl, rfl, rfl, fun _ _ => Iff.rfl, rfl⟩

theorem aside_inject (u : BarrierSet) (dstCid dstHwCta mbarAddr : Nat) (op : ClusterMbarOp)
    (count reqHwCta reqWarpId : Nat) (parity : Int) :
    Aside u (u.injectRemoteMbar dstCid dstHwCta mbarAddr op count reqHwCta reqWarpId parity) :=
  ⟨rfl, rfl, rfl, rfl, rfl, fun _ _ => Iff.rfl, rfl⟩

theorem aside_notifyRemoteWaiters (u : BarrierSet) (ctaId mbarAddr : Nat) :
    Aside u (u.notifyRemoteWaiters ctaId mbarAddr) := by
  unfold notifyRemoteWaiters
  split
  · exact .refl u
  · dsimp only
    split
    · exact (aside_manager u _).trans
        (aside_foldl (fun u w => aside_inject u _ _ _ _ _ _ _ _) _ _)
    · exact aside_manager u _

theorem aside_wake (u : BarrierSet) (ctaId addr now : Nat) (released : List Nat)
    (m : MbarrierManager) : Aside u (u.wake ctaId addr now released m) := by
  unfold wake
  have hnotify := (aside_manager u m).trans (aside_notify _ released now)
  exact (hnotify.trans (aside_releaseWarps _ released)).trans (aside_notifyRemoteWaiters _ _ _)

theorem aside_wakeForPeer (u : BarrierSet) (ctaId addr : Nat) (released : List Nat)
    (m : MbarrierManager) : Aside u (u.wakeForPeer ctaId addr released m) := by
  unfold wakeForPeer
  have hreleased := (aside_manager u m).trans (aside_releaseWarps _ released)
  exact hreleased.trans (aside_notifyRemoteWaiters _ _ _)

theorem aside_completeTx (u : BarrierSet) (ctaId warpId addr n now : Nat) :
    Aside u (u.completeTx ctaId warpId addr n now) :=
  (aside_manager u _).trans (aside_notify _ _ now)

theorem aside_arriveAsync (u : BarrierSet) (ctaId warpId addr now : Nat) :
    Aside u (u.arriveMbarrierAsync ctaId warpId addr now) :=
  (aside_manager u _).trans (aside_notify _ _ now)

theorem aside_peer (u : BarrierSet) (ctaId addr n : Nat) :
    Aside u (u.tryCompleteTxIfPending ctaId addr n) ∧ Aside u (u.remoteArrive ctaId addr n) := by
  unfold tryCompleteTxIfPending remoteArrive
  split
  · exact ⟨.refl u, .refl u⟩
  · exact ⟨aside_wakeForPeer u _ _ _ _, aside_wakeForPeer u _ _ _ _⟩

theorem aside_lift {r : Except MbarrierFailure MbarrierManager}
    (hok : (do let m ← liftManager r; return { u with manager := m }) = .ok u') : Aside u u' := by
  obtain ⟨m, -, hok⟩ := bind_eq_ok hok
  cases hok
  exact aside_manager u m

theorem aside_releaseRemoteWaiter (hok : u.releaseRemoteWaiter w = .ok u') : Aside u u' := by
  unfold releaseRemoteWaiter at hok
  split at hok
  · cases hok
    exact .refl u
  · have hpred : Aside u (u.applyTrywaitPred w true) := by
      unfold applyTrywaitPred
      split
      · exact ⟨rfl, rfl, rfl, rfl, rfl, fun _ _ => Iff.rfl, rfl⟩
      · exact .refl u
    have hreset : ∀ inst parks, Aside u
        ({ u.applyTrywaitPred w true with trywaitInst := inst, remoteParks := parks }) :=
      fun _ _ => hpred.trans ⟨rfl, rfl, rfl, rfl, rfl, fun _ _ => Iff.rfl, rfl⟩
    dsimp only at hok
    split at hok
    · exact (hreset _ _).trans (aside_clearWarpWaiting mbarrier_ne_barSync hok)
    · cases hok
      exact (hreset _ _).trans (aside_releaseWarps _ _)

/-! ### Instructions -/

theorem aside_tryWait {ctaId inst dynamicWarpId : Nat} {lanes : List ActiveLane}
    (hidle : w ∉ u.warpAtBarrier)
    (hok : u.tryWait ctaId w inst dynamicWarpId now lanes = .ok u') : Aside u u' := by
  have hnamed := not_namedWaiting_of_idle hidle
  unfold tryWait at hok
  obtain ⟨_, -, hok⟩ := bind_eq_ok hok
  split at hok
  · obtain ⟨_, -, hok⟩ := bind_eq_ok hok
    cases hok
    have hset := aside_setWaiting hnamed .mbarrier
    exact ⟨rfl, rfl, rfl, rfl, rfl, hset.named, rfl⟩
  · unfold tryWaitLocal at hok
    obtain ⟨⟨waits, m⟩, -, hok⟩ := bind_eq_ok hok
    obtain ⟨_, -, hok⟩ := bind_eq_ok hok
    dsimp only at hok
    split at hok
    · cases hok
      refine (aside_setWait u m w _).trans (aside_setWaiting ?_ .mbarrier)
      exact hnamed
    · split at hok
      · exact (aside_setWait u m w _).trans (aside_finishMbarrierWait hok)
      · cases hok
        refine (aside_setWait u m w _).trans (aside_setWaiting ?_ .mbarrier)
        exact hnamed

theorem aside_completeTxInst {ctaId : Nat} {lanes : List ActiveLane}
    (hok : u.completeTxInst ctaId w now lanes = .ok u') : Aside u u' := by
  unfold completeTxInst at hok
  split at hok
  · cases hok
    exact .refl u
  · obtain ⟨_, -, hok⟩ := bind_eq_ok hok
    split at hok
    · split at hok
      · cases hok
        exact aside_inject u _ _ _ _ _ _ _ _
      · cases hok
        exact .refl u
    · cases hok
      exact aside_wake u _ _ _ _ _

theorem aside_arriveRemoteLane (u : BarrierSet) (isArrive isExpectTx : Bool) (info : MbarrierInfo) :
    Aside u (u.arriveRemoteLane isArrive isExpectTx info) := by
  unfold arriveRemoteLane
  split
  · split
    · exact (aside_inject u _ _ _ _ _ _ _ _).trans (aside_inject _ _ _ _ _ _ _ _ _)
    · split
      · exact aside_inject u _ _ _ _ _ _ _ _
      · exact aside_inject u _ _ _ _ _ _ _ _
  · exact .refl u

theorem aside_arriveLane {ctaId : Nat} {isArrive isExpectTx : Bool} {l : ActiveLane}
    (hok : u.arriveLane ctaId w now isArrive isExpectTx l = .ok u') : Aside u u' := by
  unfold arriveLane at hok
  split at hok
  · cases hok
    exact aside_arriveRemoteLane u isArrive isExpectTx l.info
  · dsimp only at hok
    split at hok
    · obtain ⟨m, -, hok⟩ := bind_eq_ok hok
      cases hok
      exact aside_wake u _ _ _ _ _
    · split at hok
      · cases hok
        exact aside_wake u _ _ _ _ _
      · exact aside_lift hok

theorem aside_arriveInst {ctaId : Nat} {isArrive isExpectTx : Bool} {lanes : List ActiveLane}
    (hidle : w ∉ u.warpAtBarrier)
    (hok : u.arriveInst ctaId w now isArrive isExpectTx lanes = .ok u') : Aside u u' := by
  unfold arriveInst at hok
  obtain ⟨_, -, hok⟩ := bind_eq_ok hok
  obtain ⟨v, hv, hok⟩ := bind_eq_ok hok
  have hlanes : Aside u v := aside_foldlM (fun _ _ _ => aside_arriveLane) hv
  split at hok
  · cases hok
    have hnamed : ¬ v.NamedWaiting w :=
      fun h => not_namedWaiting_of_idle hidle (hlanes.namedWaiting.mp h)
    exact hlanes.trans (aside_holdWarp hnamed mbarrier_ne_barSync)
  · cases hok
    exact hlanes

theorem aside_reachMbarrier {ctaId pc dynamicWarpId : Nat} {inst : MbarrierInst}
    {lanes : List ActiveLane} (hidle : w ∉ u.warpAtBarrier)
    (hok : u.warpReachesMbarrier ctaId w inst pc lanes dynamicWarpId now = .ok u') :
    Aside u u' := by
  cases inst with
  | tcgen05ArriveOne =>
    cases hok
    unfold tcgen05ArriveOne
    split
    · exact .refl u
    · exact aside_arriveAsync u _ _ _ _
  | init =>
    cases hok
    exact aside_foldl (fun u l => aside_manager u _) _ u
  | tryWait => exact aside_tryWait hidle hok
  | completeTx => exact aside_completeTxInst hok
  | arrive isArrive isExpectTx => exact aside_arriveInst hidle hok
  | inval => exact aside_foldlM (fun _ _ _ hinval => aside_lift hinval) hok

theorem aside_allWaits {warpIds : List Nat} (htype : type ≠ .barSync) :
    (warpIds.foldlM (fun u w => u.enterWait w type) u = .ok u' → Aside u u') ∧
      (warpIds.foldlM (fun u w => u.clearWarpWaiting w type) u = .ok u' → Aside u u') :=
  ⟨aside_foldlM fun _ _ _ => aside_enterWait,
    aside_foldlM fun _ _ _ => aside_clearWarpWaiting htype⟩

/-- The operations that are not about named barriers. -/
def OutsideNamed : BarrierOp → Prop
  | .reachBarrier _ _ _ _ _ | .cycle _ | .allocate _ _ _ | .deallocate _ | .warpExit _ _ => False
  | _ => True

theorem aside_step {op : BarrierOp} (hop : OutsideNamed op) (hvalid : u.Valid op)
    (hdirect : NamedCore.direct op = true) (hok : u.step op = .ok u') : Aside u u' := by
  cases op with
  | reachMbarrier ctaId warpId inst pc lanes dynamicWarpId now =>
    exact aside_reachMbarrier hvalid.2.2 hok
  | reachBarrier => exact hop.elim
  | completeTx ctaId warpId addr n now =>
    cases hok
    exact aside_completeTx u _ _ _ _ _
  | prepareAsyncArrival => exact aside_lift hok
  | arriveAsync =>
    cases hok
    exact aside_arriveAsync u _ _ _ _
  | tryCompleteTxIfPending =>
    cases hok
    exact (aside_peer u _ _ _).1
  | remoteArrive =>
    cases hok
    exact (aside_peer u _ _ _).2
  | remoteExpectTx ctaId addr n =>
    change u.remoteExpectTx ctaId addr n = .ok u' at hok
    unfold remoteExpectTx at hok
    split at hok
    · cases hok
      exact .refl u
    · exact aside_lift hok
  | registerRemoteWait ctaId addr r =>
    cases hok
    unfold registerRemoteWait
    split
    · exact .refl u
    · exact aside_manager u _
  | notifyRemoteWaiters =>
    cases hok
    exact aside_notifyRemoteWaiters u _ _
  | releaseRemoteWaiter => exact aside_releaseRemoteWaiter hok
  | cycle => exact hop.elim
  | holdWarp warpId latency type =>
    cases hok
    exact aside_holdWarp (not_namedWaiting_of_idle hvalid) (of_decide_eq_true hdirect)
  | waitCpAsyncGroup => exact aside_enterWait hok
  | releaseCpAsyncWarp =>
    obtain ⟨_, -, hok⟩ := bind_eq_ok hok
    have hne : BarrierWaitType.cpAsyncGroup ≠ .barSync := nofun
    exact aside_releaseDelayed hne hok
  | waitTcgen05Warp => exact aside_enterWait hok
  | releaseTcgen05Warp =>
    have hne : BarrierWaitType.tcgen05 ≠ .barSync := nofun
    exact aside_clearWarpWaiting hne hok
  | waitClusterBarrier => exact aside_enterWait hok
  | releaseClusterBarrier =>
    have hne : BarrierWaitType.cluster ≠ .barSync := nofun
    exact aside_clearWarpWaiting hne hok
  | setWgmmaWaitingWarps =>
    have hne : BarrierWaitType.wgmmaGroup ≠ .barSync := nofun
    exact (aside_allWaits hne).1 hok
  | releaseWgmmaWarps =>
    have hne : BarrierWaitType.wgmmaGroup ≠ .barSync := nofun
    exact (aside_allWaits hne).2 hok
  | waitBulkGroup warpId satisfied =>
    cases satisfied with
    | true =>
      cases hok
      exact .refl u
    | false => exact aside_enterWait hok
  | completeBulkTx warpId satisfied =>
    have hne : BarrierWaitType.bulkGroup ≠ .barSync := nofun
    cases satisfied with
    | true => exact aside_clearWarpWaiting hne hok
    | false =>
      cases hok
      exact .refl u
  | allocate => exact hop.elim
  | deallocate => exact hop.elim
  | cleanupCta =>
    obtain ⟨v, hv, hok⟩ := bind_eq_ok hok
    cases hok
    exact (aside_cleanup hv).trans (aside_manager v _)
  | reset =>
    obtain ⟨v, hv, hok⟩ := bind_eq_ok hok
    cases hok
    exact Aside.trans (aside_foldlM (fun _ _ _ => aside_cancelMbarrierWait) hv) (aside_manager v _)
  | warpExit => exact hop.elim

end BarrierSet

/-! ### The history is an addition -/

namespace NamedCore

open BarrierSet

variable {c : NamedCore}

theorem set_releaseBarrier (ctaId barId : Nat) (cause : ReleaseCause)
    (atBarrier broadcast : Finset Nat) :
    NamedCore.set <$> c.releaseBarrier ctaId barId cause atBarrier broadcast =
      liftBarrier (c.set.releaseBarrier ctaId barId atBarrier) := by
  unfold releaseBarrier
  cases c.set.releaseBarrier ctaId barId atBarrier with
  | ok set => rfl
  | error e => rfl

theorem set_reachBarrier (ctaId : Nat) (a : Arrival) :
    NamedCore.set <$> c.reachBarrier ctaId a =
      liftBarrier (c.set.warpReachesBarrier ctaId a.warpId a.barType a.barId a.barCount) := by
  unfold reachBarrier warpReachesBarrier
  cases hcta : c.set.ctaToWarps ctaId with
  | none => rfl
  | some warpsInCta =>
    dsimp only
    by_cases hmem : a.warpId ∈ warpsInCta
    · rw [require_pass (decide_eq_true hmem), require_pass (decide_eq_true hmem)]
      dsimp only [bind, Except.bind, record]
      by_cases hreached : (c.set.enterBarrier ctaId a.warpId a.barType a.barId
          a.barCount).barrierReached ctaId a.barId a.barCount warpsInCta = true
      · simp only [hreached, if_true]
        exact set_releaseBarrier _ _ _ _ _
      · simp only [hreached]
        rfl
    · have hfail : decide (a.warpId ∈ warpsInCta) = false := decide_eq_false hmem
      rw [hfail]
      rfl

theorem set_bind {r : Except NamedFailure NamedCore} {s : Except BarrierFailure BarrierSet}
    {f : NamedCore → Except NamedFailure NamedCore}
    {g : BarrierSet → Except BarrierFailure BarrierSet} (h : NamedCore.set <$> r = liftBarrier s)
    (hf : ∀ c, NamedCore.set <$> f c = liftBarrier (g c.set)) :
    NamedCore.set <$> (r >>= f) = liftBarrier (s >>= g) := by
  cases r with
  | ok c =>
    cases s with
    | ok set =>
      cases h
      exact hf c
    | error e => cases h
  | error e =>
    cases s with
    | ok set => cases h
    | error e' =>
      cases h
      rfl

theorem set_foldlM {α : Type} {f : NamedCore → α → Except NamedFailure NamedCore}
    {g : BarrierSet → α → Except BarrierFailure BarrierSet}
    (h : ∀ c a, NamedCore.set <$> f c a = liftBarrier (g c.set a)) (l : List α) (c : NamedCore) :
    NamedCore.set <$> l.foldlM f c = liftBarrier (l.foldlM g c.set) := by
  induction l generalizing c with
  | nil => rfl
  | cons a l ih =>
    rw [List.foldlM_cons, List.foldlM_cons]
    exact set_bind (h c a) ih

theorem set_warpExit (ctaId warpId : Nat) :
    NamedCore.set <$> c.warpExit ctaId warpId = liftBarrier (c.set.warpExit ctaId warpId) := by
  unfold warpExit BarrierSet.warpExit
  cases c.set.cancelMbarrierWait warpId true with
  | error e => rfl
  | ok set =>
    dsimp only [liftBarrier, bind, Except.bind]
    cases set.ctaToWarps ctaId with
    | none => rfl
    | some warpsInCta =>
      dsimp only
      by_cases hmem : warpId ∈ warpsInCta
      · rw [require_pass (decide_eq_true hmem), require_pass (decide_eq_true hmem)]
        apply set_foldlM
        intro c bar
        unfold releaseOnExit
        dsimp only
        split
        · exact set_releaseBarrier _ _ _ _ _
        · rfl
      · have hfail : decide (warpId ∈ warpsInCta) = false := decide_eq_false hmem
        rw [hfail]
        rfl

theorem set_cycle (now : Nat) :
    NamedCore.set <$> c.cycle now = liftBarrier (c.set.cycle now) := by
  unfold cycle BarrierSet.cycle expireReleases
  dsimp only
  apply set_bind
  · apply set_foldlM
    intro c r
    unfold expire
    cases c.set.expire r with
    | ok set => rfl
    | error e => rfl
  · intro c
    cases ((c.set.waitsWhere fun wait => decide (now ≥ wait.nextRecheckCycle)).foldlM
      (fun u w => u.recheck w now) c.set) with
    | ok set => rfl
    | error e => rfl

/-- Without its history a step of the core is one of the barrier set. -/
theorem set_operate (op : BarrierOp) :
    NamedCore.set <$> c.operate op = liftBarrier (c.set.step op) := by
  have hother : NamedCore.set <$> (do
      let set ← liftBarrier (c.set.step op)
      pure { c with set := set } : Except NamedFailure NamedCore) =
      liftBarrier (c.set.step op) := by
    cases c.set.step op with
    | ok set => rfl
    | error e => rfl
  cases op with
  | cycle now => exact set_cycle now
  | allocate ctaId warps info =>
    change NamedCore.set <$> (do
      let set ← liftBarrier (c.set.allocateBarrier ctaId warps info)
      pure (c.record set [.allocated ctaId warps])) =
        liftBarrier (c.set.allocateBarrier ctaId warps info)
    cases c.set.allocateBarrier ctaId warps info with
    | ok set => rfl
    | error e => rfl
  | _ => exact hother

end NamedCore

end FlashGpuSim
