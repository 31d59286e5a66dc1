import FlashGpuSim.Lib.Reach
import FlashGpuSim.Mbarrier.Parks

/-!
Remote `try_wait`s over whole runs: a parked warp waits until its barrier reports, unless
a countdown from before the park is still under way.
-/

namespace FlashGpuSim

open Lib

namespace BarrierSet

variable {u u' : BarrierSet} {all : Prop} {parks : Finset Nat} {w warpId : Nat} {t : ThreadIndex}
  {m m' : MbarrierManager} {now : Nat}

theorem liftManager_ok {α : Type} {r : Except MbarrierFailure α} {a : α}
    (h : liftManager r = .ok a) : r = .ok a := by
  cases r with
  | ok b =>
    cases h
    rfl
  | error e => cases h

theorem recheckLane_ok {l l' : LaneWait} (h : recheckLane t now l m = .ok (l', m')) :
    l'.addr = l.addr ∧ MbarrierManager.Registers t.hwWarpId t.swCtaId [l.addr] m m' := by
  unfold recheckLane at h
  split at h
  · cases h
    exact ⟨rfl, (MbarrierManager.Fewer.refl m).registers⟩
  · obtain ⟨complete, -, h⟩ := bind_eq_ok h
    split at h
    · cases h
      exact ⟨rfl, (MbarrierManager.Fewer.refl m).registers⟩
    · cases h
      exact ⟨rfl, (MbarrierManager.Fewer.refl m).registers⟩
    · obtain ⟨m₁, hm₁, h⟩ := bind_eq_ok h
      cases h
      exact ⟨rfl, MbarrierManager.registerWait_registers hm₁⟩

/-- A recheck registers the lanes at the addresses where they wait. -/
theorem recheckLanes_ok {lanes lanes' : List LaneWait}
    (h : recheckLanes t now lanes m = .ok (lanes', m')) :
    lanes'.map LaneWait.addr = lanes.map LaneWait.addr ∧
      MbarrierManager.Registers t.hwWarpId t.swCtaId (lanes.map LaneWait.addr) m m' := by
  induction lanes generalizing m lanes' with
  | nil =>
    cases h
    exact ⟨rfl, (MbarrierManager.Fewer.refl _).registers⟩
  | cons l rest ih =>
    obtain ⟨⟨l', m₁⟩, hlane, h⟩ := bind_eq_ok h
    obtain ⟨⟨rest', m₂⟩, hrest, h⟩ := bind_eq_ok h
    cases h
    obtain ⟨haddr, hreg⟩ := recheckLane_ok hlane
    obtain ⟨haddrs, hregs⟩ := ih hrest
    refine ⟨?_, hreg.trans hregs⟩
    rw [List.map_cons, List.map_cons, haddr, haddrs]

theorem Inv.recheck (h : Inv all parks u) (hok : u.recheck w now = .ok u') : Inv all parks u' := by
  unfold BarrierSet.recheck at hok
  split at hok
  · cases hok
    exact h
  · rename_i wait hwait
    have hnot := h.not_parked_of_wait hwait
    split at hok
    · exact h.cancelMbarrierWait hok
    · split at hok
      · exact h.finishMbarrierWait hok
      · obtain ⟨⟨lanes, m⟩, hlanes, hok⟩ := bind_eq_ok hok
        obtain ⟨haddrs, hregs⟩ := recheckLanes_ok (liftManager_ok hlanes)
        have hset : ∀ wait' : PendingMbarrierWait, wait'.swCtaId = wait.swCtaId →
            wait'.lanes = lanes → Inv all parks ({ u with manager := m }.setWait w wait') := by
          intro wait' hsw hlanes'
          apply h.setWait hnot
          · rw [hsw, hlanes', haddrs]
            exact hregs
          · rw [hsw, hlanes', haddrs]
            intro key hkey
            obtain ⟨wait'', hwait'', hrest⟩ := h.registered w key hkey
            cases hwait''.symm.trans hwait
            exact hrest
        dsimp only at hok
        split at hok
        · split at hok
          · cases hok
            exact hset _ rfl rfl
          · exact (hset { wait with lanes := lanes } rfl rfl).finishMbarrierWait hok
        · cases hok
          exact hset _ rfl rfl

theorem Inv.cycle (h : Inv all parks u) (hok : u.cycle now = .ok u') : Inv all parks u' := by
  obtain ⟨v, hv, hok⟩ := bind_eq_ok hok
  exact foldlM_invariant (Inv all parks) (fun _ _ _ _ hs => hs.recheck) (h.expireReleases hv) hok

theorem Inv.injectRemoteMbar (h : Inv all parks u) (dstCid dstHwCta mbarAddr : Nat)
    (op : ClusterMbarOp) (count reqHwCta reqWarpId : Nat) (parity : Int) :
    Inv all parks (u.injectRemoteMbar dstCid dstHwCta mbarAddr op count reqHwCta reqWarpId parity) :=
  h.congr rfl rfl rfl rfl rfl rfl rfl rfl h.ctas

theorem Inv.notifyRemoteWaiters (h : Inv all parks u) (ctaId mbarAddr : Nat) :
    Inv all parks (u.notifyRemoteWaiters ctaId mbarAddr) := by
  unfold BarrierSet.notifyRemoteWaiters
  split
  · exact h
  · rename_i t _
    have hset := h.setManager
      (MbarrierManager.takeSatisfiedRemoteWaiters_fewer (m := u.manager) t.swCtaId mbarAddr)
    dsimp only
    split
    · refine List.foldlRecOn _ _ hset fun v hv r _ => ?_
      exact hv.injectRemoteMbar _ _ _ _ _ _ _ _
    · exact hset

/-- The barriers after an operation that released registered warps. -/
theorem Inv.wake {released : List Nat} {key : Int × Nat} (h : Inv all parks u)
    (hm : MbarrierManager.Fewer u.manager m)
    (hreleased : ∀ w ∈ released, u.manager.Registered w key) (ctaId addr now : Nat) :
    Inv all parks (u.wake ctaId addr now released m) := by
  unfold BarrierSet.wake
  refine Inv.notifyRemoteWaiters (Inv.releaseWarps ?_ ?_) ctaId addr
  · exact (h.setManager hm).notifyMbarrierPhaseChange released now
  · exact fun w hw => h.not_parked_of_registered (hreleased w hw)

theorem Inv.completeTx (h : Inv all parks u) (ctaId warpId addr n now : Nat) :
    Inv all parks (u.completeTx ctaId warpId addr n now) :=
  (h.setManager (MbarrierManager.completeTx_fewer _ addr n)).notifyMbarrierPhaseChange _ now

theorem Inv.arriveMbarrierAsync (h : Inv all parks u) (ctaId warpId addr now : Nat) :
    Inv all parks (u.arriveMbarrierAsync ctaId warpId addr now) :=
  (h.setManager (MbarrierManager.arrive_fewer _ addr 1)).notifyMbarrierPhaseChange _ now

theorem Inv.wakeForPeer {released : List Nat} {key : Int × Nat} (h : Inv all parks u)
    (hm : MbarrierManager.Fewer u.manager m)
    (hreleased : ∀ w ∈ released, u.manager.Registered w key) (ctaId addr : Nat) :
    Inv all parks (u.wakeForPeer ctaId addr released m) := by
  refine Inv.notifyRemoteWaiters (Inv.releaseWarps (h.setManager hm) fun w hw => ?_) ctaId addr
  exact h.not_parked_of_registered (hreleased w hw)

theorem Inv.tryCompleteTxIfPending (h : Inv all parks u) (ctaId addr n : Nat) :
    Inv all parks (u.tryCompleteTxIfPending ctaId addr n) := by
  unfold BarrierSet.tryCompleteTxIfPending
  split
  · exact h
  · rename_i t _
    rw [MbarrierManager.tryCompleteTxIfPending_eq]
    exact h.wakeForPeer (MbarrierManager.completeTx_fewer t addr n)
      (fun w hw => MbarrierManager.completeTx_released hw) ctaId addr

theorem Inv.remoteArrive (h : Inv all parks u) (ctaId addr n : Nat) :
    Inv all parks (u.remoteArrive ctaId addr n) := by
  unfold BarrierSet.remoteArrive
  split
  · exact h
  · rename_i t _
    exact h.wakeForPeer (MbarrierManager.arrive_fewer t addr n)
      (fun w hw => MbarrierManager.arrive_released hw) ctaId addr

theorem Inv.remoteExpectTx {ctaId addr n : Nat} (h : Inv all parks u)
    (hok : u.remoteExpectTx ctaId addr n = .ok u') : Inv all parks u' := by
  unfold BarrierSet.remoteExpectTx at hok
  split at hok
  · cases hok
    exact h
  · obtain ⟨m, hm, hok⟩ := bind_eq_ok hok
    cases hok
    exact h.setManager (MbarrierManager.expectTx_fewer (liftManager_ok hm))

theorem Inv.registerRemoteWait (h : Inv all parks u) (hpath : u.config.hasRemotePath = true)
    (ctaId addr : Nat) (r : RemoteWaiter) :
    Inv all parks (u.registerRemoteWait ctaId addr r).2 := by
  unfold BarrierSet.registerRemoteWait
  split
  · exact h
  · rename_i t _
    obtain ⟨hregistered, hdistinct⟩ :=
      MbarrierManager.registerRemoteWait_local (m := u.manager) t.swCtaId addr r
    exact ⟨h.parks_eq, hdistinct h.distinct,
      fun w key hw => h.registered w key (hregistered w key hw),
      fun w hw => ⟨(h.parked w hw).waiting, (h.parked w hw).inst, (h.parked w hw).no_wait,
        (h.parked w hw).no_release⟩, fun _ => hpath, h.ctas⟩

/-- The end of a remote wait. A countdown may follow, but the warp is not parked any more. -/
theorem Inv.releaseRemoteWaiter (h : Inv all parks u) (hok : u.releaseRemoteWaiter w = .ok u') :
    Inv all (parks.erase w) u' ∨ (u.config.maxWarpsPerCore ≤ w ∧ u' = u) := by
  unfold BarrierSet.releaseRemoteWaiter at hok
  split at hok
  · rename_i hge
    cases hok
    exact .inr ⟨hge, rfl⟩
  · left
    have hbase : Inv all (parks.erase w) { u.applyTrywaitPred w true with
        trywaitInst := Function.update u.trywaitInst w none
        remoteParks := u.remoteParks.erase w } := by
      have hsame : Inv all parks (u.applyTrywaitPred w true) := by
        unfold applyTrywaitPred
        split
        · exact h.congr rfl rfl rfl rfl rfl rfl rfl rfl h.ctas
        · exact h
      refine ⟨fun hall => congrArg (Finset.erase · w) (h.parks_eq hall), hsame.distinct,
        hsame.registered, fun x hx => ?_, hsame.remote, hsame.ctas⟩
      obtain ⟨hne, hmem⟩ := Finset.mem_erase.mp hx
      obtain ⟨hwaiting, -, hnone, hrelease⟩ := hsame.parked x hmem
      refine ⟨hwaiting, ?_, hnone, hrelease⟩
      change (Function.update u.trywaitInst w none x).isSome = true
      rw [Function.update_of_ne hne]
      exact (h.parked x hmem).inst
    dsimp only at hok
    split at hok
    · exact hbase.clearUnparked (Finset.notMem_erase w parks) hok
    · cases hok
      refine hbase.releaseWarps fun x hx => ?_
      rw [List.mem_singleton.mp hx]
      exact Finset.notMem_erase w parks

theorem Inv.initLane (h : Inv all parks u) (ctaId warpId : Nat) (l : ActiveLane) :
    Inv all parks (u.initLane ctaId warpId l) :=
  h.setManager (MbarrierManager.init_fewer _ l.info.barId l.info.barCount)

theorem Inv.invalLane {ctaId : Nat} {l : ActiveLane} (h : Inv all parks u)
    (hok : u.invalLane ctaId warpId l = .ok u') : Inv all parks u' := by
  obtain ⟨m, hm, hok⟩ := bind_eq_ok hok
  cases hok
  exact h.setManager (MbarrierManager.inval_fewer (liftManager_ok hm))

/-- A park without an open countdown of the warp. -/
theorem Inv.parkRemote (h : Inv all parks u) (hlt : w < u.config.maxWarpsPerCore)
    (hidle : w ∉ u.warpAtBarrier) (hwait : u.pendingWaits w = none)
    (hsettled : ∀ r ∈ u.pendingReleases, r.warpId = w → r.type ≠ .mbarrier)
    (ctaId inst : Nat) (lanes : List ActiveLane) (info : MbarrierInfo) :
    Inv all (insert w parks) (u.parkRemote ctaId w inst lanes info) := by
  have hnot := h.not_parked_of_idle hidle
  have hset := (h.injectRemoteMbar info.remoteCid info.remoteHwCta info.barId .waitReg 0 ctaId w
    info.barParity.toInt).setWaiting hnot .mbarrier none
  refine ⟨fun hall => congrArg (insert w) (h.parks_eq hall), hset.distinct, hset.registered,
    fun x hx => ?_, hset.remote, hset.ctas⟩
  rcases Finset.mem_insert.mp hx with rfl | hmem
  · refine ⟨⟨hlt, Finset.mem_insert_self _ _, Function.update_self _ _ _⟩, ?_, hwait, hsettled⟩
    unfold BarrierSet.parkRemote
    dsimp only
    rw [Function.update_self]
    rfl
  · have hne : x ≠ w := fun heq => hnot (heq ▸ hmem)
    obtain ⟨hwaiting, hsome, hnone, hrelease⟩ := hset.parked x hmem
    refine ⟨hwaiting, ?_, hnone, hrelease⟩
    unfold BarrierSet.parkRemote
    dsimp only
    rw [Function.update_of_ne hne]
    exact hsome

/-- A park that is not kept track of. -/
theorem Inv.parkUntracked (h : Inv all parks u) (hall : ¬ all) (hidle : w ∉ u.warpAtBarrier)
    (ctaId inst : Nat) (lanes : List ActiveLane) (info : MbarrierInfo) :
    Inv all parks (u.parkRemote ctaId w inst lanes info) := by
  have hnot := h.not_parked_of_idle hidle
  have hset := (h.injectRemoteMbar info.remoteCid info.remoteHwCta info.barId .waitReg 0 ctaId w
    info.barParity.toInt).setWaiting hnot .mbarrier none
  refine ⟨fun hyes => absurd hyes hall, hset.distinct, hset.registered, fun x hx => ?_,
    hset.remote, hset.ctas⟩
  have hne : x ≠ w := fun heq => hnot (heq ▸ hx)
  obtain ⟨hwaiting, hsome, hnone, hrelease⟩ := hset.parked x hx
  refine ⟨hwaiting, ?_, hnone, hrelease⟩
  unfold BarrierSet.parkRemote
  dsimp only
  rw [Function.update_of_ne hne]
  exact hsome

theorem startLane_ok {l : ActiveLane} {lane : LaneWait}
    (h : u.startLane t now l m = .ok (lane, m')) :
    MbarrierManager.Registers t.hwWarpId t.swCtaId [lane.addr] m m' := by
  obtain ⟨-, -, h⟩ := bind_eq_ok h
  obtain ⟨complete, -, h⟩ := bind_eq_ok h
  dsimp only at h
  split at h
  · cases h
    exact (MbarrierManager.Fewer.refl m).registers
  · split at h
    · cases h
      exact (MbarrierManager.Fewer.refl m).registers
    · obtain ⟨m₁, hm₁, h⟩ := bind_eq_ok h
      cases h
      exact MbarrierManager.registerWait_registers (liftManager_ok hm₁)

theorem startLanes_ok {lanes : List ActiveLane} {waits : List LaneWait}
    (h : u.startLanes t now lanes m = .ok (waits, m')) :
    MbarrierManager.Registers t.hwWarpId t.swCtaId (waits.map LaneWait.addr) m m' := by
  induction lanes generalizing m waits with
  | nil =>
    cases h
    exact (MbarrierManager.Fewer.refl _).registers
  | cons l rest ih =>
    obtain ⟨⟨lane, m₁⟩, hlane, h⟩ := bind_eq_ok h
    obtain ⟨⟨waits', m₂⟩, hrest, h⟩ := bind_eq_ok h
    cases h
    exact (startLane_ok hlane).trans (ih hrest)

theorem Inv.tryWaitLocal {ctaId inst dynamicWarpId : Nat} {lanes : List ActiveLane}
    (h : Inv all parks u) (hidle : w ∉ u.warpAtBarrier) (hwait : u.pendingWaits w = none)
    (hok : u.tryWaitLocal ctaId w inst dynamicWarpId now lanes = .ok u') : Inv all parks u' := by
  have hnot := h.not_parked_of_idle hidle
  obtain ⟨⟨waits, m⟩, hwaits, hok⟩ := bind_eq_ok hok
  obtain ⟨-, -, hok⟩ := bind_eq_ok hok
  have hset : ∀ wait : PendingMbarrierWait,
      wait.swCtaId = (u.threadIndex ctaId w).swCtaId → wait.lanes = waits →
        Inv all parks ({ u with manager := m }.setWait w wait) := by
    intro wait hsw hlanes
    apply h.setWait hnot
    · rw [hsw, hlanes]
      exact startLanes_ok hwaits
    · intro key hkey
      obtain ⟨wait', hwait', -⟩ := h.registered w key hkey
      exact nomatch hwait.symm.trans hwait'
  dsimp only at hok
  split at hok
  · cases hok
    exact (hset _ rfl rfl).setWaiting hnot _ _
  · split at hok
    · exact (hset _ rfl rfl).finishMbarrierWait hok
    · cases hok
      exact (hset _ rfl rfl).setWaiting hnot _ _

theorem Inv.tcgen05ArriveOne (h : Inv all parks u) (ctaId warpId : Nat) (lanes : List ActiveLane)
    (now : Nat) : Inv all parks (u.tcgen05ArriveOne ctaId warpId lanes now) := by
  unfold BarrierSet.tcgen05ArriveOne
  split
  · exact h
  · exact h.arriveMbarrierAsync ctaId warpId _ now

theorem Inv.completeTxInst {ctaId : Nat} {lanes : List ActiveLane} (h : Inv all parks u)
    (hok : u.completeTxInst ctaId warpId now lanes = .ok u') : Inv all parks u' := by
  unfold BarrierSet.completeTxInst at hok
  split at hok
  · cases hok
    exact h
  · rename_i r rest _
    obtain ⟨-, -, hok⟩ := bind_eq_ok hok
    split at hok
    · split at hok
      · cases hok
        exact h.injectRemoteMbar _ _ _ _ _ _ _ _
      · cases hok
        exact h
    · cases hok
      exact h.wake (MbarrierManager.completeTx_fewer _ _ _)
        (fun w hw => MbarrierManager.completeTx_released hw) ctaId _ now

theorem Inv.arriveRemoteLane (h : Inv all parks u) (isArrive isExpectTx : Bool)
    (info : MbarrierInfo) : Inv all parks (u.arriveRemoteLane isArrive isExpectTx info) := by
  unfold BarrierSet.arriveRemoteLane
  split
  · split
    · exact (h.injectRemoteMbar _ _ _ _ _ _ _ _).injectRemoteMbar _ _ _ _ _ _ _ _
    · split
      · exact h.injectRemoteMbar _ _ _ _ _ _ _ _
      · exact h.injectRemoteMbar _ _ _ _ _ _ _ _
  · exact h

theorem Inv.arriveLane {ctaId : Nat} {isArrive isExpectTx : Bool} {l : ActiveLane}
    (h : Inv all parks u) (hok : u.arriveLane ctaId warpId now isArrive isExpectTx l = .ok u') :
    Inv all parks u' := by
  unfold BarrierSet.arriveLane at hok
  split at hok
  · cases hok
    exact h.arriveRemoteLane isArrive isExpectTx l.info
  · dsimp only at hok
    split at hok
    · obtain ⟨m, hm, hok⟩ := bind_eq_ok hok
      cases hok
      have hexpect := MbarrierManager.expectTx_fewer (liftManager_ok hm)
      have hreleased : ∀ w ∈ (m.arrive (u.threadIndex ctaId warpId) l.info.barId 1).1,
          u.manager.Registered w ((u.threadIndex ctaId warpId).swCtaId, l.info.barId) :=
        fun w hw => hexpect.registered _ _ (MbarrierManager.arrive_released hw)
      exact h.wake (hexpect.trans (MbarrierManager.arrive_fewer _ _ 1)) hreleased ctaId _ now
    · split at hok
      · cases hok
        exact h.wake (MbarrierManager.arrive_fewer _ _ _)
          (fun w hw => MbarrierManager.arrive_released hw) ctaId _ now
      · obtain ⟨m, hm, hok⟩ := bind_eq_ok hok
        cases hok
        exact h.setManager (MbarrierManager.expectTx_fewer (liftManager_ok hm))

theorem Inv.holdWarp (h : Inv all parks u) (hw : w ∉ parks) (latency : Nat)
    (type : BarrierWaitType) : Inv all parks (u.holdWarp w latency type) := by
  unfold BarrierSet.holdWarp
  split
  · exact h
  · refine (h.setWaiting hw type none).addReleases (fun r hr _ => ?_)
    rw [List.mem_singleton.mp hr]
    exact hw

theorem Inv.arriveInst {ctaId : Nat} {isArrive isExpectTx : Bool} {lanes : List ActiveLane}
    (h : Inv all parks u) (hw : w ∉ parks)
    (hok : u.arriveInst ctaId w now isArrive isExpectTx lanes = .ok u') : Inv all parks u' := by
  obtain ⟨-, -, hok⟩ := bind_eq_ok hok
  obtain ⟨v, hv, hok⟩ := bind_eq_ok hok
  have hlanes : Inv all parks v := foldlM_invariant (Inv all parks) (fun _ _ _ _ hs => hs.arriveLane) h hv
  split at hok
  · cases hok
    exact hlanes.holdWarp hw _ _
  · cases hok
    exact hlanes

/-- A remote `try_wait` is issued when no countdown of an earlier wait of the warp is under
way. -/
def Settled (u : BarrierSet) : BarrierOp → Prop
  | .reachMbarrier _ warpId .tryWait _ lanes _ _ =>
    remoteLanes lanes ≠ [] → ∀ r ∈ u.pendingReleases, r.warpId = warpId → r.type ≠ .mbarrier
  | _ => True

theorem Inv.tryWait {ctaId inst dynamicWarpId : Nat} {lanes : List ActiveLane} (h : Inv all parks u)
    (hlt : w < u.config.maxWarpsPerCore) (hidle : w ∉ u.warpAtBarrier)
    (hsettled : all → remoteLanes lanes ≠ [] →
      ∀ r ∈ u.pendingReleases, r.warpId = w → r.type ≠ .mbarrier)
    (hok : u.tryWait ctaId w inst dynamicWarpId now lanes = .ok u') :
    ∃ parks', parks ⊆ parks' ∧ Inv all parks' u' := by
  obtain ⟨⟨⟩, hnone, hok⟩ := bind_eq_ok hok
  have hwait : u.pendingWaits w = none := by
    unfold require at hnone
    split at hnone
    · rename_i hisNone
      exact Option.isNone_iff_eq_none.mp hisNone
    · cases hnone
  split at hok
  · rename_i r rest hremote _
    obtain ⟨-, -, hok⟩ := bind_eq_ok hok
    cases hok
    by_cases hall : all
    · refine ⟨insert w parks, Finset.subset_insert w parks, ?_⟩
      exact h.parkRemote hlt hidle hwait
        (hsettled hall (hremote ▸ List.cons_ne_nil _ _)) ctaId inst lanes r.info
    · exact ⟨parks, subset_rfl, h.parkUntracked hall hidle ctaId inst lanes r.info⟩
  · exact ⟨parks, subset_rfl, h.tryWaitLocal hidle hwait hok⟩

theorem Inv.reachMbarrier {ctaId pc dynamicWarpId : Nat} {inst : MbarrierInst}
    {lanes : List ActiveLane} (h : Inv all parks u)
    (hvalid : u.Valid (.reachMbarrier ctaId w inst pc lanes dynamicWarpId now))
    (hsettled : all → u.Settled (.reachMbarrier ctaId w inst pc lanes dynamicWarpId now))
    (hok : u.warpReachesMbarrier ctaId w inst pc lanes dynamicWarpId now = .ok u') :
    ∃ parks', parks ⊆ parks' ∧ Inv all parks' u' := by
  obtain ⟨hlt, -, hidle⟩ := hvalid
  cases inst with
  | tcgen05ArriveOne =>
    cases hok
    exact ⟨parks, subset_rfl, h.tcgen05ArriveOne ctaId w lanes now⟩
  | init =>
    cases hok
    refine ⟨parks, subset_rfl, List.foldlRecOn _ _ h fun v hv l _ => ?_⟩
    exact hv.initLane ctaId w l
  | tryWait => exact h.tryWait hlt hidle hsettled hok
  | completeTx => exact ⟨parks, subset_rfl, h.completeTxInst hok⟩
  | arrive isArrive isExpectTx =>
    exact ⟨parks, subset_rfl, h.arriveInst (h.not_parked_of_idle hidle) hok⟩
  | inval =>
    exact ⟨parks, subset_rfl,
      foldlM_invariant (Inv all parks) (fun _ _ _ _ hs => hs.invalLane) h hok⟩

theorem Inv.releaseDelayed {latency : Nat} {type : BarrierWaitType} (h : Inv all parks u)
    (htype : type ≠ .mbarrier) (hok : u.releaseDelayed w latency type = .ok u') :
    Inv all parks u' := by
  unfold BarrierSet.releaseDelayed at hok
  split at hok
  · exact h.clearWarpWaiting htype hok
  · cases hok
    refine h.addReleases fun r hr hmbarrier => ?_
    rw [List.mem_singleton.mp hr] at hmbarrier
    exact absurd hmbarrier htype

theorem Inv.releaseBarrier {ctaId barId : Nat} {atBarrier : Finset Nat} (h : Inv all parks u)
    (hok : u.releaseBarrier ctaId barId atBarrier = .ok u') : Inv all parks u' := by
  obtain ⟨v, hv, hok⟩ := bind_eq_ok hok
  cases hok
  have hcleared : Inv all parks v := by
    have htype : BarrierWaitType.barSync ≠ .mbarrier := by decide
    refine foldlM_invariant (Inv all parks) (fun _ _ _ _ hs => hs.releaseDelayed htype) ?_ hv
    exact h.congr rfl rfl rfl rfl rfl rfl rfl rfl h.ctas
  exact hcleared.congr rfl rfl rfl rfl rfl rfl rfl rfl hcleared.ctas

theorem Inv.reachBarrier {ctaId barId : Nat} {barType : BarrierType} {barCount : Option Nat}
    (h : Inv all parks u) (hidle : barType ≠ .arrive → w ∉ u.warpAtBarrier)
    (hok : u.warpReachesBarrier ctaId w barType barId barCount = .ok u') : Inv all parks u' := by
  have henter : Inv all parks (u.enterBarrier ctaId w barType barId barCount) := by
    unfold BarrierSet.enterBarrier
    dsimp only
    split
    · exact h.congr rfl rfl rfl rfl rfl rfl rfl rfl h.ctas
    · rename_i htype
      refine Inv.setWaiting ?_ (h.not_parked_of_idle (hidle htype)) _ _
      exact h.congr rfl rfl rfl rfl rfl rfl rfl rfl h.ctas
  unfold BarrierSet.warpReachesBarrier at hok
  split at hok
  · cases hok
  · obtain ⟨-, -, hok⟩ := bind_eq_ok hok
    dsimp only at hok
    split at hok
    · exact henter.releaseBarrier hok
    · cases hok
      exact henter

theorem Inv.enterWait {type : BarrierWaitType} (h : Inv all parks u)
    (hok : u.enterWait w type = .ok u') : Inv all parks u' := by
  obtain ⟨⟨⟩, hidle, hok⟩ := bind_eq_ok hok
  cases hok
  exact h.setWaiting (h.not_parked_of_idle (require_ok hidle)) type none

theorem CtasAgree.allocate {ctaId : Nat} {warps : Finset Nat} {info : Nat → WarpInfo}
    (h : u.CtasAgree) (hlt : ctaId < u.config.maxCtaPerCore)
    (hvalid : u.Valid (.allocate ctaId warps info)) (hconfig : u'.config = u.config)
    (hctas : u'.ctaToWarps = Function.update u.ctaToWarps ctaId (some warps))
    (hwarps : u'.warps = fun w => if w ∈ warps then info w else u.warps w) : u'.CtasAgree := by
  obtain ⟨hcore, hfree, hsame⟩ := hvalid
  intro cta warps' hcta
  rw [hctas, Function.update_apply] at hcta
  rw [hconfig, hwarps]
  split at hcta
  · rename_i heq
    cases hcta
    refine ⟨heq ▸ hlt, hcore, fun w hw w' hw' => ?_⟩
    simp only [if_pos hw, if_pos hw']
    exact hsame w hw w' hw'
  · obtain ⟨hctalt, hcore', hsame'⟩ := h cta warps' hcta
    have hnot : ∀ w ∈ warps', w ∉ warps :=
      fun w hw hnew => hfree cta hctalt w hnew ⟨warps', hcta, hw⟩
    refine ⟨hctalt, hcore', fun w hw w' hw' => ?_⟩
    simp only [if_neg (hnot w hw), if_neg (hnot w' hw')]
    exact hsame' w hw w' hw'

theorem Inv.allocateBarrier {ctaId : Nat} {warps : Finset Nat} {info : Nat → WarpInfo}
    (h : Inv all parks u) (hvalid : u.Valid (.allocate ctaId warps info))
    (hok : u.allocateBarrier ctaId warps info = .ok u') : Inv all (parks \ warps) u' := by
  obtain ⟨⟨⟩, hfree, hok⟩ := bind_eq_ok hok
  have hlt : ctaId < u.config.maxCtaPerCore := by
    unfold require at hfree
    split at hfree
    · rename_i hcond
      exact of_decide_eq_true (Bool.and_eq_true_iff.mp hcond).1
    · cases hfree
  cases hok
  refine ⟨fun hall => congrArg (· \ warps) (h.parks_eq hall), h.distinct, h.registered,
    fun w hw => ?_, h.remote, h.ctas.allocate hlt hvalid rfl rfl rfl⟩
  obtain ⟨hmem, hnew⟩ := Finset.mem_sdiff.mp hw
  obtain ⟨⟨hlt, hat, htype⟩, hsome, hnone, hrelease⟩ := h.parked w hmem
  exact ⟨⟨hlt, Finset.mem_sdiff.mpr ⟨hat, hnew⟩, htype⟩, hsome, hnone, hrelease⟩

theorem Inv.deallocateBarrier {ctaId : Nat} (h : Inv all parks u)
    (hok : u.deallocateBarrier ctaId = .ok u') : Inv all parks u' := by
  unfold BarrierSet.deallocateBarrier at hok
  split at hok
  · cases hok
    exact h
  · obtain ⟨v, hv, hok⟩ := bind_eq_ok hok
    obtain ⟨-, -, hok⟩ := bind_eq_ok hok
    cases hok
    have hclean := h.cleanupCtaPendingMbarrierWaits hv
    refine hclean.congr rfl rfl rfl rfl rfl rfl rfl rfl fun cta warps' hcta => ?_
    dsimp only at hcta
    rw [Function.update_apply] at hcta
    split at hcta
    · cases hcta
    · exact hclean.ctas cta warps' hcta

theorem Inv.cleanupCtaMbarriers {ctaId : Nat} (h : Inv all parks u)
    (hok : u.cleanupCtaMbarriers ctaId = .ok u') : Inv all parks u' := by
  obtain ⟨v, hv, hok⟩ := bind_eq_ok hok
  cases hok
  exact (h.cleanupCtaPendingMbarrierWaits hv).setManager (MbarrierManager.cleanupCta_fewer ctaId)

theorem Inv.resetMbarrier (h : Inv all parks u) (hok : u.resetMbarrier = .ok u') : Inv all parks u' := by
  obtain ⟨v, hv, hok⟩ := bind_eq_ok hok
  cases hok
  have hcancelled : Inv all parks v :=
    foldlM_invariant (Inv all parks) (fun _ _ _ _ hs => hs.cancelMbarrierWait) h hv
  exact hcancelled.setManager MbarrierManager.empty_fewer

theorem Inv.warpExit {ctaId : Nat} (h : Inv all parks u) (hok : u.warpExit ctaId w = .ok u') :
    Inv all parks u' := by
  obtain ⟨v, hv, hok⟩ := bind_eq_ok hok
  dsimp only at hok
  split at hok
  · cases hok
  · obtain ⟨-, -, hok⟩ := bind_eq_ok hok
    refine foldlM_invariant (Inv all parks) (fun s bar s' _ hs hbar => ?_) ?_ hok
    · split at hbar
      · exact hs.releaseBarrier hbar
      · cases hbar
        exact hs
    · have hcancelled := h.cancelMbarrierWait hv
      exact hcancelled.congr rfl rfl rfl rfl rfl rfl rfl rfl hcancelled.ctas

/-- What an operation leaves of the warps that are parked. -/
def remaining (parks : Finset Nat) : BarrierOp → Finset Nat
  | .releaseRemoteWaiter w => parks.erase w
  | .allocate _ warps _ => parks \ warps
  | _ => parks

theorem Inv.step {op : BarrierOp} (h : Inv all parks u) (hvalid : u.Valid op)
    (hsettled : all → u.Settled op) (hok : u.step op = .ok u') :
    ∃ parks', remaining parks op ⊆ parks' ∧ Inv all parks' u' := by
  cases op with
  | reachMbarrier ctaId warpId inst pc lanes dynamicWarpId now =>
    exact h.reachMbarrier hvalid hsettled hok
  | reachBarrier ctaId warpId barType barId barCount =>
    exact ⟨parks, subset_rfl, h.reachBarrier hvalid hok⟩
  | completeTx ctaId warpId mbarAddr n now =>
    cases hok
    exact ⟨parks, subset_rfl, h.completeTx ctaId warpId mbarAddr n now⟩
  | prepareAsyncArrival ctaId warpId mbarAddr incrementPending =>
    obtain ⟨m, hm, hok⟩ := bind_eq_ok hok
    cases hok
    have hfewer := MbarrierManager.prepareAsyncArrival_fewer (liftManager_ok hm)
    exact ⟨parks, subset_rfl, h.setManager hfewer⟩
  | arriveAsync ctaId warpId mbarAddr now =>
    cases hok
    exact ⟨parks, subset_rfl, h.arriveMbarrierAsync ctaId warpId mbarAddr now⟩
  | tryCompleteTxIfPending ctaId mbarAddr n =>
    cases hok
    exact ⟨parks, subset_rfl, h.tryCompleteTxIfPending ctaId mbarAddr n⟩
  | remoteArrive ctaId mbarAddr n =>
    cases hok
    exact ⟨parks, subset_rfl, h.remoteArrive ctaId mbarAddr n⟩
  | remoteExpectTx ctaId mbarAddr n => exact ⟨parks, subset_rfl, h.remoteExpectTx hok⟩
  | registerRemoteWait ctaId mbarAddr r =>
    cases hok
    exact ⟨parks, subset_rfl, h.registerRemoteWait hvalid ctaId mbarAddr r⟩
  | notifyRemoteWaiters ctaId mbarAddr =>
    cases hok
    exact ⟨parks, subset_rfl, h.notifyRemoteWaiters ctaId mbarAddr⟩
  | releaseRemoteWaiter warpId =>
    obtain hreleased | ⟨-, rfl⟩ := h.releaseRemoteWaiter hok
    · exact ⟨parks.erase warpId, subset_rfl, hreleased⟩
    · exact ⟨parks, Finset.erase_subset _ _, h⟩
  | cycle now => exact ⟨parks, subset_rfl, h.cycle hok⟩
  | holdWarp warpId latency type =>
    cases hok
    exact ⟨parks, subset_rfl, h.holdWarp (h.not_parked_of_idle hvalid) latency type⟩
  | waitCpAsyncGroup warpId => exact ⟨parks, subset_rfl, h.enterWait hok⟩
  | releaseCpAsyncWarp warpId =>
    obtain ⟨-, -, hok⟩ := bind_eq_ok hok
    have htype : BarrierWaitType.cpAsyncGroup ≠ .mbarrier := by decide
    exact ⟨parks, subset_rfl, h.releaseDelayed htype hok⟩
  | waitTcgen05Warp warpId => exact ⟨parks, subset_rfl, h.enterWait hok⟩
  | releaseTcgen05Warp warpId =>
    have htype : BarrierWaitType.tcgen05 ≠ .mbarrier := by decide
    exact ⟨parks, subset_rfl, h.clearWarpWaiting htype hok⟩
  | waitClusterBarrier warpId => exact ⟨parks, subset_rfl, h.enterWait hok⟩
  | releaseClusterBarrier warpId =>
    have htype : BarrierWaitType.cluster ≠ .mbarrier := by decide
    exact ⟨parks, subset_rfl, h.clearWarpWaiting htype hok⟩
  | setWgmmaWaitingWarps warpIds =>
    exact ⟨parks, subset_rfl,
      foldlM_invariant (Inv all parks) (fun _ _ _ _ hs => hs.enterWait) h hok⟩
  | releaseWgmmaWarps warpIds =>
    have htype : BarrierWaitType.wgmmaGroup ≠ .mbarrier := by decide
    exact ⟨parks, subset_rfl,
      foldlM_invariant (Inv all parks) (fun _ _ _ _ hs => hs.clearWarpWaiting htype) h hok⟩
  | waitBulkGroup warpId satisfied =>
    cases satisfied with
    | true =>
      cases hok
      exact ⟨parks, subset_rfl, h⟩
    | false => exact ⟨parks, subset_rfl, h.enterWait hok⟩
  | completeBulkTx warpId satisfied =>
    cases satisfied with
    | true =>
      have htype : BarrierWaitType.bulkGroup ≠ .mbarrier := by decide
      exact ⟨parks, subset_rfl, h.clearWarpWaiting htype hok⟩
    | false =>
      cases hok
      exact ⟨parks, subset_rfl, h⟩
  | allocate ctaId warps info => exact ⟨parks \ warps, subset_rfl, h.allocateBarrier hvalid hok⟩
  | deallocate ctaId => exact ⟨parks, subset_rfl, h.deallocateBarrier hok⟩
  | cleanupCta ctaId => exact ⟨parks, subset_rfl, h.cleanupCtaMbarriers hok⟩
  | reset => exact ⟨parks, subset_rfl, h.resetMbarrier hok⟩
  | warpExit ctaId warpId => exact ⟨parks, subset_rfl, h.warpExit hok⟩

theorem releaseWarps_predicates (u : BarrierSet) (released : List Nat) :
    (u.releaseWarps released).predicates = u.predicates := by
  unfold BarrierSet.releaseWarps
  split <;> rfl

/-- The report of a remote barrier writes the predicate of each lane. -/
theorem releaseRemoteWaiter_predicates {inst : Nat} {lanes : List Nat}
    (hlt : w < u.config.maxWarpsPerCore) (hinst : u.trywaitInst w = some (inst, lanes))
    (hok : u.releaseRemoteWaiter w = .ok u') :
    u'.predicates = u.predicates ++ lanes.map (PredicateWrite.mk w · inst true) := by
  unfold BarrierSet.releaseRemoteWaiter at hok
  rw [if_neg (by omega)] at hok
  have hpred : (u.applyTrywaitPred w true).predicates =
      u.predicates ++ lanes.map (PredicateWrite.mk w · inst true) := by
    unfold applyTrywaitPred
    rw [hinst]
  dsimp only at hok
  split at hok
  · obtain ⟨-, rfl⟩ := clearWarpWaiting_ok hok
    exact hpred
  · cases hok
    exact (releaseWarps_predicates _ _).trans hpred

/-- The warps parked by a remote `try_wait` wait. -/
def ParksHold (u : BarrierSet) : Prop := ∀ w ∈ u.remoteParks, u.Waiting w .mbarrier

/-- A parked warp stays parked, or its barrier reports and the predicates are written, or a
new CTA takes the slot. -/
def ParksEndByReport (u : BarrierSet) (op : BarrierOp) (u' : BarrierSet) : Prop :=
  ∀ w ∈ u.remoteParks, w ∈ u'.remoteParks ∨
    (op = .releaseRemoteWaiter w ∧ ∃ inst lanes, u.trywaitInst w = some (inst, lanes) ∧
      u'.predicates = u.predicates ++ lanes.map (PredicateWrite.mk w · inst true)) ∨
    ∃ ctaId warps info, op = .allocate ctaId warps info ∧ w ∈ warps

theorem Inv.parksEndByReport {op : BarrierOp} (h : Inv True parks u) (hvalid : u.Valid op)
    (hsettled : u.Settled op) (hok : u.step op = .ok u') : u.ParksEndByReport op u' := by
  intro w hw
  rw [h.parks_eq trivial] at hw
  obtain ⟨parks', hsub, hinv⟩ := h.step hvalid (fun _ => hsettled) hok
  rw [hinv.parks_eq trivial]
  cases op with
  | releaseRemoteWaiter warpId =>
    by_cases heq : w = warpId
    · subst heq
      obtain ⟨hwaiting, hsome, -, -⟩ := h.parked w hw
      obtain ⟨⟨inst, lanes⟩, hinst⟩ := Option.isSome_iff_exists.mp hsome
      exact .inr (.inl ⟨rfl, inst, lanes, hinst,
        releaseRemoteWaiter_predicates hwaiting.1 hinst hok⟩)
    · exact .inl (hsub (Finset.mem_erase.mpr ⟨heq, hw⟩))
  | allocate ctaId warps info =>
    by_cases hnew : w ∈ warps
    · exact .inr (.inr ⟨ctaId, warps, info, rfl, hnew⟩)
    · exact .inl (hsub (Finset.mem_sdiff.mpr ⟨hw, hnew⟩))
  | _ => exact .inl (hsub hw)

/-- In a run in which remote `try_wait`s are issued without an open countdown, a warp that
parks on a remote barrier waits until the barrier reports. -/
theorem remote_parks_end_by_report {config : BarrierConfig}
    (h : Reaches step (fun u op => u.Valid op ∧ u.Settled op) { config := config } u) :
    u.ParksHold ∧ ∀ op u', u.Valid op → u.Settled op → u.step op = .ok u' →
      u.ParksEndByReport op u' := by
  have hinv : ∃ parks, Inv True parks u := by
    refine h.invariant (fun u => ∃ parks, Inv True parks u) ⟨∅, inv_init config⟩ ?_
    rintro s t op ⟨parks, hs⟩ ⟨hvalid, hsettled⟩ hok
    obtain ⟨parks', -, ht⟩ := hs.step hvalid (fun _ => hsettled) hok
    exact ⟨parks', ht⟩
  obtain ⟨parks, hinv⟩ := hinv
  refine ⟨fun w hw => (hinv.parked w (hinv.parks_eq trivial ▸ hw)).waiting, fun op u' hvalid hsettled hok => ?_⟩
  exact hinv.parksEndByReport hvalid hsettled hok

instance (op : BarrierOp) : Decidable (u.Settled op) := by
  unfold Settled
  split <;> infer_instance

/-- Two warps, and a barrier of a peer at the same address. -/
def twoWarps : BarrierConfig where
  maxWarpsPerCore := 2
  maxCtaPerCore := 1
  maxBarriersPerCta := 1
  warpSize := 32
  mbarrierTrywaitLatency := 4
  hasRemotePath := true

def remoteLane : ActiveLane := ⟨0, { barId := 64, barCount := 1, isRemote := true, remoteCid := 1 }⟩

def localLane : ActiveLane := ⟨0, { barId := 64, barCount := 1 }⟩

/-- A warp parks, and its barrier reports. -/
theorem remote_parks_end_by_report_witness :
    ∃ u : BarrierSet, 0 ∈ u.remoteParks ∧ u.ParksHold ∧ ∀ u', u.step (.releaseRemoteWaiter 0) = .ok u' →
      u.ParksEndByReport (.releaseRemoteWaiter 0) u' := by
  have hrun : ((runAllowed step (fun u op => u.Valid op ∧ u.Settled op) { config := twoWarps }
      [.allocate 0 {0, 1} (fun _ => { swCtaId := 0 }),
        .reachMbarrier 0 0 .tryWait 0 [remoteLane] 0 0, .cycle 1]).any
      fun u => decide (0 ∈ u.remoteParks)) = true := by
    decide
  obtain ⟨u, hu, htest⟩ := (Option.any_eq_true _ _).mp hrun
  have hmain := remote_parks_end_by_report (Reaches.of_runAllowed .refl hu)
  exact ⟨u, of_decide_eq_true htest, hmain.1,
    fun u' hok => hmain.2 (.releaseRemoteWaiter 0) u' trivial trivial hok⟩

/-- A local wait that an arrival ends leaves its countdown behind, and the countdown frees
the warp from its next wait, a remote one. -/
theorem remote_parks_end_by_report_counterexample :
    ¬ ∀ (config : BarrierConfig) (u : BarrierSet),
      Reaches step Valid { config := config } u → u.ParksHold := by
  intro hclaim
  have hrun : ((runAllowed step Valid { config := twoWarps }
      [.allocate 0 {0, 1} (fun _ => { swCtaId := 0 }),
        .reachMbarrier 0 1 .init 0 [localLane] 0 0,
        .reachMbarrier 0 0 .tryWait 0 [localLane] 0 0,
        .reachMbarrier 0 1 (.arrive true false) 0 [localLane] 0 1, .cycle 1,
        .reachMbarrier 0 0 .tryWait 0 [remoteLane] 0 1, .cycle 2, .cycle 3, .cycle 4]).any
      fun u => decide (0 ∈ u.remoteParks ∧ ¬ u.Waiting 0 .mbarrier)) = true := by
    decide
  obtain ⟨u, hu, htest⟩ := (Option.any_eq_true _ _).mp hrun
  obtain ⟨hpark, hfree⟩ := of_decide_eq_true htest
  exact hfree (hclaim twoWarps u (Reaches.of_runAllowed .refl hu) 0 hpark)

end BarrierSet

end FlashGpuSim
