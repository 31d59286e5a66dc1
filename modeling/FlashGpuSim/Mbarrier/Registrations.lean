import FlashGpuSim.Mbarrier.BarrierOps

/-!
The local waiters of a barrier: an operation of the manager registers only the warp that
asks for it, and a cancelled wait is registered nowhere.
-/

namespace FlashGpuSim

open Lib

namespace MbarrierManager

variable {m m' : MbarrierManager} {t : ThreadIndex} {swCtaId : Int} {addr warp w : Nat}
  {key : Int × Nat} {b b' : Mbarrier}

def Registered (m : MbarrierManager) (w : Nat) (key : Int × Nat) : Prop :=
  ∃ b, m.barriers key = some b ∧ w ∈ b.waitingWarps

/-- No warp is registered twice at one barrier. -/
def Distinct (m : MbarrierManager) : Prop :=
  ∀ key b, m.barriers key = some b → b.waitingWarps.Nodup

/-- Some barrier has a remote waiter. -/
def HasRemote (m : MbarrierManager) : Prop :=
  ∃ key b, m.barriers key = some b ∧ b.remoteWaiters ≠ []

/-- `m'` has no registration that `m` does not have, but for those of one warp at some
addresses of its CTA. -/
structure Registers (warp : Nat) (swCtaId : Int) (addrs : List Nat) (m m' : MbarrierManager) :
    Prop where
  registered : ∀ w key, m'.Registered w key → m.Registered w key ∨
    (w = warp ∧ swCtaId = key.1 ∧ key.2 ∈ addrs)
  distinct : m.Distinct → m'.Distinct
  remote : m'.HasRemote → m.HasRemote

/-- `m'` has no registration that `m` does not have. -/
structure Fewer (m m' : MbarrierManager) : Prop where
  registered : ∀ w key, m'.Registered w key → m.Registered w key
  distinct : m.Distinct → m'.Distinct
  remote : m'.HasRemote → m.HasRemote

theorem Fewer.refl (m : MbarrierManager) : Fewer m m := ⟨fun _ _ h => h, id, id⟩

theorem Fewer.trans {m'' : MbarrierManager} (h : Fewer m m') (h' : Fewer m' m'') :
    Fewer m m'' :=
  ⟨fun w key hw => h.registered w key (h'.registered w key hw),
    fun hm => h'.distinct (h.distinct hm), fun hm => h.remote (h'.remote hm)⟩

theorem Fewer.registers {addrs : List Nat} (h : Fewer m m') :
    Registers warp swCtaId addrs m m' :=
  ⟨fun w key hw => .inl (h.registered w key hw), h.distinct, h.remote⟩

theorem Registers.trans {m'' : MbarrierManager} {addrs addrs' : List Nat}
    (h : Registers warp swCtaId addrs m m') (h' : Registers warp swCtaId addrs' m' m'') :
    Registers warp swCtaId (addrs ++ addrs') m m'' := by
  refine ⟨fun w key hw => ?_, fun hm => h'.distinct (h.distinct hm),
    fun hm => h.remote (h'.remote hm)⟩
  obtain hmid | ⟨heq, hsw, hmem⟩ := h'.registered w key hw
  · obtain hold | ⟨heq, hsw, hmem⟩ := h.registered w key hmid
    · exact .inl hold
    · exact .inr ⟨heq, hsw, List.mem_append_left _ hmem⟩
  · exact .inr ⟨heq, hsw, List.mem_append_right _ hmem⟩

theorem put_ne (h : key ≠ (swCtaId, addr)) :
    (m.put swCtaId addr b).barriers key = m.barriers key := by
  unfold put
  exact Function.update_of_ne h _ _

theorem registered_put :
    (m.put swCtaId addr b).Registered w key ↔
      (key = (swCtaId, addr) ∧ w ∈ b.waitingWarps) ∨
        (key ≠ (swCtaId, addr) ∧ m.Registered w key) := by
  unfold Registered
  by_cases hkey : key = (swCtaId, addr)
  · subst hkey
    simp
  · rw [put_ne hkey]
    simp [hkey]

theorem Distinct.put (h : m.Distinct) (hb : b.waitingWarps.Nodup) :
    (m.put swCtaId addr b).Distinct := by
  intro key c hc
  by_cases hkey : key = (swCtaId, addr)
  · subst hkey
    rw [put_at] at hc
    cases hc
    exact hb
  · rw [put_ne hkey] at hc
    exact h key c hc

theorem HasRemote.of_put (h : (m.put swCtaId addr b).HasRemote) :
    b.remoteWaiters ≠ [] ∨ m.HasRemote := by
  obtain ⟨key, c, hc, hremote⟩ := h
  by_cases hkey : key = (swCtaId, addr)
  · subst hkey
    rw [put_at] at hc
    cases hc
    exact .inl hremote
  · rw [put_ne hkey] at hc
    exact .inr ⟨key, c, hc, hremote⟩

/-- A barrier that loses waiters. -/
theorem fewer_put (hb : m.getMbarrier swCtaId addr = some b)
    (hsub : b'.waitingWarps.Sublist b.waitingWarps)
    (hremote : b'.remoteWaiters.Sublist b.remoteWaiters) : Fewer m (m.put swCtaId addr b') := by
  refine ⟨fun w key hw => ?_, fun h => h.put ((h _ b hb).sublist hsub), fun h => ?_⟩
  · obtain ⟨rfl, hmem⟩ | ⟨-, hold⟩ := registered_put.mp hw
    · exact ⟨b, hb, hsub.subset hmem⟩
    · exact hold
  · obtain hnew | hold := h.of_put
    · refine ⟨_, b, hb, fun hnil => hnew ?_⟩
      rw [hnil] at hremote
      exact List.sublist_nil.mp hremote
    · exact hold

theorem fewer_put_nil (hb : b.waitingWarps = []) (hremote : b.remoteWaiters = []) :
    Fewer m (m.put swCtaId addr b) := by
  refine ⟨fun w key hw => ?_, fun h => h.put (hb ▸ List.nodup_nil), fun h => ?_⟩
  · obtain ⟨-, hmem⟩ | ⟨-, hold⟩ := registered_put.mp hw
    · rw [hb] at hmem
      exact absurd hmem List.not_mem_nil
    · exact hold
  · obtain hnew | hold := h.of_put
    · exact absurd hremote hnew
    · exact hold

theorem tryAdvance_waiting_sublist (b : Mbarrier) :
    b.tryAdvance.1.waitingWarps.Sublist b.waitingWarps := by
  by_cases hcomplete : b.Complete
  · rw [Mbarrier.tryAdvance_of_complete hcomplete]
    exact List.nil_sublist _
  · rw [Mbarrier.tryAdvance_of_not hcomplete]

theorem tryAdvance_remoteWaiters (b : Mbarrier) :
    b.tryAdvance.1.remoteWaiters = b.remoteWaiters := by
  unfold Mbarrier.tryAdvance
  split <;> rfl

theorem mem_tryAdvance_released (h : w ∈ b.tryAdvance.2) : w ∈ b.waitingWarps := by
  by_cases hcomplete : b.Complete
  · rwa [Mbarrier.tryAdvance_of_complete hcomplete] at h
  · rw [Mbarrier.tryAdvance_of_not hcomplete] at h
    exact absurd h List.not_mem_nil

theorem init_fewer (t : ThreadIndex) (addr : Nat) (n : Int) : Fewer m (m.init t addr n) := by
  unfold init
  split <;> exact fewer_put_nil rfl rfl

theorem inval_fewer (h : m.inval t addr = .ok m') : Fewer m m' := by
  unfold inval at h
  split at h
  · cases h
    have hlost : ∀ key b, Function.update m.barriers (t.swCtaId, addr) none key = some b →
        m.barriers key = some b := by
      intro key b hb
      rw [Function.update_apply] at hb
      split at hb
      · cases hb
      · exact hb
    exact ⟨fun w key ⟨b, hb, hmem⟩ => ⟨b, hlost key b hb, hmem⟩,
      fun hd key b hb => hd key b (hlost key b hb),
      fun ⟨key, b, hb, hremote⟩ => ⟨key, b, hlost key b hb, hremote⟩⟩
  · cases h

theorem cleanupCta_fewer (hwCtaId : Nat) : Fewer m (m.cleanupCta hwCtaId) := by
  have hlost : ∀ key b, (m.cleanupCta hwCtaId).barriers key = some b →
      m.barriers key = some b := fun key b hb => (Option.filter_eq_some_iff.mp hb).1
  exact ⟨fun w key ⟨b, hb, hmem⟩ => ⟨b, hlost key b hb, hmem⟩,
    fun hd key b hb => hd key b (hlost key b hb),
    fun ⟨key, b, hb, hremote⟩ => ⟨key, b, hlost key b hb, hremote⟩⟩

theorem empty_fewer : Fewer m {} where
  registered := by
    rintro w key ⟨b, hb, -⟩
    cases hb
  distinct := by
    intro _ key b hb
    cases hb
  remote := by
    rintro ⟨key, b, hb, -⟩
    cases hb

theorem arrive_fewer (t : ThreadIndex) (addr : Nat) (n : Int) :
    Fewer m (m.arrive t addr n).2 := by
  unfold arrive
  split
  · rename_i b hb
    refine fewer_put hb (tryAdvance_waiting_sublist (b.countArrival n)) ?_
    rw [tryAdvance_remoteWaiters]
    exact List.Sublist.refl _
  · exact .refl m

theorem completeTx_fewer (t : ThreadIndex) (addr : Nat) (n : Int) :
    Fewer m (m.completeTx t addr n).2 := by
  unfold completeTx
  split
  · rename_i b hb
    refine fewer_put hb (tryAdvance_waiting_sublist (b.completeTx n)) ?_
    rw [tryAdvance_remoteWaiters]
    exact List.Sublist.refl _
  · exact .refl m

/-- The code tests for a barrier that `complete_tx` tests for again. -/
theorem tryCompleteTxIfPending_eq (m : MbarrierManager) (t : ThreadIndex) (addr : Nat) (n : Int) :
    m.tryCompleteTxIfPending t addr n = m.completeTx t addr n := by
  unfold tryCompleteTxIfPending completeTx
  split <;> rfl

theorem expectTx_fewer {n : Int} (h : m.expectTx t addr n = .ok m') : Fewer m m' := by
  unfold expectTx at h
  split at h
  · rename_i b hb
    cases h
    exact fewer_put hb (List.Sublist.refl _) (List.Sublist.refl _)
  · cases h

theorem prepareAsyncArrival_fewer {incrementPending : Bool}
    (h : m.prepareAsyncArrival t addr incrementPending = .ok m') : Fewer m m' := by
  unfold prepareAsyncArrival at h
  split at h
  · rename_i b hb
    split at h
    · split at h
      · cases h
        exact fewer_put hb (List.Sublist.refl _) (List.Sublist.refl _)
      · cases h
    · cases h
      exact .refl m
  · cases h

/-- A remote registration does not touch the local ones. -/
theorem registerRemoteWait_local (swCtaId : Int) (addr : Nat) (r : RemoteWaiter) :
    (∀ w key, (m.registerRemoteWait swCtaId addr r).2.Registered w key → m.Registered w key) ∧
      (m.Distinct → (m.registerRemoteWait swCtaId addr r).2.Distinct) := by
  unfold registerRemoteWait
  split
  · rename_i b hb
    split
    · exact ⟨fun _ _ h => h, id⟩
    · refine ⟨fun w key hw => ?_, fun h => h.put (h _ b hb)⟩
      obtain ⟨rfl, hmem⟩ | ⟨-, hold⟩ := registered_put.mp hw
      · exact ⟨b, hb, hmem⟩
      · exact hold
  · exact ⟨fun _ _ h => h, id⟩

theorem takeSatisfiedRemoteWaiters_fewer (swCtaId : Int) (addr : Nat) :
    Fewer m (m.takeSatisfiedRemoteWaiters swCtaId addr).2 := by
  unfold takeSatisfiedRemoteWaiters
  split
  · rename_i b hb
    exact fewer_put hb (List.Sublist.refl _) List.filter_sublist
  · exact .refl m

/-- A released warp was registered. -/
theorem arrive_released {n : Int} (h : w ∈ (m.arrive t addr n).1) :
    m.Registered w (t.swCtaId, addr) := by
  unfold arrive at h
  split at h
  · rename_i b hb
    exact ⟨b, hb, mem_tryAdvance_released (b := b.countArrival n) h⟩
  · exact absurd h List.not_mem_nil

theorem completeTx_released {n : Int} (h : w ∈ (m.completeTx t addr n).1) :
    m.Registered w (t.swCtaId, addr) := by
  unfold completeTx at h
  split at h
  · rename_i b hb
    exact ⟨b, hb, mem_tryAdvance_released (b := b.completeTx n) h⟩
  · exact absurd h List.not_mem_nil

theorem mem_insertWarp {warps : List Nat} : w ∈ insertWarp warp warps ↔ w = warp ∨ w ∈ warps := by
  unfold insertWarp
  split
  · rename_i hmem
    constructor
    · exact .inr
    · rintro (rfl | h)
      · exact hmem
      · exact h
  · exact List.mem_orderedInsert _

theorem nodup_insertWarp {warps : List Nat} (h : warps.Nodup) : (insertWarp warp warps).Nodup := by
  unfold insertWarp
  split
  · exact h
  · rename_i hmem
    exact (List.perm_orderedInsert _ _ _).nodup_iff.mpr (List.nodup_cons.mpr ⟨hmem, h⟩)

theorem registerWait_registers (h : m.registerWait t addr = .ok m') :
    Registers t.hwWarpId t.swCtaId [addr] m m' := by
  unfold registerWait at h
  split at h
  · rename_i b hb
    cases h
    refine ⟨fun w key hw => ?_, fun hd => hd.put (nodup_insertWarp (hd _ b hb)), fun hr => ?_⟩
    · obtain ⟨rfl, hmem⟩ | ⟨-, hold⟩ := registered_put.mp hw
      · obtain rfl | hbefore := mem_insertWarp.mp hmem
        · exact .inr ⟨rfl, rfl, List.mem_singleton_self _⟩
        · exact .inl ⟨b, hb, hbefore⟩
      · exact .inl hold
    · obtain hnew | hold := hr.of_put
      · exact ⟨_, b, hb, hnew⟩
      · exact hold
  · cases h

theorem cancelWait_fewer (swCtaId : Int) (addr warp : Nat) :
    Fewer m (m.cancelWait swCtaId addr warp) := by
  unfold cancelWait
  split
  · rename_i b hb
    exact fewer_put hb List.erase_sublist (List.Sublist.refl _)
  · exact .refl m

theorem not_registered_cancelWait (h : m.Distinct) :
    ¬ (m.cancelWait swCtaId addr warp).Registered warp (swCtaId, addr) := by
  unfold cancelWait
  split
  · rename_i b hb
    rw [registered_put]
    rintro (⟨-, hmem⟩ | ⟨hne, -⟩)
    · exact (h _ b hb).not_mem_erase hmem
    · exact hne rfl
  · rename_i hnone
    rintro ⟨b, hb, -⟩
    exact nomatch hnone.symm.trans hb

/-- The cancelled waits of the lanes of a warp. -/
def cancelLanes (m : MbarrierManager) (swCtaId : Int) (warp : Nat) (lanes : List LaneWait) :
    MbarrierManager := lanes.foldl (fun m l => m.cancelWait swCtaId l.addr warp) m

theorem cancelLanes_fewer (lanes : List LaneWait) (m : MbarrierManager) :
    Fewer m (m.cancelLanes swCtaId warp lanes) := by
  induction lanes generalizing m with
  | nil => exact .refl m
  | cons l rest ih => exact (cancelWait_fewer swCtaId l.addr warp).trans (ih _)

theorem not_registered_cancelLanes {l : LaneWait} (lanes : List LaneWait) (m : MbarrierManager)
    (h : m.Distinct) (hl : l ∈ lanes) :
    ¬ (m.cancelLanes swCtaId warp lanes).Registered warp (swCtaId, l.addr) := by
  induction lanes generalizing m with
  | nil => exact absurd hl List.not_mem_nil
  | cons x rest ih =>
    have hd := (cancelWait_fewer swCtaId x.addr warp).distinct h
    rcases List.mem_cons.mp hl with rfl | hrest
    · intro hreg
      exact not_registered_cancelWait h
        ((cancelLanes_fewer rest _).registered _ _ hreg)
    · exact ih _ hd hrest

end MbarrierManager

end FlashGpuSim
