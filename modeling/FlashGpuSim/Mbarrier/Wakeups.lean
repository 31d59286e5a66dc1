import FlashGpuSim.Mbarrier.RemoteParks

/-!
Who hears of a new phase. The instructions of the SM tell the local and the remote
waiters, the asynchronous arrivals only the local ones, and the peers only the remote ones.
-/

namespace FlashGpuSim

open Lib

namespace MbarrierManager

variable {m : MbarrierManager} {f : Mbarrier → Mbarrier} {swCtaId : Int} {addr : Nat}
  {key : Int × Nat} {b : Mbarrier}

/-- An operation that counts something, and then may advance the phase. -/
def count (m : MbarrierManager) (f : Mbarrier → Mbarrier) (swCtaId : Int) (addr : Nat) :
    List Nat × MbarrierManager :=
  match m.getMbarrier swCtaId addr with
  | some b => ((f b).tryAdvance.2, m.put swCtaId addr (f b).tryAdvance.1)
  | none => ([], m)

theorem count_released (hb : m.barriers (swCtaId, addr) = some b) :
    (m.count f swCtaId addr).1 = (f b).tryAdvance.2 := by
  unfold count getMbarrier
  rw [hb]

theorem count_at (hb : m.barriers (swCtaId, addr) = some b) :
    (m.count f swCtaId addr).2.barriers (swCtaId, addr) = some (f b).tryAdvance.1 := by
  unfold count getMbarrier
  rw [hb]
  exact put_at m swCtaId addr _

theorem count_ne (hne : key ≠ (swCtaId, addr)) :
    (m.count f swCtaId addr).2.barriers key = m.barriers key := by
  unfold count
  split
  · exact put_ne hne
  · rfl

theorem take_ne (hne : key ≠ (swCtaId, addr)) :
    (m.takeSatisfiedRemoteWaiters swCtaId addr).2.barriers key = m.barriers key := by
  unfold takeSatisfiedRemoteWaiters
  split
  · exact put_ne hne
  · rfl

theorem take_at (hb : m.barriers (swCtaId, addr) = some b) :
    (m.takeSatisfiedRemoteWaiters swCtaId addr).1 =
        b.remoteWaiters.filter (fun w => w.parity ≠ b.parity) ∧
      (m.takeSatisfiedRemoteWaiters swCtaId addr).2.barriers (swCtaId, addr) =
        some { b with remoteWaiters := b.remoteWaiters.filter (fun w => w.parity = b.parity) } := by
  unfold takeSatisfiedRemoteWaiters getMbarrier
  rw [hb]
  exact ⟨rfl, put_at m swCtaId addr _⟩

/-- The counts are not what waiters look at. -/
structure Counts (f : Mbarrier → Mbarrier) : Prop where
  phase : ∀ b, (f b).phase = b.phase
  waitingWarps : ∀ b, (f b).waitingWarps = b.waitingWarps
  remoteWaiters : ∀ b, (f b).remoteWaiters = b.remoteWaiters

theorem counts_arrival (n : Int) : Counts (·.countArrival n) :=
  ⟨fun _ => rfl, fun _ => rfl, fun _ => rfl⟩

theorem counts_tx (n : Int) : Counts (·.completeTx n) := ⟨fun _ => rfl, fun _ => rfl, fun _ => rfl⟩

theorem Counts.fewer (hf : Counts f) : Fewer m (m.count f swCtaId addr).2 := by
  unfold count
  split
  · rename_i b hb
    have hwaiting := tryAdvance_waiting_sublist (f b)
    rw [hf.waitingWarps] at hwaiting
    refine fewer_put hb hwaiting ?_
    rw [tryAdvance_remoteWaiters, hf.remoteWaiters]
  · exact .refl m

/-- The phase advances when the counts are zero. -/
theorem Counts.phase_advance (hf : Counts f) (b : Mbarrier) :
    (f b).tryAdvance.1.phase = if (f b).Complete then b.phase + 1 else b.phase := by
  split
  · rename_i hcomplete
    rw [Mbarrier.tryAdvance_of_complete hcomplete]
    exact congrArg (· + 1) (hf.phase b)
  · rename_i hnot
    rw [Mbarrier.tryAdvance_of_not hnot]
    exact hf.phase b

end MbarrierManager

namespace BarrierSet

variable {u u' v : BarrierSet} {now : Nat} {key : Int × Nat} {b b' : Mbarrier}

/-- A wait that the next cycle rechecks, unless its result is latched. -/
def Alerted (wait : PendingMbarrierWait) (now : Nat) : Prop :=
  wait.resultReadyDelayPending = false →
    wait.phaseNotificationPending = true ∧ wait.nextRecheckCycle ≤ now

def AlertedAt (u : BarrierSet) (w now : Nat) : Prop :=
  ∀ wait, u.pendingWaits w = some wait → Alerted wait now

/-- The report of a barrier to a remote waiter. -/
def Reports (q : MbarRequest) (addr : Nat) (r : RemoteWaiter) : Prop :=
  q.op = .waitDone ∧ q.dstCid = r.srcCid ∧ q.dstHwCta = r.srcHwCta ∧ q.mbarAddr = addr ∧
    q.reqHwCta = r.srcHwCta ∧ q.reqWarpId = r.srcWarpId

/-- The advance from some phase between two barrier states is the one a waiter asked for. -/
def SatisfiedBy (r : RemoteWaiter) (b b' : Mbarrier) : Prop :=
  ∃ phase, b.phase ≤ phase ∧ phase < b'.phase ∧ r.parity = (phase % 2 : Nat)

/-- Where an operation advances a phase, it alerts the local waiters and reports to the
remote ones. -/
def NoLostWakeup (u u' : BarrierSet) (now : Nat) : Prop :=
  ∀ key b b', u.manager.barriers key = some b → u'.manager.barriers key = some b' →
    b.phase < b'.phase →
      (∀ w ∈ b.waitingWarps, u'.AlertedAt w now) ∧
      ∀ r ∈ b.remoteWaiters, SatisfiedBy r b b' →
        r ∉ b'.remoteWaiters ∧ ∃ q ∈ u'.requests.drop u.requests.length, Reports q key.2 r

/-- What an operation does to the waiters of one barrier. -/
structure Woken (u' : BarrierSet) (now : Nat) (new : List MbarRequest) (addr : Nat)
    (b b' : Mbarrier) : Prop where
  phase_le : b.phase ≤ b'.phase
  waiting_kept : b'.phase = b.phase → b'.waitingWarps = b.waitingWarps
  alerted : b.phase < b'.phase → ∀ w ∈ b.waitingWarps, u'.AlertedAt w now
  remote_sub : ∀ r ∈ b'.remoteWaiters, r ∈ b.remoteWaiters
  remote_out : ∀ r ∈ b.remoteWaiters, r ∈ b'.remoteWaiters ∨ ∃ q ∈ new, Reports q addr r
  taken : ∀ r ∈ b.remoteWaiters, SatisfiedBy r b b' → r ∉ b'.remoteWaiters

theorem Woken.same (u' : BarrierSet) (now : Nat) (new : List MbarRequest) (addr : Nat)
    (b : Mbarrier) : Woken u' now new addr b b where
  phase_le := le_rfl
  waiting_kept _ := rfl
  alerted h := absurd h (lt_irrefl _)
  remote_sub _ h := h
  remote_out _ h := .inl h
  taken := by
    rintro r - ⟨phase, hle, hlt, -⟩
    omega

/-- An operation that loses no wakeup, as a relation that composes. -/
structure Wakes (now : Nat) (u u' : BarrierSet) : Prop where
  warps : u'.warps = u.warps
  ctas : u'.ctaToWarps = u.ctaToWarps
  alerted : ∀ w, u.AlertedAt w now → u'.AlertedAt w now
  barriers : ∃ new, u'.requests = u.requests ++ new ∧ ∀ key b, u.manager.barriers key = some b →
    ∃ b', u'.manager.barriers key = some b' ∧ Woken u' now new key.2 b b'

theorem Wakes.refl (now : Nat) (u : BarrierSet) : Wakes now u u where
  warps := rfl
  ctas := rfl
  alerted _ h := h
  barriers := ⟨[], (List.append_nil _).symm, fun key b hb => ⟨b, hb, .same u now [] key.2 b⟩⟩

theorem Woken.trans {new new' : List MbarRequest} {addr : Nat} {b'' : Mbarrier}
    (h : Woken v now new addr b b') (h' : Woken u' now new' addr b' b'')
    (halerted : ∀ w, v.AlertedAt w now → u'.AlertedAt w now) :
    Woken u' now (new ++ new') addr b b'' where
  phase_le := h.phase_le.trans h'.phase_le
  waiting_kept heq := by
    have hfirst := h.phase_le
    have hsecond := h'.phase_le
    rw [h'.waiting_kept (by omega), h.waiting_kept (by omega)]
  alerted hlt w hw := by
    by_cases hmid : b.phase < b'.phase
    · exact halerted w (h.alerted hmid w hw)
    · have hsame : b'.phase = b.phase := le_antisymm (not_lt.mp hmid) h.phase_le
      rw [← h.waiting_kept hsame] at hw
      exact h'.alerted (hsame ▸ hlt) w hw
  remote_sub r hr := h.remote_sub r (h'.remote_sub r hr)
  remote_out r hr := by
    obtain hmid | ⟨q, hq, hreports⟩ := h.remote_out r hr
    · obtain hlast | ⟨q, hq, hreports⟩ := h'.remote_out r hmid
      · exact .inl hlast
      · exact .inr ⟨q, List.mem_append_right _ hq, hreports⟩
    · exact .inr ⟨q, List.mem_append_left _ hq, hreports⟩
  taken := by
    rintro r hr ⟨phase, hle, hlt, hparity⟩ hlast
    have hmid := h'.remote_sub r hlast
    by_cases hbefore : phase < b'.phase
    · exact h.taken r hr ⟨phase, hle, hbefore, hparity⟩ hmid
    · exact h'.taken r hmid ⟨phase, not_lt.mp hbefore, hlt, hparity⟩ hlast

theorem Wakes.trans (h : Wakes now u v) (h' : Wakes now v u') : Wakes now u u' where
  warps := h'.warps.trans h.warps
  ctas := h'.ctas.trans h.ctas
  alerted w hw := h'.alerted w (h.alerted w hw)
  barriers := by
    obtain ⟨new, hnew, hbarriers⟩ := h.barriers
    obtain ⟨new', hnew', hbarriers'⟩ := h'.barriers
    refine ⟨new ++ new', by rw [hnew', hnew, List.append_assoc], fun key b hb => ?_⟩
    obtain ⟨b₁, hb₁, hwoken⟩ := hbarriers key b hb
    obtain ⟨b₂, hb₂, hwoken'⟩ := hbarriers' key b₁ hb₁
    exact ⟨b₂, hb₂, hwoken.trans hwoken' h'.alerted⟩

theorem Wakes.noLostWakeup (h : Wakes now u u') : u.NoLostWakeup u' now := by
  obtain ⟨new, hnew, hbarriers⟩ := h.barriers
  intro key b b' hb hb' hlt
  obtain ⟨b'', hb'', hwoken⟩ := hbarriers key b hb
  cases hb'.symm.trans hb''
  refine ⟨hwoken.alerted hlt, fun r hr hsatisfied => ?_⟩
  have htaken := hwoken.taken r hr hsatisfied
  refine ⟨htaken, ?_⟩
  rw [hnew, List.drop_left]
  exact (hwoken.remote_out r hr).resolve_left htaken

/-- Requests to the cluster change no barrier. -/
theorem wakes_inject (now : Nat) (u : BarrierSet) (dstCid dstHwCta mbarAddr : Nat)
    (op : ClusterMbarOp) (count reqHwCta reqWarpId : Nat) (parity : Int) :
    Wakes now u
      (u.injectRemoteMbar dstCid dstHwCta mbarAddr op count reqHwCta reqWarpId parity) where
  warps := rfl
  ctas := rfl
  alerted _ h := h
  barriers := ⟨_, rfl, fun key b hb => ⟨b, hb, .same _ now _ key.2 b⟩⟩

theorem wakes_holdWarp (now : Nat) (u : BarrierSet) (w latency : Nat) (type : BarrierWaitType) :
    Wakes now u (u.holdWarp w latency type) := by
  unfold BarrierSet.holdWarp
  split
  · exact .refl now u
  · exact ⟨rfl, rfl, fun _ h => h, [], (List.append_nil _).symm,
      fun key b hb => ⟨b, hb, .same _ now [] key.2 b⟩⟩

theorem wakes_expectTx {t : ThreadIndex} {addr : Nat} {n : Int} {m : MbarrierManager}
    (hm : u.manager.expectTx t addr n = .ok m) : Wakes now u { u with manager := m } := by
  unfold MbarrierManager.expectTx at hm
  split at hm
  · rename_i b₀ hb₀
    cases hm
    refine ⟨rfl, rfl, fun _ h => h, [], (List.append_nil _).symm, fun key b hb => ?_⟩
    by_cases hkey : key = (t.swCtaId, addr)
    · subst hkey
      cases hb.symm.trans hb₀
      refine ⟨_, MbarrierManager.put_at _ _ _ _, le_rfl, fun _ => rfl, fun h => ?_, fun _ h => h,
        fun _ h => .inl h, ?_⟩
      · exact absurd h (lt_irrefl _)
      · rintro r - ⟨phase, hle, hlt, -⟩
        exact absurd (hle.trans_lt hlt) (lt_irrefl _)
    · exact ⟨b, (MbarrierManager.put_ne hkey).trans hb, .same _ now [] key.2 b⟩
  · cases hm

theorem alertedAt_notify (u : BarrierSet) {notifiedWarps : List Nat} {w : Nat}
    (hw : w ∈ notifiedWarps) (now : Nat) :
    (u.notifyMbarrierPhaseChange notifiedWarps now).AlertedAt w now := by
  intro wait hwait
  unfold notifyMbarrierPhaseChange at hwait
  simp only [if_pos hw] at hwait
  obtain ⟨wait₀, -, rfl⟩ := Option.map_eq_some_iff.mp hwait
  intro hdelay
  unfold notified at hdelay ⊢
  split
  · rename_i hlatched
    rw [if_pos hlatched] at hdelay
    exact absurd hdelay (by rw [hlatched]; decide)
  · exact ⟨rfl, mbarrierWakeOnPhaseNotification_le _ now⟩

theorem AlertedAt.notify {w : Nat} (h : u.AlertedAt w now) (notifiedWarps : List Nat) :
    (u.notifyMbarrierPhaseChange notifiedWarps now).AlertedAt w now := by
  by_cases hw : w ∈ notifiedWarps
  · exact alertedAt_notify u hw now
  · intro wait hwait
    unfold notifyMbarrierPhaseChange at hwait
    simp only [if_neg hw] at hwait
    exact h wait hwait

/-- The parts of the state that a countdown or a request does not change. -/
structure SameWaits (u u' : BarrierSet) : Prop where
  config : u'.config = u.config
  warps : u'.warps = u.warps
  ctas : u'.ctaToWarps = u.ctaToWarps
  manager : u'.manager = u.manager
  pendingWaits : u'.pendingWaits = u.pendingWaits

theorem SameWaits.alertedAt {w : Nat} (h : SameWaits u u') :
    u'.AlertedAt w now ↔ u.AlertedAt w now := by
  unfold AlertedAt
  rw [h.pendingWaits]

theorem releaseWarps_same (u : BarrierSet) (released : List Nat) :
    SameWaits u (u.releaseWarps released) ∧
      (u.releaseWarps released).requests = u.requests := by
  unfold BarrierSet.releaseWarps
  split <;> exact ⟨⟨rfl, rfl, rfl, rfl, rfl⟩, rfl⟩

/-- The reports to a list of remote waiters. -/
theorem reportAll (addr : Nat) (waiters : List RemoteWaiter) (u : BarrierSet) :
    SameWaits u (waiters.foldl (fun u w => u.reportDone addr w) u) ∧
      ∃ new, (waiters.foldl (fun u w => u.reportDone addr w) u).requests = u.requests ++ new ∧
        ∀ r ∈ waiters, ∃ q ∈ new, Reports q addr r := by
  induction waiters generalizing u with
  | nil => exact ⟨⟨rfl, rfl, rfl, rfl, rfl⟩, [], (List.append_nil _).symm, List.forall_mem_nil _⟩
  | cons x rest ih =>
    obtain ⟨hsame, new, hnew, hreports⟩ := ih (u.reportDone addr x)
    have hfirst : ∃ q, (u.reportDone addr x).requests = u.requests ++ [q] ∧ Reports q addr x :=
      ⟨_, rfl, rfl, rfl, rfl, rfl, rfl, rfl⟩
    obtain ⟨q, hq, hreport⟩ := hfirst
    refine ⟨⟨hsame.config, hsame.warps, hsame.ctas, hsame.manager, hsame.pendingWaits⟩,
      q :: new, ?_, ?_⟩
    · rw [List.foldl_cons, hnew, hq, List.append_assoc]
      rfl
    · intro r hr
      rcases List.mem_cons.mp hr with rfl | hrest
      · exact ⟨q, List.mem_cons_self, hreport⟩
      · obtain ⟨q', hq', hreport'⟩ := hreports r hrest
        exact ⟨q', List.mem_cons_of_mem _ hq', hreport'⟩

theorem pickCtaThreadIndex_of_inCta {ctaId warpId : Nat} (hctas : u.CtasAgree)
    (hin : u.InCta ctaId warpId) :
    ∃ t, u.pickCtaThreadIndex ctaId = some t ∧ t.swCtaId = (u.warps warpId).swCtaId := by
  obtain ⟨warps, hcta, hmem⟩ := hin
  obtain ⟨-, hcore, hsame⟩ := hctas ctaId warps hcta
  have hfound : (u.warpIds.find? (fun w => w ∈ warps)).isSome = true := by
    rw [List.find?_isSome]
    exact ⟨warpId, List.mem_range.mpr (hcore warpId hmem), decide_eq_true hmem⟩
  obtain ⟨first, hfirst⟩ := Option.isSome_iff_exists.mp hfound
  have hin := List.find?_some hfirst
  simp only [decide_eq_true_eq] at hin
  refine ⟨u.threadIndex ctaId first, ?_, hsame first hin warpId hmem⟩
  unfold pickCtaThreadIndex
  rw [hcta]
  simp only
  rw [hfirst]
  rfl

/-- The remote waiters of a barrier that are satisfied leave it, with a report each. -/
theorem notifyRemoteWaiters_spec (addr : Nat) {ctaId : Nat} {t : ThreadIndex}
    (hpick : u.pickCtaThreadIndex ctaId = some t)
    (hpath : u.manager.HasRemote → u.config.hasRemotePath = true) :
    (u.notifyRemoteWaiters ctaId addr).warps = u.warps ∧
    (u.notifyRemoteWaiters ctaId addr).ctaToWarps = u.ctaToWarps ∧
    (u.notifyRemoteWaiters ctaId addr).pendingWaits = u.pendingWaits ∧
    ∃ new, (u.notifyRemoteWaiters ctaId addr).requests = u.requests ++ new ∧
      (∀ key, key ≠ (t.swCtaId, addr) →
        (u.notifyRemoteWaiters ctaId addr).manager.barriers key = u.manager.barriers key) ∧
      ∀ b, u.manager.barriers (t.swCtaId, addr) = some b →
        (u.notifyRemoteWaiters ctaId addr).manager.barriers (t.swCtaId, addr) =
          some { b with remoteWaiters := b.remoteWaiters.filter (fun w => w.parity = b.parity) } ∧
        ∀ r ∈ b.remoteWaiters, r.parity ≠ b.parity → ∃ q ∈ new, Reports q addr r := by
  unfold BarrierSet.notifyRemoteWaiters
  rw [hpick]
  have hne : ∀ key, key ≠ (t.swCtaId, addr) →
      (u.manager.takeSatisfiedRemoteWaiters t.swCtaId addr).2.barriers key =
        u.manager.barriers key := fun key => MbarrierManager.take_ne
  have hat := fun b (hb : u.manager.barriers (t.swCtaId, addr) = some b) =>
    MbarrierManager.take_at hb
  cases htake : u.manager.takeSatisfiedRemoteWaiters t.swCtaId addr with
  | mk waiters m =>
    simp only [htake] at hne hat ⊢
    split
    · obtain ⟨hsame, new, hnew, hreports⟩ := reportAll addr waiters { u with manager := m }
      refine ⟨hsame.warps, hsame.ctas, hsame.pendingWaits, new, hnew, ?_, fun b hb => ?_⟩
      · rw [hsame.manager]
        exact hne
      · obtain ⟨rfl, hself⟩ := hat b hb
        rw [hsame.manager]
        refine ⟨hself, fun r hr hparity => hreports r ?_⟩
        exact List.mem_filter.mpr ⟨hr, decide_eq_true hparity⟩
    · rename_i hnopath
      refine ⟨rfl, rfl, rfl, [], (List.append_nil _).symm, hne, fun b hb => ?_⟩
      refine ⟨(hat b hb).2, fun r hr _ => absurd (hpath ⟨_, b, hb, ?_⟩) hnopath⟩
      exact List.ne_nil_of_mem hr

section Count

variable {f : Mbarrier → Mbarrier} {swCtaId : Int} {addr ctaId warpId : Nat} {all : Prop}
  {parks : Finset Nat}

theorem parity_ne_of_advance {phase phase' : Nat} (h : phase' = phase + 1) :
    ((phase % 2 : Nat) : Int) ≠ ((phase' % 2 : Nat) : Int) := by
  omega

/-- An advance keeps the remote waiters; those of the old phase are satisfied. -/
theorem woken_count (u' : BarrierSet) (hf : MbarrierManager.Counts f) (b : Mbarrier)
    {new : List MbarRequest}
    (halerted : (f b).Complete → ∀ w ∈ b.waitingWarps, u'.AlertedAt w now)
    (hreports : ∀ r ∈ b.remoteWaiters, r.parity ≠ (f b).tryAdvance.1.parity →
      ∃ q ∈ new, Reports q addr r) :
    Woken u' now new addr b { (f b).tryAdvance.1 with
      remoteWaiters := (f b).tryAdvance.1.remoteWaiters.filter
        (fun w => w.parity = (f b).tryAdvance.1.parity) } := by
  have hphase := hf.phase_advance b
  have hremote : (f b).tryAdvance.1.remoteWaiters = b.remoteWaiters :=
    (MbarrierManager.tryAdvance_remoteWaiters (f b)).trans (hf.remoteWaiters b)
  refine ⟨?_, ?_, ?_, ?_, ?_, ?_⟩
  · change b.phase ≤ (f b).tryAdvance.1.phase
    split at hphase <;> omega
  · intro heq
    change (f b).tryAdvance.1.phase = b.phase at heq
    by_cases hcomplete : (f b).Complete
    · rw [if_pos hcomplete] at hphase
      omega
    · change (f b).tryAdvance.1.waitingWarps = b.waitingWarps
      rw [Mbarrier.tryAdvance_of_not hcomplete]
      exact hf.waitingWarps b
  · intro hlt
    change b.phase < (f b).tryAdvance.1.phase at hlt
    by_cases hcomplete : (f b).Complete
    · exact halerted hcomplete
    · rw [if_neg hcomplete] at hphase
      omega
  · intro r hr
    rw [← hremote]
    exact (List.mem_filter.mp hr).1
  · intro r hr
    by_cases hparity : r.parity = (f b).tryAdvance.1.parity
    · exact .inl (List.mem_filter.mpr ⟨hremote ▸ hr, decide_eq_true hparity⟩)
    · exact .inr (hreports r hr hparity)
  · rintro r hr ⟨phase, hle, hlt, hparity⟩ hkept
    change phase < (f b).tryAdvance.1.phase at hlt
    have hsame : r.parity = (f b).tryAdvance.1.parity :=
      of_decide_eq_true (List.mem_filter.mp hkept).2
    have hstep : (f b).tryAdvance.1.phase = phase + 1 := by
      split at hphase <;> omega
    exact parity_ne_of_advance hstep (hparity.symm.trans hsame)

/-- The barriers after a count and the reports to their remote waiters. -/
theorem wakes_reports (hf : MbarrierManager.Counts f) (h : Inv all parks u)
    (hin : u.InCta ctaId warpId) (hsw : swCtaId = (u.warps warpId).swCtaId)
    (hconfig : v.config = u.config) (hwarps : v.warps = u.warps)
    (hctas : v.ctaToWarps = u.ctaToWarps)
    (hmanager : v.manager = (u.manager.count f swCtaId addr).2)
    (hrequests : v.requests = u.requests)
    (hkept : ∀ w, u.AlertedAt w now → v.AlertedAt w now)
    (halerted : ∀ b, u.manager.barriers (swCtaId, addr) = some b → (f b).Complete →
      ∀ w ∈ b.waitingWarps, v.AlertedAt w now) :
    Wakes now u (v.notifyRemoteWaiters ctaId addr) := by
  have hagree : v.CtasAgree := by
    unfold CtasAgree
    rw [hconfig, hwarps, hctas]
    exact h.ctas
  have hinv : v.InCta ctaId warpId := by
    unfold InCta
    rw [hctas]
    exact hin
  obtain ⟨t, hpick, ht⟩ := pickCtaThreadIndex_of_inCta hagree hinv
  rw [hwarps, ← hsw] at ht
  have hpath : v.manager.HasRemote → v.config.hasRemotePath = true := by
    rw [hmanager, hconfig]
    exact fun hr => h.remote (hf.fewer.remote hr)
  obtain ⟨hwarps', hctas', hwaits, new, hnew, hne, hat⟩ :=
    notifyRemoteWaiters_spec addr hpick hpath
  have hsame : ∀ w, (v.notifyRemoteWaiters ctaId addr).AlertedAt w now ↔ v.AlertedAt w now := by
    intro w
    unfold AlertedAt
    rw [hwaits]
  rw [ht, hmanager] at hne hat
  refine ⟨hwarps'.trans hwarps, hctas'.trans hctas, fun w hw => (hsame w).mpr (hkept w hw), new,
    hrequests ▸ hnew, fun key b hb => ?_⟩
  by_cases hkey : key = (swCtaId, addr)
  · subst hkey
    obtain ⟨hself, hreports⟩ := hat _ (MbarrierManager.count_at hb)
    refine ⟨_, hself, woken_count _ hf b ?_ ?_⟩
    · exact fun hcomplete w hw => (hsame w).mpr (halerted b hb hcomplete w hw)
    · intro r hr hparity
      refine hreports r ?_ hparity
      rw [MbarrierManager.tryAdvance_remoteWaiters, hf.remoteWaiters]
      exact hr
  · refine ⟨b, ?_, .same _ now new key.2 b⟩
    rw [hne key hkey, MbarrierManager.count_ne hkey]
    exact hb

/-- The instructions of the SM tell everybody. -/
theorem wakes_wake (hf : MbarrierManager.Counts f) (h : Inv all parks u)
    (hin : u.InCta ctaId warpId) (hsw : swCtaId = (u.warps warpId).swCtaId) :
    Wakes now u (u.wake ctaId addr now (u.manager.count f swCtaId addr).1
      (u.manager.count f swCtaId addr).2) := by
  unfold BarrierSet.wake
  obtain ⟨hsame, hrequests⟩ := releaseWarps_same (notifyMbarrierPhaseChange
    { u with manager := (u.manager.count f swCtaId addr).2 }
    (u.manager.count f swCtaId addr).1 now) (u.manager.count f swCtaId addr).1
  refine wakes_reports hf h hin hsw hsame.config hsame.warps hsame.ctas hsame.manager hrequests
    ?_ ?_
  · exact fun w hw => hsame.alertedAt.mpr (AlertedAt.notify hw _)
  · intro b hb hcomplete w hw
    refine hsame.alertedAt.mpr (alertedAt_notify _ ?_ now)
    rw [MbarrierManager.count_released hb, Mbarrier.tryAdvance_of_complete hcomplete,
      hf.waitingWarps]
    exact hw

theorem wakes_completeTxInst {lanes : List ActiveLane} (h : Inv all parks u)
    (hin : u.InCta ctaId warpId) (hok : u.completeTxInst ctaId warpId now lanes = .ok u') :
    Wakes now u u' := by
  unfold BarrierSet.completeTxInst at hok
  split at hok
  · cases hok
    exact .refl now u
  · rename_i r rest _
    obtain ⟨-, -, hok⟩ := bind_eq_ok hok
    split at hok
    · split at hok
      · cases hok
        exact wakes_inject _ _ _ _ _ _ _ _ _ _
      · cases hok
        exact .refl now u
    · cases hok
      exact wakes_wake (MbarrierManager.counts_tx r.info.barCount) h hin rfl

theorem wakes_arriveRemoteLane (now : Nat) (u : BarrierSet) (isArrive isExpectTx : Bool)
    (info : MbarrierInfo) : Wakes now u (u.arriveRemoteLane isArrive isExpectTx info) := by
  unfold BarrierSet.arriveRemoteLane
  split
  · split
    · exact (wakes_inject _ _ _ _ _ _ _ _ _ _).trans (wakes_inject _ _ _ _ _ _ _ _ _ _)
    · split <;> exact wakes_inject _ _ _ _ _ _ _ _ _ _
  · exact .refl now u

theorem wakes_arriveLane {isArrive isExpectTx : Bool} {l : ActiveLane} (h : Inv all parks u)
    (hin : u.InCta ctaId warpId)
    (hok : u.arriveLane ctaId warpId now isArrive isExpectTx l = .ok u') : Wakes now u u' := by
  unfold BarrierSet.arriveLane at hok
  split at hok
  · cases hok
    exact wakes_arriveRemoteLane now u isArrive isExpectTx l.info
  · dsimp only at hok
    split at hok
    · obtain ⟨m, hm, hok⟩ := bind_eq_ok hok
      cases hok
      have hexpect := liftManager_ok hm
      have hinv : Inv all parks { u with manager := m } :=
        h.setManager (MbarrierManager.expectTx_fewer hexpect)
      exact (wakes_expectTx hexpect).trans
        (wakes_wake (MbarrierManager.counts_arrival 1) hinv hin rfl)
    · split at hok
      · cases hok
        exact wakes_wake (MbarrierManager.counts_arrival l.info.barCount) h hin rfl
      · obtain ⟨m, hm, hok⟩ := bind_eq_ok hok
        cases hok
        exact wakes_expectTx (liftManager_ok hm)

/-- An arrival of several lanes may advance several phases. -/
theorem wakes_arriveInst {isArrive isExpectTx : Bool} {lanes : List ActiveLane}
    (h : Inv all parks u) (hin : u.InCta ctaId warpId)
    (hok : u.arriveInst ctaId warpId now isArrive isExpectTx lanes = .ok u') :
    Wakes now u u' := by
  obtain ⟨-, -, hok⟩ := bind_eq_ok hok
  obtain ⟨v, hv, hok⟩ := bind_eq_ok hok
  have hlanes : Inv all parks v ∧ Wakes now u v := by
    refine foldlM_invariant (fun s => Inv all parks s ∧ Wakes now u s) ?_ ⟨h, .refl now u⟩ hv
    rintro s l s' - ⟨hs, hwakes⟩ hlane
    have hins : s.InCta ctaId warpId := by
      unfold InCta
      rw [hwakes.ctas]
      exact hin
    exact ⟨hs.arriveLane hlane, hwakes.trans (wakes_arriveLane hs hins hlane)⟩
  split at hok
  · cases hok
    exact hlanes.2.trans (wakes_holdWarp now v warpId _ .mbarrier)
  · cases hok
    exact hlanes.2

/-- No remote waiter asks for the phase that a count ends. -/
def RemoteIdle (u : BarrierSet) (f : Mbarrier → Mbarrier) (swCtaId : Int) (addr : Nat) : Prop :=
  ∀ b, u.manager.barriers (swCtaId, addr) = some b → (f b).Complete →
    ∀ r ∈ b.remoteWaiters, r.parity ≠ b.parity

/-- The local waiters of the phase that a count ends are rechecked soon anyway. -/
def LocalAlerted (u : BarrierSet) (f : Mbarrier → Mbarrier) (swCtaId : Int) (addr now : Nat) :
    Prop :=
  ∀ b, u.manager.barriers (swCtaId, addr) = some b → (f b).Complete →
    ∀ w ∈ b.waitingWarps, u.AlertedAt w now

/-- An advance without reports. -/
theorem noLostWakeup_quiet (hf : MbarrierManager.Counts f) :
    u.NoLostWakeup (notifyMbarrierPhaseChange
      { u with manager := (u.manager.count f swCtaId addr).2 }
      (u.manager.count f swCtaId addr).1 now) now ↔ u.RemoteIdle f swCtaId addr := by
  constructor
  · intro hlost b hb hcomplete r hr hparity
    have hat : (u.manager.count f swCtaId addr).2.barriers (swCtaId, addr) = some (f b).advance := by
      rw [MbarrierManager.count_at hb, Mbarrier.tryAdvance_of_complete hcomplete]
    have hphase : (f b).advance.phase = b.phase + 1 := congrArg (· + 1) (hf.phase b)
    have hsatisfied : SatisfiedBy r b (f b).advance :=
      ⟨b.phase, le_rfl, by omega, hparity⟩
    have hremote : (f b).advance.remoteWaiters = b.remoteWaiters := hf.remoteWaiters b
    exact ((hlost _ b _ hb hat (by omega)).2 r hr hsatisfied).1 (hremote ▸ hr)
  · intro hidle key b b' hb hb' hlt
    by_cases hkey : key = (swCtaId, addr)
    · subst hkey
      cases (MbarrierManager.count_at hb).symm.trans hb'
      have hphase := hf.phase_advance b
      have hcomplete : (f b).Complete := by
        by_contra hnot
        rw [if_neg hnot] at hphase
        omega
      rw [if_pos hcomplete] at hphase
      refine ⟨fun w hw => alertedAt_notify _ ?_ now, fun r hr hsatisfied => ?_⟩
      · rw [MbarrierManager.count_released hb, Mbarrier.tryAdvance_of_complete hcomplete,
          hf.waitingWarps]
        exact hw
      · obtain ⟨phase, hle, hlt', hparity⟩ := hsatisfied
        obtain rfl : phase = b.phase := by omega
        exact absurd hparity (hidle b hb hcomplete r hr)
    · cases ((MbarrierManager.count_ne hkey).trans hb).symm.trans hb'
      exact absurd hlt (lt_irrefl _)

/-- An advance that only remote waiters hear of. -/
theorem noLostWakeup_peer (hf : MbarrierManager.Counts f) {t : ThreadIndex}
    (hpick : u.pickCtaThreadIndex ctaId = some t)
    (hpath : u.manager.HasRemote → u.config.hasRemotePath = true) :
    u.NoLostWakeup (u.wakeForPeer ctaId addr (u.manager.count f t.swCtaId addr).1
      (u.manager.count f t.swCtaId addr).2) now ↔ u.LocalAlerted f t.swCtaId addr now := by
  unfold wakeForPeer
  obtain ⟨hsame, hrequests⟩ := releaseWarps_same
    { u with manager := (u.manager.count f t.swCtaId addr).2 }
    (u.manager.count f t.swCtaId addr).1
  revert hsame hrequests
  generalize releaseWarps { u with manager := (u.manager.count f t.swCtaId addr).2 }
    (u.manager.count f t.swCtaId addr).1 = v
  intro hsame hrequests
  have hpick' : v.pickCtaThreadIndex ctaId = some t := by
    unfold pickCtaThreadIndex warpIds threadIndex at hpick ⊢
    rw [hsame.ctas, hsame.config, hsame.warps]
    exact hpick
  have hpath' : v.manager.HasRemote → v.config.hasRemotePath = true := by
    rw [hsame.manager, hsame.config]
    exact fun hr => hpath (hf.fewer.remote hr)
  obtain ⟨-, -, hwaits, new, hnew, hne, hat⟩ :=
    notifyRemoteWaiters_spec addr hpick' hpath'
  rw [hsame.manager] at hne hat
  rw [hrequests] at hnew
  have halerted : ∀ w, (v.notifyRemoteWaiters ctaId addr).AlertedAt w now ↔ u.AlertedAt w now := by
    intro w
    unfold AlertedAt
    rw [hwaits, hsame.pendingWaits]
  constructor
  · intro hlost b hb hcomplete w hw
    obtain ⟨hself, -⟩ := hat _ (MbarrierManager.count_at hb)
    have hphase := hf.phase_advance b
    rw [if_pos hcomplete] at hphase
    refine (halerted w).mp ((hlost _ b _ hb hself ?_).1 w hw)
    change b.phase < (f b).tryAdvance.1.phase
    omega
  · intro hlocal key b b' hb hb' hlt
    by_cases hkey : key = (t.swCtaId, addr)
    · subst hkey
      obtain ⟨hself, hreports⟩ := hat _ (MbarrierManager.count_at hb)
      cases hself.symm.trans hb'
      have hremote : (f b).tryAdvance.1.remoteWaiters = b.remoteWaiters :=
        (MbarrierManager.tryAdvance_remoteWaiters (f b)).trans (hf.remoteWaiters b)
      have hwoken := woken_count (v.notifyRemoteWaiters ctaId addr) hf b
        (fun hcomplete w hw => (halerted w).mpr (hlocal b hb hcomplete w hw))
        (fun r hr => hreports r (hremote ▸ hr))
      refine ⟨hwoken.alerted hlt, fun r hr hsatisfied => ?_⟩
      have htaken := hwoken.taken r hr hsatisfied
      refine ⟨htaken, ?_⟩
      rw [hnew, List.drop_left]
      exact (hwoken.remote_out r hr).resolve_left htaken
    · rw [hne key hkey, MbarrierManager.count_ne hkey] at hb'
      cases hb.symm.trans hb'
      exact absurd hlt (lt_irrefl _)

end Count

/-- The operations that may advance a phase. -/
def Advances : BarrierOp → Prop
  | .reachMbarrier _ _ inst _ _ _ _ =>
    inst = .tcgen05ArriveOne ∨ inst = .completeTx ∨
      ∃ isArrive isExpectTx, inst = .arrive isArrive isExpectTx
  | .completeTx _ _ _ _ _ | .arriveAsync _ _ _ _ | .tryCompleteTxIfPending _ _ _
  | .remoteArrive _ _ _ => True
  | _ => False

def CalledAt (now : Nat) : BarrierOp → Prop
  | .reachMbarrier _ _ _ _ _ _ cycle | .completeTx _ _ _ _ cycle | .arriveAsync _ _ _ cycle =>
    cycle = now
  | _ => True

/-- The waiters that an operation does not tell have nothing to hear. -/
def ToldAll (u : BarrierSet) (now : Nat) : BarrierOp → Prop
  | .reachMbarrier _ warpId .tcgen05ArriveOne _ lanes _ _ =>
    match validLanes lanes with
    | [] => True
    | l :: _ => u.RemoteIdle (·.countArrival 1) (u.warps warpId).swCtaId l.info.barId
  | .completeTx _ warpId mbarAddr completedTxCount _ =>
    u.RemoteIdle (·.completeTx completedTxCount) (u.warps warpId).swCtaId mbarAddr
  | .arriveAsync _ warpId mbarAddr _ =>
    u.RemoteIdle (·.countArrival 1) (u.warps warpId).swCtaId mbarAddr
  | .tryCompleteTxIfPending ctaId mbarAddr completedTxCount =>
    match u.pickCtaThreadIndex ctaId with
    | none => True
    | some t => u.LocalAlerted (·.completeTx completedTxCount) t.swCtaId mbarAddr now
  | .remoteArrive ctaId mbarAddr arrivalCount =>
    match u.pickCtaThreadIndex ctaId with
    | none => True
    | some t => u.LocalAlerted (·.countArrival arrivalCount) t.swCtaId mbarAddr now
  | _ => True

theorem Inv.noLostWakeup_inst {parks : Finset Nat} {all : Prop} {ctaId warpId pc dynamicWarpId : Nat}
    {inst : MbarrierInst} {lanes : List ActiveLane} (h : Inv all parks u)
    (hin : u.InCta ctaId warpId)
    (hadvances : Advances (.reachMbarrier ctaId warpId inst pc lanes dynamicWarpId now))
    (hok : u.warpReachesMbarrier ctaId warpId inst pc lanes dynamicWarpId now = .ok u') :
    u.NoLostWakeup u' now ↔
      u.ToldAll now (.reachMbarrier ctaId warpId inst pc lanes dynamicWarpId now) := by
  rcases hadvances with rfl | rfl | ⟨isArrive, isExpectTx, rfl⟩
  · cases hok
    simp only [ToldAll, BarrierSet.tcgen05ArriveOne]
    cases validLanes lanes with
    | nil => exact iff_of_true (Wakes.refl now u).noLostWakeup trivial
    | cons l rest => exact noLostWakeup_quiet (MbarrierManager.counts_arrival 1)
  · exact iff_of_true (wakes_completeTxInst h hin hok).noLostWakeup trivial
  · exact iff_of_true (wakes_arriveInst h hin hok).noLostWakeup trivial

/-- In every reachable state, an operation that advances a phase loses no wakeup exactly if
the waiters that its path does not tell have nothing to hear. -/
theorem wakeups_reach_told_waiters {config : BarrierConfig} {op : BarrierOp}
    (h : Reaches step Valid { config := config } u) (hvalid : u.Valid op)
    (hadvances : Advances op) (hnow : CalledAt now op) (hok : u.step op = .ok u') :
    u.NoLostWakeup u' now ↔ u.ToldAll now op := by
  have hinv : Inv False ∅ u := by
    refine h.invariant (Inv False ∅) (inv_init config) fun s t op hs hvalid hok => ?_
    obtain ⟨parks', -, ht⟩ := hs.step hvalid False.elim hok
    exact ⟨False.elim, ht.distinct, ht.registered, nofun, ht.remote, ht.ctas⟩
  cases op with
  | reachMbarrier ctaId warpId inst pc lanes dynamicWarpId cycle =>
    cases hnow
    exact hinv.noLostWakeup_inst hvalid.2.1 hadvances hok
  | completeTx ctaId warpId mbarAddr n cycle =>
    cases hnow
    cases hok
    exact noLostWakeup_quiet (MbarrierManager.counts_tx n)
  | arriveAsync ctaId warpId mbarAddr cycle =>
    cases hnow
    cases hok
    exact noLostWakeup_quiet (MbarrierManager.counts_arrival 1)
  | tryCompleteTxIfPending ctaId mbarAddr n =>
    cases hok
    simp only [ToldAll, BarrierSet.tryCompleteTxIfPending]
    cases hpick : u.pickCtaThreadIndex ctaId with
    | none => exact iff_of_true (Wakes.refl now u).noLostWakeup trivial
    | some t =>
      simp only [MbarrierManager.tryCompleteTxIfPending_eq]
      exact noLostWakeup_peer (MbarrierManager.counts_tx n) hpick hinv.remote
  | remoteArrive ctaId mbarAddr n =>
    cases hok
    simp only [ToldAll, BarrierSet.remoteArrive]
    cases hpick : u.pickCtaThreadIndex ctaId with
    | none => exact iff_of_true (Wakes.refl now u).noLostWakeup trivial
    | some t => exact noLostWakeup_peer (MbarrierManager.counts_arrival n) hpick hinv.remote
  | _ => exact absurd hadvances id

/-- The run up to an arrival for which a warp waits. -/
def waitingRun : List BarrierOp :=
  [.allocate 0 {0, 1} (fun _ => { swCtaId := 0 }), .reachMbarrier 0 1 .init 0 [localLane] 0 0,
    .reachMbarrier 0 0 .tryWait 0 [localLane] 0 0]

/-- An arrival of another warp of the SM. -/
def localArrival : BarrierOp := .reachMbarrier 0 1 (.arrive true false) 0 [localLane] 0 1

theorem wakeups_reach_told_waiters_witness :
    ∃ u u' : BarrierSet, u.step localArrival = .ok u' ∧ u.NoLostWakeup u' 1 := by
  have hrun : ((runAllowed step Valid { config := twoWarps } waitingRun).any
      fun u => decide (u.Valid localArrival) && (u.step localArrival).toOption.isSome) = true := by
    decide
  obtain ⟨u, hu, htest⟩ := (Option.any_eq_true _ _).mp hrun
  obtain ⟨hvalid, hsome⟩ := Bool.and_eq_true_iff.mp htest
  cases hok : u.step localArrival with
  | error e =>
    rw [hok] at hsome
    cases hsome
  | ok u' =>
    have hmain := wakeups_reach_told_waiters (Reaches.of_runAllowed .refl hu)
      (of_decide_eq_true hvalid) (.inr (.inr ⟨true, false, rfl⟩)) rfl hok
    exact ⟨u, u', hok, hmain.mpr trivial⟩

/-- The arrival comes from a peer: the phase advances, and the local waiter sleeps on. -/
theorem wakeups_reach_told_waiters_counterexample :
    ¬ ∀ (config : BarrierConfig) (u u' : BarrierSet) (op : BarrierOp) (now : Nat),
      Reaches step Valid { config := config } u → u.Valid op → Advances op → CalledAt now op →
        u.step op = .ok u' → u.NoLostWakeup u' now := by
  intro hclaim
  have hrun : ((runAllowed step Valid { config := twoWarps } waitingRun).any fun u =>
      (u.manager.barriers (0, 64)).any fun b =>
        ((u.remoteArrive 0 64 1).manager.barriers (0, 64)).any fun b' =>
          ((u.remoteArrive 0 64 1).pendingWaits 0).any fun wait =>
            decide (b.phase < b'.phase ∧ 0 ∈ b.waitingWarps ∧
              wait.resultReadyDelayPending = false ∧
              wait.phaseNotificationPending = false)) = true := by
    decide
  obtain ⟨u, hu, htest⟩ := (Option.any_eq_true _ _).mp hrun
  obtain ⟨b, hb, htest⟩ := (Option.any_eq_true _ _).mp htest
  obtain ⟨b', hb', htest⟩ := (Option.any_eq_true _ _).mp htest
  obtain ⟨wait, hwait, htest⟩ := (Option.any_eq_true _ _).mp htest
  obtain ⟨hlt, hmem, hdelay, hasleep⟩ := of_decide_eq_true htest
  have hlost := hclaim twoWarps u (u.remoteArrive 0 64 1) (.remoteArrive 0 64 1) 1
    (Reaches.of_runAllowed .refl hu) trivial trivial trivial rfl
  obtain ⟨hnotified, -⟩ := (hlost _ b b' hb hb' hlt).1 0 hmem wait hwait hdelay
  rw [hasleep] at hnotified
  cases hnotified

end BarrierSet

end FlashGpuSim
