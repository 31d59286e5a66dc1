import FlashGpuSim.Mbarrier.NamedLife

/-!
The named barriers over whole runs. Each wait is released once, with all other waits of its
generation, and for a reason that lies in that generation. A reduction reaches its waiters when
a reducing arrival completes the barrier; an arrival of another kind and an exit release them
without it.
-/

namespace FlashGpuSim

open Lib

namespace NamedCore

open BarrierSet

variable {c c' : NamedCore} {w ctaId barId : Nat} {a : Arrival} {warps : Finset Nat}

/-! ### Arrivals that are not visible yet -/

theorem insertArrival_perm (e : NamedArrival) (l : List NamedArrival) :
    (insertArrival e l).Perm (e :: l) := by
  induction l with
  | nil => exact .refl _
  | cons x l ih =>
    unfold insertArrival
    split
    · exact (ih.cons x).trans (.swap e x l)
    · exact .refl _

theorem NamedInv.queue {e : NamedArrival} (h : c.NamedInv []) (hhome : c.set.InCta e.ctaId e.warpId)
    (hactive : e.warpId ∈ c.set.warpActive) (hidle : e.warpId ∉ c.set.warpAtBarrier) :
    NamedInv { c with
      namedArrivals := insertArrival e c.namedArrivals
      pendingArrivals :=
        Function.update c.pendingArrivals e.warpId (c.pendingArrivals e.warpId + 1) } [] := by
  refine { h with pending := ?_, arrivals := ?_ }
  · intro x
    dsimp only
    rw [(insertArrival_perm e _).countP_eq, List.countP_cons]
    rcases eq_or_ne x e.warpId with rfl | hne
    · rw [Function.update_self, h.pending]
      simp
    · rw [Function.update_of_ne hne, h.pending]
      simp [hne.symm]
  · intro x hx
    rcases List.mem_cons.mp ((insertArrival_perm e _).mem_iff.mp hx) with rfl | hx
    · exact ⟨hactive, not_namedWaiting_of_idle hidle, hhome⟩
    · exact h.arrivals x hx

theorem NamedInv.unqueue {e : NamedArrival} {rest : List NamedArrival} (h : c.NamedInv [])
    (he : c.namedArrivals = e :: rest) :
    NamedInv { c with
      namedArrivals := rest
      pendingArrivals :=
        Function.update c.pendingArrivals e.warpId (c.pendingArrivals e.warpId - 1) } [] := by
  refine { h with pending := ?_, arrivals := ?_ }
  · intro x
    have hx := h.pending x
    rw [he, List.countP_cons] at hx
    dsimp only
    rcases eq_or_ne x e.warpId with rfl | hne
    · rw [Function.update_self, hx]
      simp
    · rw [Function.update_of_ne hne, hx]
      simp [hne.symm]
  · intro x hx
    apply h.arrivals x
    rw [he]
    exact List.mem_cons_of_mem e hx

/-! ### Releases that keep the promise -/

/-- No warp that has arrived at the barrier waits for a reduction. -/
def NoReduction (c : NamedCore) (ctaId barId : Nat) : Prop :=
  ∀ a ∈ generation c.log ctaId barId, a.barType ≠ .red

/-- With the arrival enough threads, or all active warps of the CTA, have arrived. -/
def Completes (c : NamedCore) (ctaId : Nat) (a : Arrival) (warps : Finset Nat) : Prop :=
  match a.barCount with
  | none => insert a.warpId (warps ∩ c.set.barIdToWarps a.barId) = warps ∩ c.set.warpActive
  | some count => count ≤ c.set.barIdToCount (ctaId, a.barId) + c.set.config.warpSize

/-- An arrival that completes a barrier where warps wait for a reduction is one itself, and one
that is decided by the arrival bits finds no older ones. -/
def CoveredArrival (c : NamedCore) (ctaId : Nat) (a : Arrival) : Prop :=
  match c.set.ctaToWarps ctaId with
  | none => True
  | some warps => c.Completes ctaId a warps →
    (a.barCount = none → c.Fresh ctaId a.barId warps) ∧
      (a.barType = .red ∨ c.NoReduction ctaId a.barId)

def CoveredDelivery (c : NamedCore) (cycle : Nat) : Prop :=
  match c.namedArrivals with
  | [] => True
  | e :: _ => e.readyCycle ≤ cycle → c.CoveredArrival e.ctaId (NamedArrival.arrival e)

/-- No warp waits for a reduction at a barrier that the exit completes. -/
def CoveredExit (c : NamedCore) (ctaId warpId : Nat) : Prop :=
  match c.set.ctaToWarps ctaId with
  | none => True
  | some warps => ∀ bar < c.set.config.maxBarriersPerCta,
    warps ∩ c.set.barIdToWarps bar = (warps ∩ c.set.warpActive).erase warpId →
      c.NoReduction ctaId bar

def Covered (c : NamedCore) : NamedOp → Prop
  | .issue ctaId a _ =>
    (a.barType = .arrive ∧ c.arriveVisibilityLatency ≠ 0) ∨ c.CoveredArrival ctaId a
  | .deliver cycle => c.CoveredDelivery cycle
  | .exit ctaId warpId => c.CoveredExit ctaId warpId
  | .operate _ => True

instance : Decidable (c.NoReduction ctaId barId) :=
  inferInstanceAs (Decidable (∀ a ∈ generation c.log ctaId barId, a.barType ≠ .red))

instance : Decidable (c.Fresh ctaId barId warps) :=
  inferInstanceAs (Decidable (∀ w ∈ warps, w ∈ c.set.barIdToWarps barId →
    ∃ a ∈ generation c.log ctaId barId, a.warpId = w))

instance : Decidable (c.Completes ctaId a warps) :=
  match h : a.barCount with
  | none =>
    decidable_of_iff (insert a.warpId (warps ∩ c.set.barIdToWarps a.barId) =
      warps ∩ c.set.warpActive) (by unfold Completes; rw [h])
  | some count =>
    decidable_of_iff (count ≤ c.set.barIdToCount (ctaId, a.barId) + c.set.config.warpSize)
      (by unfold Completes; rw [h])

instance : Decidable (c.CoveredArrival ctaId a) :=
  match h : c.set.ctaToWarps ctaId with
  | none => .isTrue (by unfold CoveredArrival; rw [h]; trivial)
  | some warps =>
    decidable_of_iff (c.Completes ctaId a warps →
      (a.barCount = none → c.Fresh ctaId a.barId warps) ∧
        (a.barType = .red ∨ c.NoReduction ctaId a.barId)) (by unfold CoveredArrival; rw [h])

instance (cycle : Nat) : Decidable (c.CoveredDelivery cycle) :=
  match h : c.namedArrivals with
  | [] => .isTrue (by unfold CoveredDelivery; rw [h]; trivial)
  | e :: _ =>
    decidable_of_iff (e.readyCycle ≤ cycle → c.CoveredArrival e.ctaId (NamedArrival.arrival e))
      (by unfold CoveredDelivery; rw [h])

instance : Decidable (c.CoveredExit ctaId w) :=
  match h : c.set.ctaToWarps ctaId with
  | none => .isTrue (by unfold CoveredExit; rw [h]; trivial)
  | some warps =>
    decidable_of_iff (∀ bar < c.set.config.maxBarriersPerCta,
      warps ∩ c.set.barIdToWarps bar = (warps ∩ c.set.warpActive).erase w →
        c.NoReduction ctaId bar) (by unfold CoveredExit; rw [h])

instance : (o : NamedOp) → Decidable (c.Covered o)
  | .issue ctaId a _ => inferInstanceAs (Decidable
      ((a.barType = .arrive ∧ c.arriveVisibilityLatency ≠ 0) ∨ c.CoveredArrival ctaId a))
  | .deliver cycle => inferInstanceAs (Decidable (c.CoveredDelivery cycle))
  | .exit ctaId warpId => inferInstanceAs (Decidable (c.CoveredExit ctaId warpId))
  | .operate _ => .isTrue trivial

theorem barrierReached_iff (hmem : a.warpId ∈ warps) :
    (c.set.enterBarrier ctaId a.warpId a.barType a.barId a.barCount).barrierReached ctaId a.barId
      a.barCount warps = true ↔ c.Completes ctaId a warps := by
  have hfields : ∀ u : BarrierSet, ∀ type id,
      (u.setWaiting a.warpId type id).barIdToWarps = u.barIdToWarps ∧
      (u.setWaiting a.warpId type id).barIdToCount = u.barIdToCount ∧
      (u.setWaiting a.warpId type id).warpActive = u.warpActive := fun _ _ _ => ⟨rfl, rfl, rfl⟩
  unfold barrierReached Completes enterBarrier
  dsimp only
  cases hcount : a.barCount with
  | none =>
    rw [decide_eq_true_eq, ← Finset.inter_insert_of_mem hmem]
    split
    · simp
    · simp [hfields]
  | some count =>
    rw [decide_eq_true_eq]
    split
    · simp
    · simp [hfields]

theorem NamedInv.reach (h : c.NamedInv []) (hidle : ¬ c.set.NamedWaiting a.warpId)
    (hfree : a.barType ≠ .arrive → ∀ e ∈ c.namedArrivals, e.warpId ≠ a.warpId)
    (hcovered : c.CoveredArrival ctaId a) (hok : c.reachBarrier ctaId a = .ok c') :
    c'.NamedInv [] := by
  unfold reachBarrier at hok
  unfold CoveredArrival at hcovered
  split at hok
  · cases hok
  rename_i warps hcta
  rw [hcta] at hcovered
  obtain ⟨_, hin, hok⟩ := bind_eq_ok hok
  have hmem := require_ok hin
  generalize hd : c.record (c.set.enterBarrier ctaId a.warpId a.barType a.barId a.barCount)
    [.arrived ctaId a] = d at hok
  have hinv : d.NamedInv [] := h.enter hcta hmem hidle hfree hd.symm
  have he : Enters c.set d.set ctaId a := by
    rw [← hd]
    exact enters ctaId a ((h.ctas ctaId warps hcta).2 _ hmem) hidle
  have hcta' : d.set.ctaToWarps ctaId = some warps := by
    rw [he.ctas]
    exact hcta
  have hgen : generation d.log ctaId a.barId = generation c.log ctaId a.barId ++ [a] := by
    rw [← hd]
    exact generation_concat.trans (if_pos ⟨rfl, rfl⟩)
  dsimp only at hok
  split at hok
  · rename_i hreached
    have hcompletes : c.Completes ctaId a warps := by
      rw [← hd] at hreached
      exact (barrierReached_iff hmem).mp hreached
    obtain ⟨hfresh, hreduced⟩ := hcovered hcompletes
    refine hinv.release hcta' rfl ?_ ?_ hok
    · unfold Completes at hcompletes
      unfold ReleaseCause.Holds
      obtain ⟨w, type, id, count⟩ := a
      cases count with
      | some count =>
        dsimp only at hcompletes hgen ⊢
        rw [hgen, List.countP_append, he.config, Nat.mul_add]
        rw [h.counts ctaId warps id hcta] at hcompletes
        simpa using hcompletes
      | none =>
        dsimp only at hcompletes hgen ⊢
        intro x hx
        rw [hinv.nonExited ctaId warps hcta', he.active, ← hcompletes, Finset.mem_insert] at hx
        rw [hgen]
        rcases hx with rfl | hx
        · exact ⟨_, List.mem_append_right _ List.mem_cons_self, rfl⟩
        · rw [Finset.mem_inter] at hx
          obtain ⟨b, hb, hbx⟩ := hfresh rfl x hx.1 hx.2
          exact ⟨b, List.mem_append_left _ hb, hbx⟩
    · intro b hb hred
      split
      · rw [Finset.mem_inter]
        exact hinv.members ctaId warps a.barId hcta' b hb
      · rename_i htype
        rw [hgen] at hb
        rcases List.mem_append.mp hb with hb | hb
        · exact absurd hred ((hreduced.resolve_left htype) b hb)
        · rw [List.mem_singleton.mp hb] at hred
          exact absurd hred htype
  · cases hok
    exact hinv

theorem NamedInv.noQueued (h : c.NamedInv []) (hpending : c.pendingArrivals w = 0) :
    ∀ e ∈ c.namedArrivals, e.warpId ≠ w := by
  intro e he
  rw [h.pending, List.countP_eq_zero] at hpending
  have hne := hpending e he
  rwa [decide_eq_true_eq] at hne

/-! ### The exit of a warp -/

/-- What a release leaves of the arrivals. -/
theorem releaseBarrier_ok {cause : ReleaseCause} {atBarrier broadcast : Finset Nat}
    (hok : c.releaseBarrier ctaId barId cause atBarrier broadcast = .ok c') :
    c'.set.config = c.set.config ∧ c'.set.ctaToWarps = c.set.ctaToWarps ∧
      c'.set.warpActive = c.set.warpActive ∧
      (∀ id, id ≠ barId → c'.set.barIdToWarps id = c.set.barIdToWarps id) ∧
      ∀ cta id, generation c'.log cta id =
        if ctaId = cta ∧ barId = id then [] else generation c.log cta id := by
  unfold releaseBarrier at hok
  obtain ⟨set, hset, hok⟩ := bind_eq_ok hok
  cases hok
  have hr := BarrierSet.releases (liftBarrier_ok hset)
  refine ⟨hr.config, hr.ctas, hr.active, ?_, ?_⟩
  · intro id hne
    have hbits := congrFun hr.bits id
    rw [Function.update_of_ne hne] at hbits
    exact hbits
  · intro cta id
    unfold resume record
    rw [generation_resumed, generation_concat]
    rfl

/-- In the middle of the loop over the barriers of a CTA one of whose warps exits. -/
structure Exiting (c : NamedCore) (ctaId bars : Nat) (warps : Finset Nat) : Prop where
  inv : c.NamedInv []
  cta : c.set.ctaToWarps ctaId = some warps
  limit : c.set.config.maxBarriersPerCta = bars
  noReduction : ∀ bar < bars, warps ∩ c.set.barIdToWarps bar = warps ∩ c.set.warpActive →
    c.NoReduction ctaId bar

theorem Exiting.releaseOnExit {bars bar : Nat} (h : c.Exiting ctaId bars warps) (hbar : bar < bars)
    (hok : c.releaseOnExit ctaId w warps bar = .ok c') : c'.Exiting ctaId bars warps := by
  unfold NamedCore.releaseOnExit at hok
  dsimp only at hok
  split at hok
  · rename_i hall
    obtain ⟨hconfig, hctas, hactive, hbits, hgen⟩ := releaseBarrier_ok hok
    refine ⟨?_, hctas ▸ h.cta, hconfig ▸ h.limit, ?_⟩
    · refine h.inv.release h.cta rfl ?_ ?_ hok
      · intro x hx
        rw [h.inv.nonExited ctaId warps h.cta, ← hall, Finset.mem_inter] at hx
        exact h.inv.fresh ctaId warps bar h.cta (h.limit.symm ▸ hbar) x hx.1 hx.2
      · exact fun a ha hred => absurd hred (h.noReduction bar hbar hall a ha)
    · intro bar' hbar' hall'
      unfold NoReduction
      rw [hgen]
      split
      · exact fun a ha => absurd ha List.not_mem_nil
      · rename_i hdiff
        have hne : bar' ≠ bar := fun heq => hdiff ⟨rfl, heq.symm⟩
        rw [hbits bar' hne, hactive] at hall'
        exact h.noReduction bar' hbar' hall'
  · cases hok
    exact h

theorem NamedInv.exit (h : c.NamedInv []) (hidle : ¬ c.set.Waiting w .barSync)
    (hpending : c.pendingArrivals w = 0) (hcovered : c.CoveredExit ctaId w)
    (hok : c.warpExit ctaId w = .ok c') : c'.NamedInv [] := by
  obtain ⟨set, hset, hok⟩ := bind_eq_ok hok
  have ha := aside_cancelMbarrierWait (liftBarrier_ok hset)
  dsimp only at hok
  split at hok
  · cases hok
  rename_i warps hcta
  obtain ⟨_, hin, hok⟩ := bind_eq_ok hok
  have hmem := require_ok hin
  have hinv : NamedInv { c with set := set } [] := h.aside ha rfl
  have hwait : ¬ set.NamedWaiting w := fun hx => hidle (ha.namedWaiting.mp hx).1
  have hexited := hinv.exited hcta hmem hwait hpending rfl
  unfold CoveredExit at hcovered
  rw [← ha.ctas, hcta, ← ha.config, ← ha.bits, ← ha.active] at hcovered
  dsimp only at hcovered
  have hstart : Exiting (c.record (set.markExited w) [.exited ctaId w]) ctaId
      set.config.maxBarriersPerCta warps := by
    refine ⟨hexited, hcta, rfl, ?_⟩
    intro bar hbar hall a ha'
    have hsame : generation (c.log ++ [NamedEvent.exited ctaId w]) ctaId bar = generation c.log ctaId bar :=
      generation_concat
    refine hcovered bar hbar ?_ a (hsame ▸ ha')
    rw [← Finset.inter_erase]
    exact hall
  have hend : Exiting c' ctaId set.config.maxBarriersPerCta warps := by
    refine foldlM_invariant (fun d => Exiting d ctaId set.config.maxBarriersPerCta warps) ?_
      hstart hok
    exact fun d bar d' hbar hd hd' => hd.releaseOnExit (List.mem_range.mp hbar) hd'
  exact hend.inv

/-! ### Runs -/

theorem NamedInv.issue {now : Nat} (h : c.NamedInv []) (hallowed : c.allowed (.issue ctaId a now))
    (hcovered : c.Covered (.issue ctaId a now)) (hok : c.issueBarrier ctaId a now = .ok c') :
    c'.NamedInv [] := by
  obtain ⟨hhome, hactive, hidle, hpending⟩ := hallowed
  have hreach : c.CoveredArrival ctaId a → c.reachBarrier ctaId a = .ok c' → c'.NamedInv [] :=
    fun hcov hok => h.reach (not_namedWaiting_of_idle hidle) (fun _ => h.noQueued hpending) hcov hok
  unfold issueBarrier at hok
  split at hok
  · rename_i htype
    unfold issueNamedArrival at hok
    split at hok
    · rename_i hnow
      exact hreach (hcovered.resolve_left fun hlater => hlater.2 hnow) hok
    · cases hok
      exact h.queue hhome hactive hidle
  · rename_i htype
    exact hreach (hcovered.resolve_left fun hlater => nomatch htype.symm.trans hlater.1) hok
  · rename_i htype
    exact hreach (hcovered.resolve_left fun hlater => nomatch htype.symm.trans hlater.1) hok

theorem NamedInv.deliver {cycle : Nat} (h : c.NamedInv []) (hcovered : c.Covered (.deliver cycle))
    (hok : c.deliver cycle = .ok c') : c'.NamedInv [] := by
  unfold NamedCore.deliver at hok
  have hcovered : c.CoveredDelivery cycle := hcovered
  unfold CoveredDelivery at hcovered
  split at hok
  · cases hok
    exact h
  rename_i e rest he
  rw [he] at hcovered
  split at hok
  · rename_i hready
    obtain ⟨_, -, hok⟩ := bind_eq_ok hok
    have hin : e ∈ c.namedArrivals := by
      rw [he]
      exact List.mem_cons_self
    refine (h.unqueue he).reach (h.arrivals e hin).2.1 ?_ (hcovered hready) hok
    exact fun htype => absurd rfl htype
  · cases hok
    exact h

theorem NamedInv.operate {op : BarrierOp} (h : c.NamedInv [])
    (hallowed : c.allowed (.operate op)) (hok : c.operate op = .ok c') : c'.NamedInv [] := by
  obtain ⟨hvalid, hdirect⟩ := hallowed
  have helsewhere : OutsideNamed op → ∀ set, liftBarrier (c.set.step op) = .ok set →
      NamedInv { c with set := set } [] := fun hop set hset =>
    h.aside (aside_step hop hvalid hdirect (liftBarrier_ok hset)) rfl
  cases op with
  | cycle now => exact h.cycle hok
  | allocate ctaId warps info =>
    obtain ⟨set, hset, hok⟩ := bind_eq_ok hok
    cases hok
    exact h.allocate hvalid (liftBarrier_ok hset) rfl
  | deallocate ctaId =>
    obtain ⟨set, hset, hok⟩ := bind_eq_ok hok
    cases hok
    exact h.deallocate (liftBarrier_ok hset) rfl
  | reachBarrier => cases hdirect
  | warpExit => cases hdirect
  | _ =>
    obtain ⟨set, hset, hok⟩ := bind_eq_ok hok
    cases hok
    exact helsewhere trivial set hset

theorem NamedInv.step {o : NamedOp} (h : c.NamedInv []) (hallowed : c.allowed o)
    (hcovered : c.Covered o) (hok : c.step o = .ok c') : c'.NamedInv [] := by
  cases o with
  | issue ctaId a now => exact h.issue hallowed hcovered hok
  | deliver cycle => exact h.deliver hcovered hok
  | exit ctaId warpId => exact h.exit hallowed.1 hallowed.2 hcovered hok
  | operate op => exact h.operate hallowed hok

def init (config : BarrierConfig) (latency : Nat) : NamedCore where
  set := { config := config }
  arriveVisibilityLatency := latency

theorem namedInv_init (config : BarrierConfig) (latency : Nat) : (init config latency).NamedInv [] := by
  have hidle : ∀ w, ¬ (init config latency).set.NamedWaiting w :=
    fun w h => absurd h.1.2.1 (Finset.notMem_empty w)
  constructor
  · exact fun _ _ hcta => nomatch hcta
  · exact fun _ _ _ _ _ hcta => nomatch hcta
  · exact fun _ _ hcta => nomatch hcta
  · exact fun _ _ _ hcta => nomatch hcta
  · exact fun _ _ _ hcta => nomatch hcta
  · exact fun _ _ _ hcta => nomatch hcta
  · exact fun w => ⟨.idle, rfl, .idle (hidle w) rfl⟩
  · exact fun w hw => absurd hw (hidle w)
  · exact fun _ _ _ hcta => nomatch hcta
  · exact fun _ => rfl
  · exact fun e he => absurd he List.not_mem_nil
  · intro l₁ l₂ cta id cause ws broadcast hsplit
    cases l₁ with
    | nil => cases hsplit
    | cons x l₁ => cases hsplit

/-- Each wait at a named barrier is released once, in the release that ends its generation. -/
structure ReleasesSoundly (c : NamedCore) : Prop where
  once : ∀ w, ∃ s, waitState c.log w = some s ∧
    WaitPhase c.set (countdownsOf c.set.pendingReleases w) w s
  released : ∀ l₁ l₂ ctaId barId cause waiters broadcast,
    c.log = l₁ ++ .released ctaId barId cause waiters broadcast :: l₂ →
    ReleaseHolds c.set.config.warpSize l₁ ctaId barId cause waiters broadcast

theorem generations_released {config : BarrierConfig} {latency : Nat}
    (h : Reaches (fun (c : NamedCore) o => c.step o) (fun c o => c.allowed o ∧ c.Covered o)
      (init config latency) c) : c.ReleasesSoundly := by
  have hinv : c.NamedInv [] := by
    apply h.invariant (fun c => c.NamedInv []) (namedInv_init config latency)
    exact fun _ _ _ hinv hallowed hok => hinv.step hallowed.1 hallowed.2 hok
  refine ⟨fun w => ?_, hinv.history⟩
  obtain ⟨s, hs, hphase⟩ := hinv.waits w
  rw [List.append_nil] at hphase
  exact ⟨s, hs, hphase⟩

/-- Two warps and one barrier. -/
def twoWarps : BarrierConfig where
  maxWarpsPerCore := 2
  maxCtaPerCore := 1
  maxBarriersPerCta := 1
  warpSize := 32
  barrierReleaseLatency := 3

theorem generations_released_witness : ∃ c : NamedCore,
    c.log = [.allocated 0 {0, 1}, .arrived 0 ⟨0, .red, 0, some 64⟩,
      .arrived 0 ⟨1, .red, 0, some 64⟩,
      .released 0 0 (.arrival ⟨1, .red, 0, some 64⟩) [0, 1] {0, 1}] ∧ c.ReleasesSoundly := by
  have hrun : (runAllowed (fun (c : NamedCore) o => c.step o)
      (fun c o => c.allowed o ∧ c.Covered o) (init twoWarps 2)
      [.operate (.allocate 0 {0, 1} (fun _ => {})), .issue 0 ⟨0, .red, 0, some 64⟩ 5,
        .issue 0 ⟨1, .red, 0, some 64⟩ 6]).any
      (fun c => decide (c.log = [.allocated 0 {0, 1}, .arrived 0 ⟨0, .red, 0, some 64⟩,
        .arrived 0 ⟨1, .red, 0, some 64⟩,
        .released 0 0 (.arrival ⟨1, .red, 0, some 64⟩) [0, 1] {0, 1}])) = true := by
    decide +kernel
  obtain ⟨c, hc, htest⟩ := (Option.any_eq_true _ _).mp hrun
  exact ⟨c, of_decide_eq_true htest, generations_released (Reaches.of_runAllowed .refl hc)⟩

/-- A warp that exits completes a barrier and releases a `bar.red` without its reduction. -/
theorem generations_released_counterexample :
    ¬ ∀ (config : BarrierConfig) (latency : Nat) (c : NamedCore),
      Reaches (fun (c : NamedCore) o => c.step o) (fun c o => c.allowed o) (init config latency) c →
        c.ReleasesSoundly := by
  intro hclaim
  have hrun : (runAllowed (fun (c : NamedCore) o => c.step o) (fun c o => c.allowed o)
      (init twoWarps 0)
      [.operate (.allocate 0 {0, 1} (fun _ => {})), .issue 0 ⟨0, .red, 0, none⟩ 5, .exit 0 1]).any
      (fun c => decide (c.log = [.allocated 0 {0, 1}, .arrived 0 ⟨0, .red, 0, none⟩, .exited 0 1,
        .released 0 0 (.exit 1) [0] ∅])) = true := by
    decide +kernel
  obtain ⟨c, hc, htest⟩ := (Option.any_eq_true _ _).mp hrun
  have hholds := (hclaim twoWarps 0 c (Reaches.of_runAllowed .refl hc)).released
    [.allocated 0 {0, 1}, .arrived 0 ⟨0, .red, 0, none⟩, .exited 0 1] [] 0 0 _ _ _
    (of_decide_eq_true htest)
  have hmem : (⟨0, .red, 0, none⟩ : Arrival) ∈ generation
      [.allocated 0 {0, 1}, .arrived 0 ⟨0, .red, 0, none⟩, .exited 0 1] 0 0 :=
    List.mem_cons_self
  exact absurd (hholds.reduced _ hmem rfl) (Finset.notMem_empty 0)

end NamedCore

end FlashGpuSim
