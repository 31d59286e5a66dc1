import FlashGpuSim.Mbarrier.Reductions

/-!
The operations of the named barriers that broadcast no reduction: everything but a `bar.red`.
-/

namespace FlashGpuSim

open Lib

namespace NamedCore

open BarrierSet

variable {c c' d : NamedCore} {es es' : List NamedEvent} {ctaId w : Nat} {a : Arrival}

/-- An event of no reduction, and of no CTA that starts. -/
def Quiet : NamedEvent → Prop
  | .allocated _ _ => False
  | .arrived _ a => a.barType ≠ .red
  | .released _ _ _ _ broadcast => broadcast = ∅
  | .exited _ _ | .resumed _ => True

/-- The history grows by events of no reduction, and the CTAs stay the same. -/
structure QuietMove (c c' : NamedCore) (es : List NamedEvent) : Prop where
  log : c'.log = c.log ++ es
  ctas : c'.set.ctaToWarps = c.set.ctaToWarps
  quiet : ∀ e ∈ es, Quiet e

theorem QuietMove.refl (c : NamedCore) : QuietMove c c [] :=
  ⟨(List.append_nil c.log).symm, rfl, fun _ he => absurd he List.not_mem_nil⟩

theorem QuietMove.trans (h : QuietMove c d es) (h' : QuietMove d c' es') :
    QuietMove c c' (es ++ es') where
  log := by rw [h'.log, h.log, List.append_assoc]
  ctas := h'.ctas.trans h.ctas
  quiet e he := (List.mem_append.mp he).elim (h.quiet e) (h'.quiet e)

/-- The history and the CTAs are all that counts. -/
theorem QuietMove.of_same (hlog : c'.log = c.log) (hctas : c'.set.ctaToWarps = c.set.ctaToWarps) :
    QuietMove c c' [] :=
  ⟨by rw [hlog, List.append_nil], hctas, fun _ he => absurd he List.not_mem_nil⟩

theorem quietMove_resume {set : BarrierSet} (hctas : set.ctaToWarps = c.set.ctaToWarps) :
    ∃ es, QuietMove c (c.resume set) es := by
  refine ⟨_, rfl, hctas, ?_⟩
  intro e he
  obtain ⟨w, -, rfl⟩ := List.mem_map.mp he
  trivial

theorem quietMove_releaseBarrier {barId : Nat} {cause : ReleaseCause} {atBarrier : Finset Nat}
    (hok : c.releaseBarrier ctaId barId cause atBarrier ∅ = .ok c') : ∃ es, QuietMove c c' es := by
  obtain ⟨set, hset, hok⟩ := bind_eq_ok hok
  cases hok
  generalize hd : c.record c.set [.released ctaId barId cause
    (c.set.namedBarrierWaiters barId atBarrier) ∅] = d
  have hreleased : QuietMove c d [.released ctaId barId cause
      (c.set.namedBarrierWaiters barId atBarrier) ∅] := by
    subst hd
    refine ⟨rfl, rfl, ?_⟩
    intro e he
    rw [List.mem_singleton.mp he]
    exact rfl
  have hctas : set.ctaToWarps = d.set.ctaToWarps := by
    rw [hreleased.ctas]
    exact (BarrierSet.releases (liftBarrier_ok hset)).ctas
  obtain ⟨es, hes⟩ := quietMove_resume hctas
  exact ⟨_, hreleased.trans hes⟩

theorem ctas_enterBarrier {u : BarrierSet} {type : BarrierType} {barId : Nat} {count : Option Nat} :
    (u.enterBarrier ctaId w type barId count).ctaToWarps = u.ctaToWarps := by
  unfold enterBarrier
  dsimp only
  split
  · rfl
  · rfl

theorem quietMove_reachBarrier (htype : a.barType ≠ .red) (hok : c.reachBarrier ctaId a = .ok c') :
    ∃ es, QuietMove c c' es := by
  unfold reachBarrier at hok
  split at hok
  · cases hok
  obtain ⟨_, -, hok⟩ := bind_eq_ok hok
  have harrived : QuietMove c (c.record (c.set.enterBarrier ctaId a.warpId a.barType a.barId
      a.barCount) [.arrived ctaId a]) [.arrived ctaId a] := by
    refine ⟨rfl, ctas_enterBarrier, ?_⟩
    intro e he
    rw [List.mem_singleton.mp he]
    exact htype
  dsimp only at hok
  split at hok
  · obtain ⟨es, hes⟩ := quietMove_releaseBarrier hok
    exact ⟨_, harrived.trans hes⟩
  · cases hok
    exact ⟨_, harrived⟩

theorem quietMove_foldlM {α : Type} {f : NamedCore → α → Except NamedFailure NamedCore}
    {l : List α} (hf : ∀ c x c', f c x = .ok c' → ∃ es, QuietMove c c' es)
    (hok : l.foldlM f c = .ok c') : ∃ es, QuietMove c c' es := by
  refine foldlM_invariant (fun d => ∃ es, QuietMove c d es) ?_ ⟨[], .refl c⟩ hok
  rintro d x d' - ⟨es, hes⟩ hd
  obtain ⟨es', hes'⟩ := hf d x d' hd
  exact ⟨_, hes.trans hes'⟩

theorem quietMove_warpExit (hok : c.warpExit ctaId w = .ok c') : ∃ es, QuietMove c c' es := by
  obtain ⟨set, hset, hok⟩ := bind_eq_ok hok
  have ha := aside_cancelMbarrierWait (liftBarrier_ok hset)
  dsimp only at hok
  split at hok
  · cases hok
  obtain ⟨_, -, hok⟩ := bind_eq_ok hok
  have hexited : QuietMove c (c.record (set.markExited w) [.exited ctaId w]) [.exited ctaId w] := by
    refine ⟨rfl, ha.ctas, ?_⟩
    intro e he
    rw [List.mem_singleton.mp he]
    trivial
  have hreleased : ∀ c bar c', NamedCore.releaseOnExit c ctaId w ‹_› bar = .ok c' →
      ∃ es, QuietMove c c' es := by
    intro c bar c' hok
    unfold NamedCore.releaseOnExit at hok
    dsimp only at hok
    split at hok
    · exact quietMove_releaseBarrier hok
    · cases hok
      exact ⟨[], .refl c⟩
  obtain ⟨es, hes⟩ := quietMove_foldlM hreleased hok
  exact ⟨_, hexited.trans hes⟩

theorem ctas_expire {u u' : BarrierSet} {r : PendingWarpRelease} (hok : u.expire r = .ok u') :
    u'.ctaToWarps = u.ctaToWarps := by
  unfold BarrierSet.expire at hok
  split at hok
  · cases hok
    rfl
  · obtain ⟨_, -, hok⟩ := bind_eq_ok hok
    obtain ⟨-, rfl⟩ := clearWarpWaiting_ok hok
    rfl

theorem quietMove_cycle {now : Nat} (hok : c.cycle now = .ok c') : ∃ es, QuietMove c c' es := by
  obtain ⟨d, hd, hok⟩ := bind_eq_ok hok
  obtain ⟨set, hset, hok⟩ := bind_eq_ok hok
  cases hok
  have hexpired : ∀ c r c', NamedCore.expire c r = .ok c' → ∃ es, QuietMove c c' es := by
    intro c r c' hok
    obtain ⟨set, hset, hok⟩ := bind_eq_ok hok
    cases hok
    exact quietMove_resume (ctas_expire (liftBarrier_ok hset))
  obtain ⟨es, hes⟩ := quietMove_foldlM hexpired hd
  have hrechecked : Aside d.set set :=
    aside_foldlM (fun _ _ _ => aside_recheck) (liftBarrier_ok hset)
  exact ⟨es, hes.log, hrechecked.ctas.trans hes.ctas, hes.quiet⟩

/-- Reducing arrivals apart, only the start and the end of a CTA are no quiet moves. -/
theorem quietMove_operate {op : BarrierOp} (hallowed : c.allowed (.operate op))
    (hop : ∀ cta warps info, op ≠ .allocate cta warps info) (hop' : ∀ cta, op ≠ .deallocate cta)
    (hok : c.operate op = .ok c') : ∃ es, QuietMove c c' es := by
  have helsewhere : OutsideNamed op → ∀ set, liftBarrier (c.set.step op) = .ok set →
      ∃ es, QuietMove c { c with set := set } es := fun hout set hset =>
    ⟨[], .of_same rfl (aside_step hout hallowed.1 hallowed.2 (liftBarrier_ok hset)).ctas⟩
  cases op with
  | cycle now => exact quietMove_cycle hok
  | allocate cta warps info => exact absurd rfl (hop cta warps info)
  | deallocate cta => exact absurd rfl (hop' cta)
  | reachBarrier => cases hallowed.2
  | warpExit => cases hallowed.2
  | _ =>
    obtain ⟨set, hset, hok⟩ := bind_eq_ok hok
    cases hok
    exact helsewhere trivial set hset

theorem quietMove_issue {now : Nat} (htype : a.barType ≠ .red)
    (hok : c.issueBarrier ctaId a now = .ok c') : ∃ es, QuietMove c c' es := by
  unfold issueBarrier at hok
  split at hok
  · unfold issueNamedArrival at hok
    split at hok
    · exact quietMove_reachBarrier htype hok
    · cases hok
      exact ⟨[], .of_same rfl rfl⟩
  · exact quietMove_reachBarrier htype hok
  · exact quietMove_reachBarrier htype hok

theorem quietMove_deliver {cycle : Nat} (hok : c.deliver cycle = .ok c') :
    ∃ es, QuietMove c c' es := by
  unfold NamedCore.deliver at hok
  split at hok
  · cases hok
    exact ⟨[], .refl c⟩
  split at hok
  · obtain ⟨_, -, hok⟩ := bind_eq_ok hok
    have htype : (NamedArrival.arrival ‹_›).barType ≠ .red := fun hred => nomatch hred
    obtain ⟨es, hes⟩ := quietMove_reachBarrier htype hok
    exact ⟨es, hes.log, hes.ctas, hes.quiet⟩
  · cases hok
    exact ⟨[], .refl c⟩

end NamedCore

end FlashGpuSim
