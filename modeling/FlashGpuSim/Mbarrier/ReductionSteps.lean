import FlashGpuSim.Mbarrier.ReductionRuns

/-!
The reductions of whole runs. They are right as long as each generation starts from the right
accumulator, and the first wrong one needs no more than a second generation.
-/

namespace FlashGpuSim

open Lib

namespace ReductionCore

variable {s s' t : ReductionCore} {c' : NamedCore} {ctaId barId barCount now w : Nat}
  {warps : Finset Nat} {inst : RedInst} {o : NamedOp}

structure Inv (s : ReductionCore) : Prop where
  named : s.core.NamedInv []
  holding : s.Holding s.core.set.ctaToWarps s.core.log
  right : ∀ r ∈ s.reductions, r.Right

/-- A warp that has contributed waits. -/
theorem Inv.waits (h : s.Inv) (hcta : s.core.set.ctaToWarps ctaId = some warps)
    {p : Nat × RedInst} (hp : p ∈ s.contributed ctaId barId) :
    p.1 ∈ warps ∧ p.1 ∈ s.core.set.warpAtBarrier ∧ p.1 ∈ s.core.set.barIdToWarps barId := by
  have hmem : p.1 ∈ redWarps (generation s.core.log ctaId barId) := by
    rw [← h.holding.arrivals]
    exact List.mem_map_of_mem hp
  obtain ⟨a, ha, hred, hw⟩ := mem_redWarps.mp hmem
  have hwarp := (h.named.members ctaId warps barId hcta a ha).1
  have harrive : a.barType ≠ .arrive := fun htype => nomatch hred.symm.trans htype
  obtain ⟨hat, hbit⟩ := (h.named.waiters ctaId warps barId hcta a.warpId hwarp).mp
    ⟨a, ha, rfl, harrive⟩
  rw [← hw]
  exact ⟨hwarp, hat.1.2.1, hbit⟩

/-! ### Everything but a reduction -/

theorem Inv.storeInst {x : Option RedInst} (h : s.Inv) (hw : w ∉ s.core.set.warpAtBarrier) :
    (s.storeInst w x).Inv := by
  refine ⟨h.named, ⟨h.holding.arrivals, ?_, h.holding.sums⟩, h.right⟩
  intro cta warps bar hcta p hp
  have hne : p.1 ≠ w := by
    rintro rfl
    exact hw (h.waits hcta hp).2.1
  show Function.update s.instAtBarrier w x p.1 = some p.2
  rw [Function.update_of_ne hne]
  exact h.holding.kept cta warps bar hcta p hp

theorem advance_append {es : List NamedEvent} (hlog : c'.log = s.core.log ++ es) :
    s.advance c' = es.foldlM settle { s with core := c' } := by
  unfold advance
  rw [hlog, List.drop_left]

theorem Inv.holdingOf (h : s.Inv) (c' : NamedCore) :
    Holding { s with core := c' } s.core.set.ctaToWarps s.core.log :=
  ⟨h.holding.arrivals, h.holding.kept, h.holding.sums⟩

theorem Inv.advanceQuiet {es : List NamedEvent} (h : s.Inv)
    (hmove : NamedCore.QuietMove s.core c' es) (hnamed : c'.NamedInv []) :
    ∃ s', s.advance c' = .ok s' ∧ s'.Inv := by
  have hhistory := hnamed.history
  rw [hmove.log] at hhistory
  obtain ⟨s', hs', hcore, hright, hend⟩ :=
    foldlM_settle (h.holdingOf c') hmove.quiet h.right hhistory
  refine ⟨s', (advance_append hmove.log).trans hs', hcore ▸ hnamed, ?_, hright⟩
  rw [hcore]
  show s'.Holding c'.set.ctaToWarps c'.log
  rw [hmove.log, hmove.ctas]
  exact hend

theorem Inv.allocate {info : Nat → WarpInfo} (h : s.Inv) (hnamed : c'.NamedInv [])
    (hok : s.core.operate (.allocate ctaId warps info) = .ok c') :
    ∃ s', s.advance c' = .ok s' ∧ s'.Inv := by
  obtain ⟨hlog, hctas⟩ : c'.log = s.core.log ++ [NamedEvent.allocated ctaId warps] ∧
      c'.set.ctaToWarps = Function.update s.core.set.ctaToWarps ctaId (some warps) := by
    obtain ⟨set, hset, hok⟩ := bind_eq_ok hok
    obtain ⟨_, -, hset⟩ := bind_eq_ok (NamedCore.liftBarrier_ok hset)
    cases hset
    cases hok
    exact ⟨rfl, rfl⟩
  have hsettled := (h.holdingOf c').settle (e := .allocated ctaId warps)
    (fun _ _ he => nomatch he) rfl
  rw [← hlog] at hsettled
  refine ⟨_, (advance_append hlog).trans rfl, hnamed, hsettled.mono ?_, h.right⟩
  intro cta warps' hcta
  have hcta : c'.set.ctaToWarps cta = some warps' := hcta
  rw [hctas] at hcta
  rcases eq_or_ne cta ctaId with rfl | hne
  · refine .inr fun bar => ?_
    show Function.update s.contributed cta (fun _ => []) cta bar = []
    rw [Function.update_self]
  · rw [Function.update_of_ne hne] at hcta
    exact .inl hcta

theorem ctas_deallocate {u u' : BarrierSet} {cta : Nat}
    (hok : u.deallocateBarrier ctaId = .ok u') (hcta : u'.ctaToWarps cta = some warps) :
    u.ctaToWarps cta = some warps := by
  unfold BarrierSet.deallocateBarrier at hok
  split at hok
  · cases hok
    exact hcta
  · obtain ⟨v, hv, hok⟩ := bind_eq_ok hok
    obtain ⟨_, -, hok⟩ := bind_eq_ok hok
    cases hok
    have hold : Function.update v.ctaToWarps ctaId none cta = some warps := hcta
    rcases eq_or_ne cta ctaId with rfl | hne
    · rw [Function.update_self] at hold
      cases hold
    · rw [Function.update_of_ne hne, (BarrierSet.aside_cleanup hv).ctas] at hold
      exact hold

theorem Inv.deallocate (h : s.Inv) (hnamed : c'.NamedInv [])
    (hok : s.core.operate (.deallocate ctaId) = .ok c') :
    ∃ s', s.advance c' = .ok s' ∧ s'.Inv := by
  obtain ⟨hlog, hctas⟩ : c'.log = s.core.log ++ [] ∧ ∀ cta warps,
      c'.set.ctaToWarps cta = some warps → s.core.set.ctaToWarps cta = some warps := by
    obtain ⟨set, hset, hok⟩ := bind_eq_ok hok
    cases hok
    exact ⟨(List.append_nil _).symm,
      fun cta warps hcta => ctas_deallocate (NamedCore.liftBarrier_ok hset) hcta⟩
  have hholding := (h.holdingOf c').mono fun cta warps hcta => .inl (hctas cta warps hcta)
  rw [← List.append_nil s.core.log, ← hlog] at hholding
  exact ⟨_, (advance_append hlog).trans rfl, hnamed, hholding, h.right⟩

theorem Inv.advance (h : s.Inv) (hallowed : s.core.allowed o) (hred : isRed o = false)
    (hok : s.core.step o = .ok c') (hnamed : c'.NamedInv []) :
    ∃ s', s.advance c' = .ok s' ∧ s'.Inv := by
  cases o with
  | issue cta a now =>
    obtain ⟨es, hes⟩ := NamedCore.quietMove_issue (of_decide_eq_false hred) hok
    exact h.advanceQuiet hes hnamed
  | deliver cycle =>
    obtain ⟨es, hes⟩ := NamedCore.quietMove_deliver hok
    exact h.advanceQuiet hes hnamed
  | exit cta w =>
    obtain ⟨es, hes⟩ := NamedCore.quietMove_warpExit hok
    exact h.advanceQuiet hes hnamed
  | operate op =>
    by_cases hstart : ∃ cta warps info, op = .allocate cta warps info
    · obtain ⟨cta, warps, info, rfl⟩ := hstart
      exact h.allocate hnamed hok
    by_cases hend : ∃ cta, op = .deallocate cta
    · obtain ⟨cta, rfl⟩ := hend
      exact h.deallocate hnamed hok
    obtain ⟨es, hes⟩ := NamedCore.quietMove_operate hallowed
      (fun cta warps info heq => hstart ⟨cta, warps, info, heq⟩)
      (fun cta heq => hend ⟨cta, heq⟩) hok
    exact h.advanceQuiet hes hnamed

/-- A step keeps the invariant, or fails in the barriers. -/
def Steps (s : ReductionCore) (o : ReductionOp) : Prop :=
  (∃ e, s.step o = .error (.named e)) ∨ ∃ s', s.step o = .ok s' ∧ s'.Inv

theorem Inv.stepNamed (h : s.Inv) (hallowed : s.allowed (.named o))
    (hcovered : s.Covered (.named o)) : s.Steps (.named o) := by
  obtain ⟨hcore, hred, hstoring⟩ := hallowed
  have hstep : s.step (.named o) = s.stepNamed o := rfl
  unfold Steps
  rw [hstep]
  unfold ReductionCore.stepNamed
  cases hok : s.core.step o with
  | error e => exact .inl ⟨e, rfl⟩
  | ok c' =>
    have hnamed := h.named.step hcore hcovered hok
    refine .inr ?_
    cases hw : storing o with
    | none => exact h.advance hcore hred hok hnamed
    | some w => exact (h.storeInst (hstoring w hw)).advance hcore hred hok hnamed

/-! ### A reduction -/

/-- What a `bar.red` leaves before its warp reaches the barrier. -/
def entered (s : ReductionCore) (ctaId barId w : Nat) (inst : RedInst) (acc : BitVec 32) :
    ReductionCore :=
  { ((s.setAccumulator ctaId barId acc).storeInst w (some inst)).contribute ctaId barId w inst with
    barIds := Function.update s.barIds inst.pc barId }

variable {acc : BitVec 32} {cta bar : Nat} {p : Nat × RedInst}

theorem contributed_entered : (s.entered ctaId barId w inst acc).contributed cta bar =
    if ctaId = cta ∧ barId = bar then s.contributed ctaId barId ++ [(w, inst)]
    else s.contributed cta bar :=
  update_twice

theorem accumulator_entered : (s.entered ctaId barId w inst acc).accumulator cta bar =
    if cta = ctaId ∧ bar = barId then acc else s.accumulator cta bar :=
  accumulator_setAccumulator (s := s)

theorem contributedPreds_concat {contributions : List (Nat × RedInst)} :
    contributedPreds (contributions ++ [(w, inst)]) = contributedPreds contributions ++ inst.preds := by
  unfold contributedPreds
  rw [List.flatMap_append, List.flatMap_singleton]

/-- The accumulator is right for what its generation has so far. -/
theorem Inv.sums (h : s.Inv) {a : Arrival} (hcta : s.core.set.ctaToWarps ctaId = some warps)
    (hcovered : s.CoveredRed ctaId a inst) :
    Sums inst.op (contributedPreds (s.contributed ctaId a.barId)) (s.accumulator ctaId a.barId) := by
  cases hlist : s.contributed ctaId a.barId with
  | nil => exact sums_nil (hcovered.start hlist)
  | cons p rest =>
    have hp : p ∈ s.contributed ctaId a.barId := hlist ▸ List.mem_cons_self
    have hsums := h.holding.sums ctaId warps a.barId hcta p hp
    rw [hcovered.same p hp, hlist] at hsums
    exact hsums

theorem Inv.arrive {a : Arrival} (h : s.Inv) (hred : a.barType = .red)
    (hidle : a.warpId ∉ s.core.set.warpAtBarrier)
    (hsame : ∀ p ∈ s.contributed ctaId a.barId, p.2.op = inst.op)
    (hsums : Sums inst.op (contributedPreds (s.contributed ctaId a.barId) ++ inst.preds) acc) :
    (s.entered ctaId a.barId a.warpId inst acc).Holding s.core.set.ctaToWarps
      (s.core.log ++ [NamedEvent.arrived ctaId a]) := by
  refine ⟨?_, ?_, ?_⟩
  · intro cta bar
    rw [contributed_entered, generation_concat]
    unfold Arrival.next
    dsimp only
    split
    · rename_i hsite
      obtain ⟨rfl, rfl⟩ := hsite
      rw [List.map_append, redWarps_concat, if_pos hred, h.holding.arrivals]
      rfl
    · exact h.holding.arrivals cta bar
  · intro cta warps' bar hcta' p hp
    rw [contributed_entered] at hp
    show Function.update s.instAtBarrier a.warpId (some inst) p.1 = some p.2
    have hold : p ∈ s.contributed cta bar →
        Function.update s.instAtBarrier a.warpId (some inst) p.1 = some p.2 := by
      intro hp
      have hne : p.1 ≠ a.warpId := fun heq => hidle (heq ▸ (h.waits hcta' hp).2.1)
      rw [Function.update_of_ne hne]
      exact h.holding.kept cta warps' bar hcta' p hp
    split at hp
    · rename_i hsite
      obtain ⟨rfl, rfl⟩ := hsite
      rcases List.mem_append.mp hp with hp | hp
      · exact hold hp
      · rw [List.mem_singleton.mp hp]
        exact Function.update_self _ _ _
    · exact hold hp
  · intro cta warps' bar hcta' p hp
    rw [contributed_entered] at hp
    rw [contributed_entered, accumulator_entered]
    split at hp
    · rename_i hsite
      obtain ⟨rfl, rfl⟩ := hsite
      have hop : p.2.op = inst.op := by
        rcases List.mem_append.mp hp with hp | hp
        · exact hsame p hp
        · rw [List.mem_singleton.mp hp]
      rw [if_pos ⟨rfl, rfl⟩, if_pos ⟨rfl, rfl⟩, contributedPreds_concat, hop]
      exact hsums
    · rename_i hsite
      rw [if_neg hsite, if_neg fun heq => hsite ⟨heq.1.symm, heq.2.symm⟩]
      exact h.holding.sums cta warps' bar hcta' p hp

theorem bits_enterBarrier {u : BarrierSet} {type : BarrierType} {count : Option Nat} :
    (u.enterBarrier ctaId w type barId count).barIdToWarps barId =
      insert w (u.barIdToWarps barId) := by
  unfold BarrierSet.enterBarrier
  dsimp only
  split
  · exact Function.update_self _ _ _
  · exact Function.update_self _ _ _

/-- The warps at a barrier that completes are those that have contributed. -/
theorem Inv.atBarrier {a : Arrival} (h : s.Inv) (hcta : s.core.set.ctaToWarps ctaId = some warps)
    (hmem : a.warpId ∈ warps) (hfresh : s.core.Fresh ctaId a.barId warps)
    (hred : ∀ b ∈ generation s.core.log ctaId a.barId, b.barType = .red) :
    w ∈ warps ∩ insert a.warpId (s.core.set.barIdToWarps a.barId) ↔
      ∃ p ∈ s.contributed ctaId a.barId ++ [(a.warpId, inst)], p.1 = w := by
  rw [Finset.mem_inter, Finset.mem_insert]
  constructor
  · rintro ⟨hw, rfl | hbit⟩
    · exact ⟨_, List.mem_append_right _ List.mem_cons_self, rfl⟩
    · obtain ⟨b, hb, rfl⟩ := hfresh w hw hbit
      have hin : b.warpId ∈ (s.contributed ctaId a.barId).map Prod.fst := by
        rw [h.holding.arrivals]
        exact mem_redWarps.mpr ⟨b, hb, hred b hb, rfl⟩
      obtain ⟨p, hp, heq⟩ := List.mem_map.mp hin
      exact ⟨p, List.mem_append_left _ hp, heq⟩
  · rintro ⟨p, hp, rfl⟩
    rcases List.mem_append.mp hp with hp | hp
    · obtain ⟨hw, -, hbit⟩ := h.waits hcta hp
      exact ⟨hw, .inr hbit⟩
    · rw [List.mem_singleton.mp hp]
      exact ⟨hmem, .inl rfl⟩

theorem foldlM_resumed {ws : List Nat} :
    (ws.map NamedEvent.resumed).foldlM ReductionCore.settle s = .ok s := by
  induction ws with
  | nil => rfl
  | cons w ws ih => exact ih

theorem Holding.resumed {ctas : Nat → Option (Finset Nat)} {log : List NamedEvent}
    (h : s.Holding ctas log) (rs : List Nat) : s.Holding ctas (log ++ rs.map .resumed) := by
  refine ⟨?_, h.kept, h.sums⟩
  intro cta bar
  rw [generation_resumed]
  exact h.arrivals cta bar

/-- Every thread of the warps that have contributed gets the accumulator. -/
theorem right_of_kept (ctaId barId : Nat) {contributions : List (Nat × RedInst)} {ids : List Nat}
    (hids : ∀ w, w ∈ ids ↔ ∃ p ∈ contributions, p.1 = w)
    (hkept : ∀ p ∈ contributions, t.instAtBarrier p.1 = some p.2)
    (hsums : ∀ p ∈ contributions, Sums p.2.op (contributedPreds contributions) acc) :
    Reduction.Right ⟨ctaId, barId, contributions, (ids.map (t.deliveredTo acc)).flatten⟩ := by
  have hdelivered : ∀ p ∈ contributions,
      t.deliveredTo acc p.1 = p.2.lanes.map fun l => ⟨p.1, l.1, acc⟩ := by
    intro p hp
    unfold deliveredTo
    rw [hkept p hp]
  constructor
  · intro p hp l hl
    refine ⟨⟨p.1, l.1, acc⟩, ?_, rfl, rfl⟩
    refine List.mem_flatten.mpr ⟨t.deliveredTo acc p.1, ?_, ?_⟩
    · exact List.mem_map_of_mem ((hids p.1).mpr ⟨p, hp, rfl⟩)
    · rw [hdelivered p hp]
      exact List.mem_map.mpr ⟨l, hl, rfl⟩
  · intro d hd
    obtain ⟨ds, hds, hd⟩ := List.mem_flatten.mp hd
    obtain ⟨w, hw, rfl⟩ := List.mem_map.mp hds
    obtain ⟨p, hp, rfl⟩ := (hids w).mp hw
    rw [hdelivered p hp] at hd
    obtain ⟨l, hl, rfl⟩ := List.mem_map.mp hd
    exact ⟨p, hp, rfl, List.mem_map_of_mem hl, (hsums p hp).reduces⟩

/-- The release of a barrier to which the last warp comes by a `bar.red`. -/
theorem Inv.complete {a : Arrival} {es : List NamedEvent} {ws : List Nat} {cause : ReleaseCause}
    (h : s.Inv) (hred : a.barType = .red) (hcta : s.core.set.ctaToWarps ctaId = some warps)
    (hmem : a.warpId ∈ warps) (hidle : a.warpId ∉ s.core.set.warpAtBarrier)
    (hcovered : s.CoveredRed ctaId a inst) (hcompletes : s.core.Completes ctaId a warps)
    (hsums : Sums inst.op (contributedPreds (s.contributed ctaId a.barId) ++ inst.preds) acc)
    (hnamed : c'.NamedInv []) (hctas : c'.set.ctaToWarps = s.core.set.ctaToWarps)
    (hes : es = [.arrived ctaId a, .released ctaId a.barId cause ws
      (warps ∩ insert a.warpId (s.core.set.barIdToWarps a.barId))])
    (hlog : ∃ rs : List Nat, c'.log = s.core.log ++ (es ++ rs.map .resumed)) :
    ∃ s', (s.entered ctaId a.barId a.warpId inst acc).advance c' = .ok s' ∧ s'.Inv := by
  obtain ⟨rs, hlog⟩ := hlog
  obtain ⟨hfresh, hallRed, hids⟩ := hcovered.completes warps hcta hcompletes
  have hholding := h.arrive hred hidle hcovered.same hsums
  generalize ht : { s.entered ctaId a.barId a.warpId inst acc with core := c' } = t
  have hcontributed : t.contributed ctaId a.barId =
      s.contributed ctaId a.barId ++ [(a.warpId, inst)] := by
    rw [← ht]
    exact contributed_entered.trans (if_pos ⟨rfl, rfl⟩)
  have hacc : t.accumulator ctaId a.barId = acc := by
    rw [← ht]
    show (s.entered ctaId a.barId a.warpId inst acc).accumulator ctaId a.barId = acc
    rw [accumulator_entered, if_pos ⟨rfl, rfl⟩]
  have hkept : ∀ p ∈ t.contributed ctaId a.barId, t.instAtBarrier p.1 = some p.2 := by
    rw [← ht]
    exact hholding.kept ctaId warps a.barId hcta
  have hin : ∀ w, w ∈ warps ∩ insert a.warpId (s.core.set.barIdToWarps a.barId) ↔
      ∃ p ∈ t.contributed ctaId a.barId, p.1 = w := by
    intro w
    rw [hcontributed]
    exact h.atBarrier hcta hmem hfresh hallRed
  -- The instructions of all of them still have the id.
  have hid : ∀ w ∈ warps ∩ insert a.warpId (s.core.set.barIdToWarps a.barId), ∀ inst',
      t.instAtBarrier w = some inst' → t.barIds inst'.pc = a.barId := by
    intro w hw inst' hinst
    obtain ⟨p, hp, rfl⟩ := (hin w).mp hw
    rw [hkept p hp] at hinst
    cases hinst
    rw [← ht]
    show Function.update s.barIds inst.pc a.barId p.2.pc = a.barId
    rcases eq_or_ne p.2.pc inst.pc with heq | hne
    · rw [heq, Function.update_self]
    · rw [Function.update_of_ne hne]
      rw [hcontributed] at hp
      rcases List.mem_append.mp hp with hp | hp
      · exact (hids p hp).resolve_left hne
      · rw [List.mem_singleton.mp hp] at hne
        exact absurd rfl hne
  have hrange : t.InRange ctaId a.barId := by
    rw [← ht]
    exact hcovered.inRange
  have hbroadcast := broadcast_ok hrange hid
  obtain ⟨s', hsettled, hcore, hreductions⟩ :=
    settle_released a.barId cause ws hbroadcast
  have hcore : s'.core = c' := by
    rw [hcore, ← ht]
  have harrived : t.Holding s.core.set.ctaToWarps (s.core.log ++ [NamedEvent.arrived ctaId a]) := by
    rw [← ht]
    exact ⟨hholding.arrivals, hholding.kept, hholding.sums⟩
  have hended := (harrived.settle (e := .released ctaId a.barId cause ws _)
    (fun _ _ he => nomatch he) hsettled).resumed rs
  have hwarpIds : ∀ w, w ∈ t.core.set.warpIds.filter
      (· ∈ warps ∩ insert a.warpId (s.core.set.barIdToWarps a.barId)) ↔
      ∃ p ∈ t.contributed ctaId a.barId, p.1 = w := by
    intro w
    rw [List.mem_filter, decide_eq_true_eq, ← hin w]
    refine and_iff_right_of_imp fun hw => ?_
    rw [← ht]
    have hlt := (hnamed.ctas ctaId warps (hctas ▸ hcta)).2 w (Finset.mem_inter.mp hw).1
    exact List.mem_range.mpr hlt
  have hnew := right_of_kept ctaId a.barId hwarpIds hkept
    (harrived.sums ctaId warps a.barId hcta)
  refine ⟨s', ?_, hcore ▸ hnamed, ?_, ?_⟩
  · have hadvance := advance_append (s := s.entered ctaId a.barId a.warpId inst acc) hlog
    rw [hadvance, ht, hes]
    show List.foldlM ReductionCore.settle t (.released ctaId a.barId cause ws _ :: rs.map .resumed) =
      .ok s'
    rw [List.foldlM_cons, hsettled]
    exact foldlM_resumed
  · rw [List.append_assoc, List.append_assoc] at hended
    rw [hcore, hctas, hlog, hes]
    exact hended
  · rw [hreductions]
    intro r hr
    rcases List.mem_append.mp hr with hr | hr
    · rw [← ht] at hr
      exact h.right r hr
    · rw [List.mem_singleton.mp hr]
      exact hnew

theorem log_releaseBarrier {c : NamedCore} {cause : ReleaseCause} {atBarrier broadcast : Finset Nat}
    (hok : c.releaseBarrier ctaId barId cause atBarrier broadcast = .ok c') :
    c'.set.ctaToWarps = c.set.ctaToWarps ∧ ∃ ws, ∃ rs : List Nat,
      c'.log = c.log ++ [NamedEvent.released ctaId barId cause ws broadcast] ++ rs.map .resumed := by
  obtain ⟨set, hset, hok⟩ := bind_eq_ok hok
  cases hok
  exact ⟨(BarrierSet.releases (NamedCore.liftBarrier_ok hset)).ctas, _, _, rfl⟩

/-- What an arrival by a `bar.red` does to the history. -/
theorem reachBarrier_red {c : NamedCore} {a : Arrival} (hred : a.barType = .red)
    (hok : c.reachBarrier ctaId a = .ok c') :
    ∃ warps, c.set.ctaToWarps ctaId = some warps ∧ c'.set.ctaToWarps = c.set.ctaToWarps ∧
      (c'.log = c.log ++ [NamedEvent.arrived ctaId a] ∨
        c.Completes ctaId a warps ∧ ∃ cause ws, ∃ rs : List Nat, c'.log = c.log ++
          ([.arrived ctaId a, .released ctaId a.barId cause ws
            (warps ∩ insert a.warpId (c.set.barIdToWarps a.barId))] ++ rs.map .resumed)) := by
  unfold NamedCore.reachBarrier at hok
  split at hok
  · cases hok
  rename_i warps hcta
  obtain ⟨_, hin, hok⟩ := bind_eq_ok hok
  have hmem := require_ok hin
  refine ⟨warps, hcta, ?_⟩
  dsimp only at hok
  split at hok
  · rename_i hreached
    have hcompletes := (NamedCore.barrierReached_iff hmem).mp hreached
    obtain ⟨hctas, ws, rs, hlog⟩ := log_releaseBarrier hok
    refine ⟨hctas.trans NamedCore.ctas_enterBarrier, .inr ⟨hcompletes, .arrival a, ws, rs, ?_⟩⟩
    rw [hlog]
    show c.log ++ [NamedEvent.arrived ctaId a] ++ [NamedEvent.released ctaId a.barId _ ws (warps ∩ (c.set.enterBarrier
      ctaId a.warpId a.barType a.barId a.barCount).barIdToWarps a.barId)] ++ _ = _
    rw [bits_enterBarrier, List.append_assoc, List.append_assoc]
    rfl
  · cases hok
    exact ⟨NamedCore.ctas_enterBarrier, .inl rfl⟩

theorem Inv.issueRed (h : s.Inv) (hallowed : s.allowed (.red ctaId w inst barId barCount now))
    (hcovered : s.Covered (.red ctaId w inst barId barCount now)) :
    s.Steps (.red ctaId w inst barId barCount now) := by
  obtain ⟨⟨warps, hcta, hmem⟩, -, hidle, -⟩ := id hallowed
  by_cases hlanes : inst.lanes = []
  · exact .inr ⟨_, if_pos hlanes, h.storeInst hidle⟩
  have hc := hcovered hlanes
  generalize ha : (⟨w, .red, barId, some barCount⟩ : Arrival) = a at hc
  have hred : a.barType = .red := by rw [← ha]
  have hfits : ∀ l ∈ inst.lanes, Fits inst.op (predTrue l.2) :=
    fun l hl => hc.fits _ (List.mem_map_of_mem hl)
  obtain ⟨acc, hrun, hacc⟩ := foldlM_barImpl hc.inRange (h.sums hcta hc) hfits
  have hstep : s.step (.red ctaId w inst barId barCount now) =
      liftNamed (s.core.issueBarrier ctaId a now) >>=
        (s.entered ctaId a.barId a.warpId inst acc).advance := by
    subst ha
    show s.issueRed ctaId w inst barId barCount now = _
    unfold ReductionCore.issueRed
    rw [if_neg hlanes, hrun]
    rfl
  unfold Steps
  rw [hstep]
  cases hok : s.core.issueBarrier ctaId a now with
  | error e => exact .inl ⟨e, rfl⟩
  | ok c' =>
    refine .inr ?_
    have hcovered' : s.core.Covered (.issue ctaId a now) := by
      refine .inr ?_
      unfold NamedCore.CoveredArrival
      rw [hcta]
      refine fun _ => ⟨fun hnone => ?_, .inl hred⟩
      rw [← ha] at hnone
      cases hnone
    have hnamed := h.named.step (o := .issue ctaId a now) (ha ▸ hallowed) hcovered' hok
    have hreach : s.core.reachBarrier ctaId a = .ok c' := by
      subst ha
      exact hok
    obtain ⟨warps', hcta', hctas, harrived⟩ := reachBarrier_red hred hreach
    cases hcta.symm.trans hcta'
    have hmem : a.warpId ∈ warps := by rw [← ha]; exact hmem
    have hidle : a.warpId ∉ s.core.set.warpAtBarrier := by rw [← ha]; exact hidle
    rcases harrived with hlog | ⟨hcompletes, cause, ws, hlog⟩
    · have hholding := h.arrive hred hidle hc.same hacc
      refine ⟨_, (advance_append (s := s.entered ctaId a.barId a.warpId inst acc) hlog).trans rfl,
        hnamed, ?_, h.right⟩
      show Holding _ c'.set.ctaToWarps c'.log
      rw [hlog, hctas]
      exact ⟨hholding.arrivals, hholding.kept, hholding.sums⟩
    · exact h.complete hred hcta hmem hidle hc hcompletes hacc hnamed hctas rfl hlog

theorem Inv.steps {o : ReductionOp} (h : s.Inv) (hallowed : s.allowed o) (hcovered : s.Covered o) :
    s.Steps o := by
  cases o with
  | red ctaId w inst barId barCount now => exact h.issueRed hallowed hcovered
  | named o => exact h.stepNamed hallowed hcovered
  | otherSm pc barId =>
    exact .inr ⟨_, rfl, h.named, ⟨h.holding.arrivals, h.holding.kept, h.holding.sums⟩, h.right⟩

theorem inv_init {shaders sid latency : Nat} {hsid : sid < shaders} {config : BarrierConfig} :
    (init shaders sid hsid config latency).Inv := by
  refine ⟨NamedCore.namedInv_init config latency, ⟨fun _ _ => rfl, ?_, ?_⟩, ?_⟩
  · exact fun _ _ _ _ _ hp => absurd hp List.not_mem_nil
  · exact fun _ _ _ _ _ hp => absurd hp List.not_mem_nil
  · exact fun _ hr => absurd hr List.not_mem_nil

/-- Every thread that takes part in a reduction gets the one of its own generation. -/
theorem reductions_right {shaders sid latency : Nat} {hsid : sid < shaders} {config : BarrierConfig}
    (h : Reaches step (fun s o => s.allowed o ∧ s.Covered o)
      (init shaders sid hsid config latency) s) : s.ReducesSoundly := by
  have hinv : s.Inv := by
    apply h.invariant Inv inv_init
    intro s s' o hs hallowed hok
    rcases hs.steps hallowed.1 hallowed.2 with ⟨e, herror⟩ | ⟨t, ht, hinv⟩
    · rw [hok] at herror
      cases herror
    · cases hok.symm.trans ht
      exact hinv
  refine ⟨hinv.right, ?_⟩
  intro o hallowed hcovered hfail
  rcases hinv.steps hallowed hcovered with ⟨e, herror⟩ | ⟨t, ht, -⟩
  · rw [hfail] at herror
    cases herror
  · rw [hfail] at ht
    cases ht

/-- One warp whose lane 0 has a true predicate and whose lane 1 has a false one. -/
def oneWarp : BarrierConfig where
  maxWarpsPerCore := 1
  maxCtaPerCore := 1
  maxBarriersPerCta := 1
  warpSize := 32

def countOne : ReductionOp := .red 0 0 ⟨8, .popc, [(0, 0#4), (1, 1#4)]⟩ 0 32 5

def startCta : ReductionOp := .named (.operate (.allocate 0 {0} (fun _ => {})))

theorem reductions_right_once : ∃ s : ReductionCore,
    s.reductions = [⟨0, 0, [(0, ⟨8, .popc, [(0, 0#4), (1, 1#4)]⟩)],
      [⟨0, 0, 1#32⟩, ⟨0, 1, 1#32⟩]⟩] ∧ s.ReducesSoundly := by
  have hrun : (runAllowed (fun s o => ReductionCore.step s o) (fun s o => s.allowed o ∧ s.Covered o)
      (init 1 0 Nat.zero_lt_one oneWarp 0) [startCta, countOne]).any
      (fun s => decide (s.reductions = [⟨0, 0, [(0, ⟨8, .popc, [(0, 0#4), (1, 1#4)]⟩)],
        [⟨0, 0, 1#32⟩, ⟨0, 1, 1#32⟩]⟩])) = true := by
    decide +kernel
  obtain ⟨s, hs, htest⟩ := (Option.any_eq_true _ _).mp hrun
  exact ⟨s, of_decide_eq_true htest, reductions_right (Reaches.of_runAllowed .refl hs)⟩

/-- The second generation counts the predicates of the first one again. -/
theorem reductions_accumulate : ¬ ∀ (shaders sid latency : Nat) (hsid : sid < shaders)
    (config : BarrierConfig) (s : ReductionCore),
    Reaches step (fun s o => s.allowed o) (init shaders sid hsid config latency) s →
      s.ReducesSoundly := by
  intro hclaim
  have hrun : (runAllowed (fun s o => ReductionCore.step s o) (fun s o => s.allowed o)
      (init 1 0 Nat.zero_lt_one oneWarp 0) [startCta, countOne, countOne]).any
      (fun s => decide (⟨0, 0, [(0, ⟨8, .popc, [(0, 0#4), (1, 1#4)]⟩)],
        [⟨0, 0, 2#32⟩, ⟨0, 1, 2#32⟩]⟩ ∈ s.reductions)) = true := by
    decide +kernel
  obtain ⟨s, hs, htest⟩ := (Option.any_eq_true _ _).mp hrun
  have hright := (hclaim 1 0 0 Nat.zero_lt_one oneWarp s
    (Reaches.of_runAllowed .refl hs)).reductions _ (of_decide_eq_true htest)
  obtain ⟨p, hp, -, -, hvalue⟩ := hright.values ⟨0, 0, 2#32⟩ List.mem_cons_self
  rw [List.mem_singleton.mp hp] at hvalue
  revert hvalue
  show ¬ (2#32 = BitVec.ofNat 32 1)
  decide

end ReductionCore

end FlashGpuSim
