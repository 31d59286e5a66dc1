import FlashGpuSim.Mbarrier.QuietMoves

/-!
A reduction is right when its accumulator starts from the right value. What the warps of the
current generations contributed is what their accumulators hold.
-/

namespace FlashGpuSim

open Lib

/-! ### Accumulators -/

namespace ReductionCore

/-- The accumulator holds the predicates of a generation, as far as the operation can. -/
def Sums (op : RedOp) (preds : List Bool) (acc : BitVec 32) : Prop :=
  match op with
  | .popc => acc = BitVec.ofNat 32 (preds.count true)
  | .and => acc.getLsbD 0 = false ∧ ∀ pred ∈ preds, pred = true
  | .or => acc.getLsbD 0 = true ∧ ∀ pred ∈ preds, pred = false

theorem sums_nil {op : RedOp} {acc : BitVec 32} (h : Neutral op acc) : Sums op [] acc := by
  cases op with
  | popc => exact h
  | and => exact ⟨h, fun _ hp => absurd hp List.not_mem_nil⟩
  | or => exact ⟨h, fun _ hp => absurd hp List.not_mem_nil⟩

theorem Sums.accumulate {op : RedOp} {preds : List Bool} {acc : BitVec 32} {pred : Bool}
    (h : Sums op preds acc) (hfits : Fits op pred) :
    Sums op (preds ++ [pred]) (op.accumulate acc pred) := by
  cases op with
  | popc =>
    have hacc : acc = BitVec.ofNat 32 (preds.count true) := h
    show acc + (if pred then 1#32 else 0#32) = BitVec.ofNat 32 ((preds ++ [pred]).count true)
    rw [hacc, List.count_append, BitVec.ofNat_add]
    cases pred <;> rfl
  | and =>
    obtain ⟨hacc, hall⟩ := h
    refine ⟨?_, ?_⟩
    · show (acc &&& (if pred then 1#32 else 0#32)).getLsbD 0 = false
      rw [BitVec.getLsbD_and, hacc, Bool.false_and]
    · intro p hp
      rcases List.mem_append.mp hp with hp | hp
      · exact hall p hp
      · rw [List.mem_singleton.mp hp]
        exact hfits
  | or =>
    obtain ⟨hacc, hall⟩ := h
    refine ⟨?_, ?_⟩
    · show (acc ||| (if pred then 1#32 else 0#32)).getLsbD 0 = true
      rw [BitVec.getLsbD_or, hacc, Bool.true_or]
    · intro p hp
      rcases List.mem_append.mp hp with hp | hp
      · exact hall p hp
      · rw [List.mem_singleton.mp hp]
        exact hfits

theorem Sums.reduces {op : RedOp} {preds : List Bool} {acc : BitVec 32} (h : Sums op preds acc) :
    op.Reduces preds acc := by
  cases op with
  | popc => exact h
  | and =>
    obtain ⟨hacc, hall⟩ := h
    show predTrue acc = preds.all id
    have hpreds : preds.all id = true := List.all_eq_true.mpr hall
    rw [predTrue, hacc, hpreds, Bool.not_false]
  | or =>
    obtain ⟨hacc, hall⟩ := h
    show predTrue acc = preds.any id
    have hpreds : preds.any id = false := by
      rw [List.any_eq_false]
      intro p hp
      rw [hall p hp]
      exact Bool.false_ne_true
    rw [predTrue, hacc, hpreds, Bool.not_true]

variable {s s' : ReductionCore} {ctaId ctaId' barId barId' w : Nat}

/-- Two CTAs of an SM have different rows. -/
theorem row_inj (h : s.row ctaId = s.row ctaId') : ctaId = ctaId' := by
  unfold row at h
  have hpos := Nat.zero_lt_of_lt s.sid_lt
  exact Nat.eq_of_mul_eq_mul_right hpos (Nat.add_right_cancel h)

theorem accumulator_setAccumulator {value : BitVec 32} :
    (s.setAccumulator ctaId barId value).accumulator ctaId' barId' =
      if ctaId' = ctaId ∧ barId' = barId then value else s.accumulator ctaId' barId' := by
  show Function.update s.storage (s.row ctaId) _ (s.row ctaId') barId' = _
  rcases eq_or_ne ctaId' ctaId with rfl | hcta
  · rw [Function.update_self]
    rcases eq_or_ne barId' barId with rfl | hbar
    · rw [Function.update_self, if_pos ⟨rfl, rfl⟩]
    · rw [Function.update_of_ne hbar, if_neg fun h => hbar h.2]
      rfl
  · rw [Function.update_of_ne fun h => hcta (row_inj h), if_neg fun h => hcta h.1]
    rfl

theorem setAccumulator_twice {v v' : BitVec 32} :
    (s.setAccumulator ctaId barId v).setAccumulator ctaId barId v' =
      s.setAccumulator ctaId barId v' := by
  have hstorage : Function.update (Function.update s.storage (s.row ctaId)
      (Function.update (s.storage (s.row ctaId)) barId v)) (s.row ctaId)
      (Function.update (Function.update s.storage (s.row ctaId)
        (Function.update (s.storage (s.row ctaId)) barId v) (s.row ctaId)) barId v') =
      Function.update s.storage (s.row ctaId) (Function.update (s.storage (s.row ctaId)) barId v') := by
    rw [Function.update_idem, Function.update_self, Function.update_idem]
  exact congrArg (fun storage => { s with storage := storage }) hstorage

/-- The lanes of a warp, one after the other. -/
theorem foldlM_barImpl {op : RedOp} {preds : List Bool} {lanes : List (Nat × BitVec 4)}
    (hrange : s.InRange ctaId barId) (hsums : Sums op preds (s.accumulator ctaId barId))
    (hfits : ∀ l ∈ lanes, Fits op (predTrue l.2)) :
    ∃ acc, lanes.foldlM (barImpl ctaId barId op) s = .ok (s.setAccumulator ctaId barId acc) ∧
      Sums op (preds ++ lanes.map fun l => predTrue l.2) acc := by
  induction lanes generalizing s preds with
  | nil =>
    refine ⟨s.accumulator ctaId barId, ?_, ?_⟩
    · have hsame : s.setAccumulator ctaId barId (s.accumulator ctaId barId) = s := by
        unfold setAccumulator accumulator
        rw [Function.update_eq_self, Function.update_eq_self]
      rw [hsame]
      rfl
    · rw [List.map_nil, List.append_nil]
      exact hsums
  | cons l lanes ih =>
    have hlane := hsums.accumulate (hfits l List.mem_cons_self)
    generalize hacc : op.accumulate (s.accumulator ctaId barId) (predTrue l.2) = acc at hlane
    have hrest := ih (s := s.setAccumulator ctaId barId acc) hrange
      (by rw [accumulator_setAccumulator, if_pos ⟨rfl, rfl⟩]; exact hlane)
      (fun l' hl' => hfits l' (List.mem_cons_of_mem l hl'))
    obtain ⟨acc', hrun, hsums'⟩ := hrest
    refine ⟨acc', ?_, ?_⟩
    · have hstep : barImpl ctaId barId op s l = .ok (s.setAccumulator ctaId barId acc) := by
        rw [← hacc]
        exact if_pos hrange
      rw [List.foldlM_cons, hstep]
      rw [setAccumulator_twice] at hrun
      exact hrun
    · rw [List.map_cons, List.append_cons]
      exact hsums'

/-! ### Deliveries -/

/-- What a warp gets at a release. -/
def deliveredTo (s : ReductionCore) (value : BitVec 32) (w : Nat) : List Delivery :=
  match s.instAtBarrier w with
  | none => []
  | some inst => inst.lanes.map fun l => ⟨w, l.1, value⟩

theorem mapM_of_ok {ε α β : Type} {f : α → Except ε β} {g : α → β} {l : List α}
    (h : ∀ x ∈ l, f x = .ok (g x)) : l.mapM f = .ok (l.map g) := by
  induction l with
  | nil => rfl
  | cons x l ih =>
    rw [List.mapM_cons, h x List.mem_cons_self, ih fun y hy => h y (List.mem_cons_of_mem x hy)]
    rfl

theorem barCallback_ok (hrange : s.InRange ctaId barId)
    (hid : ∀ inst, s.instAtBarrier w = some inst → s.barIds inst.pc = barId) :
    s.barCallback ctaId w = .ok (s.deliveredTo (s.accumulator ctaId barId) w) := by
  unfold barCallback deliveredTo
  cases hinst : s.instAtBarrier w with
  | none => rfl
  | some inst =>
    apply mapM_of_ok
    intro l _
    rw [hid inst hinst, getReductionValue, if_pos hrange]
    rfl

theorem broadcast_ok {warps : Finset Nat} (hrange : s.InRange ctaId barId)
    (hid : ∀ w ∈ warps, ∀ inst, s.instAtBarrier w = some inst → s.barIds inst.pc = barId) :
    s.broadcastBarrierReduction ctaId warps = .ok
      ((s.core.set.warpIds.filter (· ∈ warps)).map
        (s.deliveredTo (s.accumulator ctaId barId))).flatten := by
  unfold broadcastBarrierReduction
  rw [mapM_of_ok (g := s.deliveredTo (s.accumulator ctaId barId))]
  · rfl
  · intro w hw
    rw [List.mem_filter, decide_eq_true_eq] at hw
    exact barCallback_ok hrange (hid w hw.2)

/-- Nobody gets a value without a broadcast. -/
theorem broadcast_empty (s : ReductionCore) (ctaId : Nat) :
    s.broadcastBarrierReduction ctaId ∅ = .ok [] := by
  unfold broadcastBarrierReduction
  have hnone : s.core.set.warpIds.filter (· ∈ (∅ : Finset Nat)) = [] := by
    rw [List.filter_eq_nil_iff]
    simp
  rw [hnone]
  rfl

/-! ### Generations -/

/-- The warps that arrived by a `bar.red`. -/
def redWarps (arrivals : List Arrival) : List Nat :=
  (arrivals.filter fun a => a.barType = .red).map Arrival.warpId

theorem redWarps_concat {arrivals : List Arrival} {a : Arrival} :
    redWarps (arrivals ++ [a]) =
      redWarps arrivals ++ if a.barType = .red then [a.warpId] else [] := by
  unfold redWarps
  rw [List.filter_append, List.map_append, List.filter_cons]
  simp only [decide_eq_true_eq]
  split
  · rfl
  · rfl

theorem mem_redWarps {arrivals : List Arrival} :
    w ∈ redWarps arrivals ↔ ∃ a ∈ arrivals, a.barType = .red ∧ a.warpId = w := by
  unfold redWarps
  simp only [List.mem_map, List.mem_filter, decide_eq_true_eq, and_assoc]

/-- The contributions are those of the arrivals of a history. In the CTAs the warps still keep
their instructions, and the accumulators hold the predicates. -/
structure Holding (s : ReductionCore) (ctas : Nat → Option (Finset Nat)) (log : List NamedEvent) :
    Prop where
  arrivals : ∀ cta bar, (s.contributed cta bar).map Prod.fst = redWarps (generation log cta bar)
  kept : ∀ cta warps bar, ctas cta = some warps → ∀ p ∈ s.contributed cta bar,
    s.instAtBarrier p.1 = some p.2
  sums : ∀ cta warps bar, ctas cta = some warps → ∀ p ∈ s.contributed cta bar,
    Sums p.2.op (contributedPreds (s.contributed cta bar)) (s.accumulator cta bar)

variable {ctas ctas' : Nat → Option (Finset Nat)} {log : List NamedEvent} {e : NamedEvent}

theorem Holding.mono (h : s.Holding ctas log)
    (hctas : ∀ cta warps, ctas' cta = some warps →
      ctas cta = some warps ∨ ∀ bar, s.contributed cta bar = []) : s.Holding ctas' log where
  arrivals := h.arrivals
  kept cta warps bar hcta p hp := by
    rcases hctas cta warps hcta with hold | hnone
    · exact h.kept cta warps bar hold p hp
    · rw [hnone] at hp
      exact absurd hp List.not_mem_nil
  sums cta warps bar hcta p hp := by
    rcases hctas cta warps hcta with hold | hnone
    · exact h.sums cta warps bar hold p hp
    · rw [hnone] at hp
      exact absurd hp List.not_mem_nil

/-- Contributions that end leave nothing behind. -/
theorem Holding.ended {f : Nat → Nat → List (Nat × RedInst)} (h : s.Holding ctas log)
    (hf : ∀ cta bar, f cta bar = s.contributed cta bar ∨ f cta bar = [])
    (harrivals : ∀ cta bar, (f cta bar).map Prod.fst = redWarps (generation (log ++ [e]) cta bar))
    (hs' : s'.contributed = f) (hinst : s'.instAtBarrier = s.instAtBarrier)
    (hacc : ∀ cta bar, s'.accumulator cta bar = s.accumulator cta bar) :
    s'.Holding ctas (log ++ [e]) := by
  subst hs'
  refine ⟨harrivals, ?_, ?_⟩
  · intro cta warps bar hcta p hp
    rcases hf cta bar with hsame | hnone
    · rw [hsame] at hp
      rw [hinst]
      exact h.kept cta warps bar hcta p hp
    · rw [hnone] at hp
      exact absurd hp List.not_mem_nil
  · intro cta warps bar hcta p hp
    rcases hf cta bar with hsame | hnone
    · rw [hsame] at hp
      rw [hsame, hacc]
      exact h.sums cta warps bar hcta p hp
    · rw [hnone] at hp
      exact absurd hp List.not_mem_nil

theorem update_twice {β : Type} {f : Nat → Nat → β} {x : β} :
    Function.update f ctaId (Function.update (f ctaId) barId x) ctaId' barId' =
      if ctaId = ctaId' ∧ barId = barId' then x else f ctaId' barId' := by
  rcases eq_or_ne ctaId' ctaId with rfl | hcta
  · rw [Function.update_self]
    rcases eq_or_ne barId' barId with rfl | hbar
    · rw [Function.update_self, if_pos ⟨rfl, rfl⟩]
    · rw [Function.update_of_ne hbar, if_neg fun h => hbar h.2.symm]
  · rw [Function.update_of_ne hcta, if_neg fun h => hcta h.1.symm]

theorem Holding.settle (h : s.Holding ctas log)
    (hred : ∀ cta a, e = .arrived cta a → a.barType ≠ .red) (hok : s.settle e = .ok s') :
    s'.Holding ctas (log ++ [e]) := by
  have hsame : ∀ cta bar, generation (log ++ [e]) cta bar = generation log cta bar →
      (s.contributed cta bar).map Prod.fst = redWarps (generation (log ++ [e]) cta bar) := by
    intro cta bar hgen
    rw [hgen]
    exact h.arrivals cta bar
  cases e with
  | released cta id cause ws broadcast =>
    obtain ⟨delivered, -, hok⟩ := bind_eq_ok hok
    cases hok
    refine h.ended ?_ ?_ rfl rfl fun _ _ => rfl
    · intro cta' bar'
      dsimp only
      rw [update_twice]
      split
      · exact .inr rfl
      · exact .inl rfl
    · intro cta' bar'
      dsimp only
      rw [update_twice, generation_concat]
      unfold Arrival.next
      dsimp only
      split
      · rfl
      · exact h.arrivals cta' bar'
  | allocated cta warps =>
    cases hok
    refine h.ended ?_ ?_ rfl rfl fun _ _ => rfl
    · intro cta' bar'
      dsimp only
      rcases eq_or_ne cta' cta with rfl | hne
      · rw [Function.update_self]
        exact .inr rfl
      · rw [Function.update_of_ne hne]
        exact .inl rfl
    · intro cta' bar'
      dsimp only
      rw [generation_concat]
      unfold Arrival.next
      dsimp only
      rcases eq_or_ne cta' cta with rfl | hne
      · rw [Function.update_self, if_pos rfl]
        rfl
      · rw [Function.update_of_ne hne, if_neg hne.symm]
        exact h.arrivals cta' bar'
  | arrived cta a =>
    cases hok
    refine h.ended (fun _ _ => .inl rfl) ?_ rfl rfl fun _ _ => rfl
    intro cta' bar'
    rw [generation_concat]
    unfold Arrival.next
    dsimp only
    split
    · rw [redWarps_concat, if_neg (hred cta a rfl), List.append_nil]
      exact h.arrivals cta' bar'
    · exact h.arrivals cta' bar'
  | exited cta w =>
    cases hok
    exact h.ended (fun _ _ => .inl rfl) (fun _ _ => hsame _ _ generation_concat) rfl rfl
      fun _ _ => rfl
  | resumed w =>
    cases hok
    exact h.ended (fun _ _ => .inl rfl) (fun _ _ => hsame _ _ generation_concat) rfl rfl
      fun _ _ => rfl

theorem settle_released (id : Nat) (cause : ReleaseCause) (ws : List Nat) {broadcast : Finset Nat}
    {delivered : List Delivery} (h : s.broadcastBarrierReduction ctaId broadcast = .ok delivered) :
    ∃ s', s.settle (.released ctaId id cause ws broadcast) = .ok s' ∧ s'.core = s.core ∧
      s'.reductions = s.reductions ++ [⟨ctaId, id, s.contributed ctaId id, delivered⟩] := by
  have hsettle : s.settle (.released ctaId id cause ws broadcast) =
      s.broadcastBarrierReduction ctaId broadcast >>= fun delivered => pure { s with
        contributed := Function.update s.contributed ctaId
          (Function.update (s.contributed ctaId) id [])
        reductions := s.reductions ++ [⟨ctaId, id, s.contributed ctaId id, delivered⟩] } := rfl
  rw [hsettle, h]
  exact ⟨_, rfl, rfl, rfl⟩

/-- An event of no reduction delivers nothing. -/
theorem settle_quiet (h : s.Holding ctas log) (hquiet : NamedCore.Quiet e)
    (hright : ∀ r ∈ s.reductions, r.Right)
    (hnone : ∀ cta id cause ws b, e = .released cta id cause ws b →
      redWarps (generation log cta id) = []) :
    ∃ s', s.settle e = .ok s' ∧ s'.core = s.core ∧ ∀ r ∈ s'.reductions, r.Right := by
  cases e with
  | released cta id cause ws broadcast =>
    have hbroadcast : broadcast = ∅ := hquiet
    have hended : s.contributed cta id = [] := by
      rw [← List.map_eq_nil_iff (f := Prod.fst), h.arrivals]
      exact hnone cta id cause ws broadcast rfl
    subst hbroadcast
    obtain ⟨s', hs', hcore, hreductions⟩ :=
      settle_released id cause ws (broadcast_empty s cta)
    refine ⟨s', hs', hcore, ?_⟩
    rw [hreductions]
    intro r hr
    rcases List.mem_append.mp hr with hr | hr
    · exact hright r hr
    · rw [List.mem_singleton.mp hr, hended]
      exact ⟨fun _ hp => absurd hp List.not_mem_nil, fun _ hd => absurd hd List.not_mem_nil⟩
  | allocated cta warps => exact hquiet.elim
  | arrived cta a => exact ⟨s, rfl, rfl, hright⟩
  | exited cta w => exact ⟨s, rfl, rfl, hright⟩
  | resumed w => exact ⟨s, rfl, rfl, hright⟩

theorem foldlM_settle {es : List NamedEvent} {n : Nat} (h : s.Holding ctas log)
    (hquiet : ∀ e ∈ es, NamedCore.Quiet e) (hright : ∀ r ∈ s.reductions, r.Right)
    (hhistory : ∀ l₁ l₂ cta id cause ws b, log ++ es = l₁ ++ .released cta id cause ws b :: l₂ →
      NamedCore.ReleaseHolds n l₁ cta id cause ws b) :
    ∃ s', es.foldlM ReductionCore.settle s = .ok s' ∧ s'.core = s.core ∧
      (∀ r ∈ s'.reductions, r.Right) ∧ s'.Holding ctas (log ++ es) := by
  induction es generalizing s log with
  | nil =>
    refine ⟨s, rfl, rfl, hright, ?_⟩
    rw [List.append_nil]
    exact h
  | cons e es ih =>
    have he := hquiet e List.mem_cons_self
    have hnone : ∀ cta id cause ws b, e = .released cta id cause ws b →
        redWarps (generation log cta id) = [] := by
      rintro cta id cause ws b rfl
      have hholds := hhistory log es cta id cause ws b rfl
      rw [List.eq_nil_iff_forall_not_mem]
      intro w hw
      obtain ⟨a, ha, hred, -⟩ := mem_redWarps.mp hw
      have hempty : b = ∅ := he
      have hin := hholds.reduced a ha hred
      rw [hempty] at hin
      exact Finset.notMem_empty _ hin
    obtain ⟨t, ht, hcore, hright'⟩ := settle_quiet h he hright hnone
    have hred : ∀ cta a, e = .arrived cta a → a.barType ≠ .red := by
      rintro cta a rfl
      exact he
    have hnext := ih (h.settle hred ht) (fun e' he' => hquiet e' (List.mem_cons_of_mem e he'))
      hright' (by rw [← List.append_cons]; exact hhistory)
    obtain ⟨s', hs', hcore', hdone, hholding⟩ := hnext
    refine ⟨s', ?_, hcore'.trans hcore, hdone, ?_⟩
    · rw [List.foldlM_cons, ht]
      exact hs'
    · rw [List.append_cons]
      exact hholding

end ReductionCore

end FlashGpuSim
