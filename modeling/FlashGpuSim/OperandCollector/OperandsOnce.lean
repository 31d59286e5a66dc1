import FlashGpuSim.OperandCollector.CollectorSteps
import FlashGpuSim.Lib.Reach

/-!
Runs of the operand collector. Every instruction that enters a collector is read for once per
distinct source and leaves once, the banks and the bytes of a cycle are kept within bounds, and
the oldest head that has a free collector enters. A partitioned collector does so when the
number that `init` gives to a collector names the scheduler whose part of its set it is in.
-/

namespace FlashGpuSim

open Lib

namespace CollectorConfig

/-- In a partitioned model, each set that a port uses is divided evenly among the schedulers and
each of its collectors has the number of its own part, and each set with a dispatch unit has a
collector for each scheduler. -/
structure Sliced (cfg : CollectorConfig) : Prop where
  even : cfg.subCoreModel = true → ∀ port ∈ cfg.inPorts, ∀ set ∈ port.cuSets,
    cfg.setSize set % cfg.numWarpScheds = 0 ∧ cfg.numWarpScheds ≤ cfg.setSize set
  regId : cfg.subCoreModel = true → ∀ port ∈ cfg.inPorts, ∀ set ∈ port.cuSets,
    ∀ k < cfg.setSize set, cfg.regId (cfg.cuIndex set k) = k / cfg.cusPerSched set
  dispatch : cfg.subCoreModel = true → ∀ set ∈ cfg.dispatchSets,
    cfg.numWarpScheds ≤ cfg.setSize set

variable {cfg : CollectorConfig} {set k sid cuid : Nat}

theorem cuIndex_lt (hk : k < cfg.setSize set) : cfg.cuIndex set k < cfg.numCollectors := by
  unfold setSize at hk
  rw [List.getD_eq_getElem?_getD] at hk
  have hset : set < cfg.setSizes.length := by
    by_contra hge
    rw [List.getElem?_eq_none (Nat.le_of_not_lt hge)] at hk
    exact absurd hk (Nat.not_lt_zero k)
  rw [List.getElem?_eq_getElem hset, Option.getD_some] at hk
  have hsum := List.sum_take_add_sum_drop cfg.setSizes set
  rw [List.drop_eq_getElem_cons hset, List.sum_cons] at hsum
  unfold cuIndex
  rw [cfg.numCollectors_eq]
  omega

theorem mem_collectorsOf (h : cuid ∈ cfg.collectorsOf set) :
    ∃ k, k < cfg.setSize set ∧ cuid = cfg.cuIndex set k := by
  obtain ⟨k, hk, rfl⟩ := List.mem_map.mp h
  exact ⟨k, List.mem_range.mp hk, rfl⟩

/-- The collectors that `allocate_cu` takes for a scheduler are those of its part. -/
theorem mem_slice (heven : cfg.setSize set % cfg.numWarpScheds = 0)
    (hsid : sid < cfg.numWarpScheds) (h : cuid ∈ cfg.slice set sid) :
    ∃ k, k < cfg.setSize set ∧ cuid = cfg.cuIndex set k ∧ k / cfg.cusPerSched set = sid := by
  obtain ⟨k, hk, rfl⟩ := List.mem_map.mp h
  obtain ⟨hge, hlt⟩ := List.mem_range'_1.mp hk
  have hmul : cfg.numWarpScheds * cfg.cusPerSched set = cfg.setSize set :=
    Nat.mul_div_cancel' (Nat.dvd_of_mod_eq_zero heven)
  have hle := Nat.mul_le_mul_right (cfg.cusPerSched set) (Nat.succ_le_of_lt hsid)
  rw [hmul, Nat.succ_mul] at hle
  refine ⟨k, hlt.trans_le hle, rfl, ?_⟩
  exact Nat.div_eq_of_lt_le hge (by rw [Nat.succ_mul]; exact hlt)

/-- One set of collectors for all ports and dispatch units is sliced as it is numbered. -/
theorem sliced_single {n : Nat} (hsets : cfg.setSizes = [n])
    (hports : ∀ port ∈ cfg.inPorts, ∀ set ∈ port.cuSets, set = 0)
    (hdispatch : ∀ set ∈ cfg.dispatchSets, set = 0) : cfg.Sliced := by
  have hsize : cfg.setSize 0 = cfg.numCollectors := by
    rw [cfg.numCollectors_eq, setSize, hsets]
    simp
  refine ⟨fun hsub port hport set hset => ?_, fun hsub port hport set hset k _ => ?_,
    fun hsub set hset => ?_⟩
  · obtain ⟨-, hle, hmod⟩ := cfg.partition hsub
    rw [hports port hport set hset, hsize]
    exact ⟨hmod, hle⟩
  · rw [hports port hport set hset, regId, if_pos hsub, cusPerSched, hsize]
    simp [cuIndex]
  · rw [hdispatch set hset, hsize]
    exact (cfg.partition hsub).2.1

end CollectorConfig

namespace RegisterSet

/-- `get_ready` finds the oldest instruction. -/
theorem oldest_spec (regs : RegisterSet) :
    match regs.zipIdx.foldl oldestStep none with
    | none => ∀ (slot : Nat) (inst : OcInst), regs[slot]? ≠ some (some inst)
    | some (slot, inst) => regs[slot]? = some (some inst) ∧
        ∀ (slot' : Nat) (inst' : OcInst), regs[slot']? = some (some inst') → inst.uid ≤ inst'.uid := by
  induction regs using List.reverseRecOn with
  | nil => simp
  | append_singleton regs reg ih =>
    have hlast : ∀ (slot : Nat) (inst : OcInst), (regs ++ [reg])[slot]? = some (some inst) →
        regs[slot]? = some (some inst) ∨ slot = regs.length ∧ reg = some inst := by
      intro slot inst hslot
      rw [List.getElem?_append] at hslot
      split at hslot
      · exact .inl hslot
      · rename_i hge
        rw [List.getElem?_singleton] at hslot
        split at hslot
        · exact .inr ⟨by omega, Option.some.inj hslot⟩
        · cases hslot
    have hold : ∀ (slot : Nat) (inst : OcInst), regs[slot]? = some (some inst) →
        (regs ++ [reg])[slot]? = some (some inst) := by
      intro slot inst hslot
      rw [List.getElem?_append_left (List.getElem?_eq_some_iff.mp hslot).1]
      exact hslot
    rw [List.zipIdx_append, List.foldl_append]
    simp only [List.zipIdx_singleton, List.foldl_cons, List.foldl_nil, Nat.zero_add]
    generalize regs.zipIdx.foldl oldestStep none = ready at ih
    cases reg with
    | none =>
      cases ready with
      | none =>
        intro slot inst hslot
        rcases hlast slot inst hslot with hslot | ⟨-, hslot⟩
        · exact ih slot inst hslot
        · cases hslot
      | some old =>
        refine ⟨hold _ _ ih.1, fun slot' inst' hslot => ?_⟩
        rcases hlast slot' inst' hslot with hslot | ⟨-, hslot⟩
        · exact ih.2 slot' inst' hslot
        · cases hslot
    | some inst =>
      have hnew : (regs ++ [some inst])[regs.length]? = some (some inst) := by simp
      cases ready with
      | none =>
        rw [show oldestStep none (some inst, regs.length) = some (regs.length, inst) from rfl]
        refine ⟨hnew, fun slot' inst' hslot => ?_⟩
        rcases hlast slot' inst' hslot with hslot | ⟨-, hslot⟩
        · exact absurd hslot (ih slot' inst')
        · cases hslot
          exact le_rfl
      | some old =>
        by_cases hless : old.2.uid < inst.uid
        · have hstep : oldestStep (some old) (some inst, regs.length) = some old := if_pos hless
          rw [hstep]
          refine ⟨hold _ _ ih.1, fun slot' inst' hslot => ?_⟩
          rcases hlast slot' inst' hslot with hslot | ⟨-, hslot⟩
          · exact ih.2 slot' inst' hslot
          · cases hslot
            exact hless.le
        · have hstep : oldestStep (some old) (some inst, regs.length) =
              some (regs.length, inst) := if_neg hless
          rw [hstep]
          refine ⟨hnew, fun slot' inst' hslot => ?_⟩
          rcases hlast slot' inst' hslot with hslot | ⟨-, hslot⟩
          · exact (Nat.le_of_not_lt hless).trans (ih.2 slot' inst' hslot)
          · cases hslot
            exact le_rfl

end RegisterSet

namespace OpndcollRfu

variable {cfg : CollectorConfig} {u : OpndcollRfu} {io : Nat × Nat}

/-- The head at the slot of the input may enter the set, where the collector is the first free
one. -/
def Eligible (cfg : CollectorConfig) (u : OpndcollRfu) (input set slot cuid : Nat)
    (inst : OcInst) : Prop :=
  (u.regs input)[slot]? = some (some inst) ∧
    if cfg.subCoreModel then
      slot < cfg.numWarpScheds ∧ (cfg.slice set slot).find? (fun c => (u.cu c).free) = some cuid
    else (cfg.collectorsOf set).find? (fun c => (u.cu c).free) = some cuid

/-- No head of the input has a free collector in the sets. -/
def NoneEligible (cfg : CollectorConfig) (u : OpndcollRfu) (input : Nat) (sets : List Nat) : Prop :=
  ∀ set ∈ sets, ∀ slot cuid inst, ¬ u.Eligible cfg input set slot cuid inst

/-- In the first set where a head has a free collector, the oldest such head enters; without one
nothing changes. -/
def TakesOldest (cfg : CollectorConfig) (cuSets : List Nat) (io : Nat × Nat)
    (u v : OpndcollRfu) : Prop :=
  u.NoneEligible cfg io.1 cuSets ∧ v = u ∨
    ∃ before set after slot cuid inst, cuSets = before ++ set :: after ∧
      u.NoneEligible cfg io.1 before ∧ u.Eligible cfg io.1 set slot cuid inst ∧
      (∀ slot' cuid' inst', u.Eligible cfg io.1 set slot' cuid' inst' → inst.uid ≤ inst'.uid) ∧
      v = u.afterEntry cfg cuid io slot inst

/-! ### The search of the partitioned model -/

/-- What the loop over the schedulers has selected after some of them. -/
def Selected (cfg : CollectorConfig) (u : OpndcollRfu) (input set n : Nat) :
    Option (Nat × OcInst) → Prop
  | none => ∀ slot < n, ∀ cuid inst, ¬ u.Eligible cfg input set slot cuid inst
  | some (cuid, inst) =>
    (∃ slot < n, u.Eligible cfg input set slot cuid inst) ∧
      ∀ slot < n, ∀ cuid' inst', u.Eligible cfg input set slot cuid' inst' →
        inst.uid ≤ inst'.uid

theorem selectStep_ok (hsub : cfg.subCoreModel = true) (input set : Nat) {n : Nat}
    (hn : n < cfg.numWarpScheds) (hwide : n < (u.regs input).length)
    {selected : Option (Nat × OcInst)} (h : u.Selected cfg input set n selected) :
    ∃ selected', u.selectStep cfg (u.regs input) set selected n = .ok selected' ∧
      u.Selected cfg input set (n + 1) selected' := by
  have helig : ∀ {cuid inst}, u.Eligible cfg input set n cuid inst ↔
      (u.regs input)[n]? = some (some inst) ∧
        (cfg.slice set n).find? (fun c => (u.cu c).free) = some cuid := by
    intro cuid inst
    unfold Eligible
    rw [if_pos hsub]
    exact and_congr_right fun _ => and_iff_right hn
  have hready : (u.regs input).getReady true n =
      .ok (((u.regs input).getD n none).map fun inst => (n, inst)) := by
    unfold RegisterSet.getReady
    rw [if_pos rfl, require_pass (decide_eq_true hwide)]
    rfl
  have hget : (u.regs input)[n]? = some ((u.regs input).getD n none) := by
    rw [List.getD_eq_getElem?_getD, List.getElem?_eq_getElem hwide]
    rfl
  -- the scheduler has nothing that could be selected
  have hskip : (∀ cuid inst, ¬ u.Eligible cfg input set n cuid inst) →
      u.Selected cfg input set (n + 1) selected := by
    intro hnone
    cases selected with
    | none =>
      intro slot hslot cuid inst
      rcases Nat.lt_succ_iff_lt_or_eq.mp hslot with hlt | rfl
      · exact h slot hlt cuid inst
      · exact hnone cuid inst
    | some old =>
      obtain ⟨⟨slot, hslot, hold⟩, hmin⟩ := h
      refine ⟨⟨slot, Nat.lt_succ_of_lt hslot, hold⟩, fun slot' hslot' cuid' inst' hel => ?_⟩
      rcases Nat.lt_succ_iff_lt_or_eq.mp hslot' with hlt | rfl
      · exact hmin slot' hlt cuid' inst' hel
      · exact absurd hel (hnone cuid' inst')
  unfold selectStep
  rw [hready]
  cases hhead : (u.regs input).getD n none with
  | none =>
    refine ⟨selected, rfl, hskip fun cuid inst hel => ?_⟩
    rw [helig, hget, hhead] at hel
    cases hel.1
  | some candidate =>
    rw [hhead] at hget
    simp only [Option.map_some, bind, Except.bind]
    cases hfind : (cfg.slice set n).find? (fun c => (u.cu c).free) with
    | none =>
      refine ⟨selected, rfl, hskip fun cuid inst hel => ?_⟩
      rw [helig, hfind] at hel
      cases hel.2
    | some cuid =>
      have hel : u.Eligible cfg input set n cuid candidate := helig.mpr ⟨hget, hfind⟩
      have honly : ∀ cuid' inst', u.Eligible cfg input set n cuid' inst' → inst' = candidate := by
        intro cuid' inst' hel'
        have heq := (helig.mp hel').1
        rw [hget] at heq
        exact (Option.some.inj (Option.some.inj heq)).symm
      cases selected with
      | none =>
        refine ⟨some (cuid, candidate), rfl, ⟨n, Nat.lt_succ_self n, hel⟩, ?_⟩
        intro slot hslot cuid' inst' hel'
        rcases Nat.lt_succ_iff_lt_or_eq.mp hslot with hlt | rfl
        · exact absurd hel' (h slot hlt cuid' inst')
        · rw [honly cuid' inst' hel']
      | some old =>
        obtain ⟨⟨slot, hslot, hold⟩, hmin⟩ := h
        by_cases hless : candidate.uid < old.2.uid
        · refine ⟨some (cuid, candidate), ?_, ⟨n, Nat.lt_succ_self n, hel⟩, ?_⟩
          · show Except.ok (if _ then _ else _) = _
            rw [if_pos hless]
          · intro slot' hslot' cuid' inst' hel'
            rcases Nat.lt_succ_iff_lt_or_eq.mp hslot' with hlt | rfl
            · exact hless.le.trans (hmin slot' hlt cuid' inst' hel')
            · rw [honly cuid' inst' hel']
        · refine ⟨some old, ?_, ⟨slot, Nat.lt_succ_of_lt hslot, hold⟩, ?_⟩
          · show Except.ok (if _ then _ else _) = _
            rw [if_neg hless]
          · intro slot' hslot' cuid' inst' hel'
            rcases Nat.lt_succ_iff_lt_or_eq.mp hslot' with hlt | rfl
            · exact hmin slot' hlt cuid' inst' hel'
            · rw [honly cuid' inst' hel']
              exact Nat.le_of_not_lt hless

theorem selectIn_ok (hsub : cfg.subCoreModel = true) (input set : Nat)
    (hwide : cfg.numWarpScheds ≤ (u.regs input).length) :
    ∃ selected, (List.range cfg.numWarpScheds).foldlM
        (u.selectStep cfg (u.regs input) set) none = .ok selected ∧
      u.Selected cfg input set cfg.numWarpScheds selected := by
  have hloop : ∀ n ≤ cfg.numWarpScheds, ∃ selected,
      (List.range n).foldlM (u.selectStep cfg (u.regs input) set) none = .ok selected ∧
        u.Selected cfg input set n selected := by
    intro n hn
    induction n with
    | zero => exact ⟨none, rfl, fun slot hslot => absurd hslot (Nat.not_lt_zero slot)⟩
    | succ n ih =>
      obtain ⟨selected, hok, hsel⟩ := ih (Nat.le_of_succ_le hn)
      obtain ⟨selected', hstep, hsel'⟩ := selectStep_ok hsub input set hn (hn.trans hwide) hsel
      refine ⟨selected', ?_, hsel'⟩
      rw [List.range_succ, List.foldlM_append, hok]
      show [n].foldlM (u.selectStep cfg (u.regs input) set) selected = _
      rw [List.foldlM_cons, hstep]
      rfl
  exact hloop cfg.numWarpScheds le_rfl

/-- A head of the partitioned input may enter when it is eligible. -/
theorem Eligible.enters_sub (hsub : cfg.subCoreModel = true) (h : u.Sound cfg)
    (hsliced : cfg.Sliced) {port : InputPort} (hport : port ∈ cfg.inPorts)
    (hio : io ∈ port.inputs) {set slot cuid : Nat} {inst : OcInst} (hset : set ∈ port.cuSets)
    (hel : u.Eligible cfg io.1 set slot cuid inst) : Enters cfg u cuid io slot inst := by
  obtain ⟨hhead, hfind⟩ := hel
  rw [if_pos hsub] at hfind
  obtain ⟨hslot, hfind⟩ := hfind
  obtain ⟨k, hk, hcuid, hdiv⟩ := CollectorConfig.mem_slice
    (hsliced.even hsub port hport set hset).1 hslot (List.mem_of_find?_eq_some hfind)
  have hreg : cfg.regId cuid = slot := by
    rw [hcuid, hsliced.regId hsub port hport set hset k hk, hdiv]
  have hsched : inst.schedId = slot := (h.slots hsub _ _ _ hhead).1
  have hlt : slot < (u.regs io.1).length := (List.getElem?_eq_some_iff.mp hhead).1
  exact {
    free := by simpa using List.find?_some hfind
    cuid_lt := hcuid ▸ CollectorConfig.cuIndex_lt hk
    head := by
      unfold RegisterSet.getReady
      rw [hsub, if_pos rfl, hreg, require_pass (decide_eq_true hlt),
        List.getD_eq_getElem?_getD, hhead]
      rfl
    own := fun _ => by rw [hreg]; exact ⟨hsched, hsched ▸ hslot⟩
    collector := fun _ => ⟨set, k, hk, hcuid, hdiv.trans hsched.symm⟩
    output := fun _ => (cfg.regs_wide hsub port hport io hio).2 }

theorem selectCu_ok (hsub : cfg.subCoreModel = true) (input : Nat)
    (hwide : cfg.numWarpScheds ≤ (u.regs input).length) {sets : List Nat}
    (heven : ∀ set ∈ sets,
      cfg.setSize set % cfg.numWarpScheds = 0 ∧ cfg.numWarpScheds ≤ cfg.setSize set) :
    ∃ selected, u.selectCu cfg (u.regs input) sets = .ok selected ∧
      (selected = none ∧ u.NoneEligible cfg input sets ∨
        ∃ before set after slot cuid inst, selected = some (cuid, inst) ∧
          sets = before ++ set :: after ∧ u.NoneEligible cfg input before ∧
          u.Eligible cfg input set slot cuid inst ∧
          ∀ slot' cuid' inst', u.Eligible cfg input set slot' cuid' inst' →
            inst.uid ≤ inst'.uid) := by
  induction sets with
  | nil => exact ⟨none, rfl, .inl ⟨rfl, fun set hset => absurd hset List.not_mem_nil⟩⟩
  | cons set rest ih =>
    obtain ⟨hset, hrest⟩ := List.forall_mem_cons.mp heven
    have hslot : ∀ {slot cuid inst}, u.Eligible cfg input set slot cuid inst →
        slot < cfg.numWarpScheds := by
      intro slot cuid inst hel
      have hfind := hel.2
      rw [if_pos hsub] at hfind
      exact hfind.1
    obtain ⟨found, hfound, hsel⟩ := selectIn_ok hsub input set hwide
    unfold selectCu
    rw [require_pass (decide_eq_true hset), hfound]
    cases found with
    | some found =>
      obtain ⟨⟨slot, -, hel⟩, hmin⟩ := hsel
      refine ⟨some found, rfl, .inr ⟨[], set, rest, slot, found.1, found.2, rfl, rfl, ?_, hel, ?_⟩⟩
      · exact fun set hset => absurd hset List.not_mem_nil
      · exact fun slot' cuid' inst' hel' => hmin slot' (hslot hel') cuid' inst' hel'
    | none =>
      have hnone : ∀ slot cuid inst, ¬ u.Eligible cfg input set slot cuid inst :=
        fun slot cuid inst hel => hsel slot (hslot hel) cuid inst hel
      obtain ⟨selected, hok, hcase⟩ := ih hrest
      refine ⟨selected, hok, hcase.imp ?_ ?_⟩
      · rintro ⟨hsel, hall⟩
        exact ⟨hsel, List.forall_mem_cons.mpr ⟨hnone, hall⟩⟩
      · rintro ⟨before, set', after, slot, cuid, inst, hsel, rfl, hall, hel, hmin⟩
        exact ⟨set :: before, set', after, slot, cuid, inst, hsel, rfl,
          List.forall_mem_cons.mpr ⟨hnone, hall⟩, hel, hmin⟩

/-! ### allocate_cu takes the oldest head -/

/-- Without partition the oldest instruction of the input enters the first free collector. -/
theorem allocateIn_ok (hsub : cfg.subCoreModel = false) (h : u.Sound cfg) {slot : Nat}
    {inst : OcInst} (hhead : (u.regs io.1).zipIdx.foldl RegisterSet.oldestStep none =
      some (slot, inst)) (sets : List Nat) :
    ∃ v, allocateIn cfg io sets u = .ok v ∧ TakesOldest cfg sets io u v ∧ v.Sound cfg := by
  have hspec := RegisterSet.oldest_spec (u.regs io.1)
  rw [hhead] at hspec
  have hsubne : ¬ cfg.subCoreModel = true := by rw [hsub]; exact Bool.false_ne_true
  have helig : ∀ {set slot cuid inst}, u.Eligible cfg io.1 set slot cuid inst ↔
      (u.regs io.1)[slot]? = some (some inst) ∧
        (cfg.collectorsOf set).find? (fun c => (u.cu c).free) = some cuid := by
    intro set slot cuid inst
    unfold Eligible
    rw [if_neg hsubne]
  induction sets with
  | nil => exact ⟨u, rfl, .inl ⟨fun set hset => absurd hset List.not_mem_nil, rfl⟩, h⟩
  | cons set rest ih =>
    unfold allocateIn
    cases hfind : (cfg.collectorsOf set).find? (fun c => (u.cu c).free) with
    | none =>
      have hnone : ∀ slot cuid inst, ¬ u.Eligible cfg io.1 set slot cuid inst := by
        intro slot cuid inst hel
        rw [helig, hfind] at hel
        cases hel.2
      obtain ⟨v, hok, htakes, hv⟩ := ih
      refine ⟨v, hok, htakes.imp ?_ ?_, hv⟩
      · rintro ⟨hall, rfl⟩
        exact ⟨List.forall_mem_cons.mpr ⟨hnone, hall⟩, rfl⟩
      · rintro ⟨before, set', after, slot, cuid, inst, rfl, hall, hel, hmin, rfl⟩
        exact ⟨set :: before, set', after, slot, cuid, inst, rfl,
          List.forall_mem_cons.mpr ⟨hnone, hall⟩, hel, hmin, rfl⟩
    | some cuid =>
      obtain ⟨k, hk, hcuid⟩ := CollectorConfig.mem_collectorsOf (List.mem_of_find?_eq_some hfind)
      have henters : Enters cfg u cuid io slot inst :=
        { free := by simpa using List.find?_some hfind
          cuid_lt := hcuid ▸ CollectorConfig.cuIndex_lt hk
          head := by
            unfold RegisterSet.getReady
            rw [hsub, hhead]
            rfl
          own := fun htrue => absurd htrue hsubne
          collector := fun htrue => absurd htrue hsubne
          output := fun htrue => absurd htrue hsubne }
      refine ⟨u.afterEntry cfg cuid io slot inst, ?_, .inr ⟨[], set, rest, slot, cuid, inst, rfl,
        fun set hset => absurd hset List.not_mem_nil, helig.mpr ⟨hspec.1, hfind⟩, ?_, rfl⟩,
        henters.sound h⟩
      · dsimp only
        rw [henters.allocateAt_ok h]
        rfl
      · intro slot' cuid' inst' hel
        exact hspec.2 slot' inst' (helig.mp hel).1

theorem Sound.allocateInput_ok (h : u.Sound cfg) (hsliced : cfg.Sliced) {port : InputPort}
    (hport : port ∈ cfg.inPorts) (hio : io ∈ port.inputs) :
    ∃ v, u.allocateInput cfg port.cuSets io = .ok v ∧ TakesOldest cfg port.cuSets io u v ∧
      v.Sound cfg := by
  unfold allocateInput
  cases hsub : cfg.subCoreModel with
  | true =>
    have hwide : cfg.numWarpScheds ≤ (u.regs io.1).length := by
      rw [h.regs_length]
      exact (cfg.regs_wide hsub port hport io hio).1
    obtain ⟨selected, hok, hcase⟩ := selectCu_ok hsub io.1 hwide
      (fun set hset => hsliced.even hsub port hport set hset)
    rw [if_pos rfl, hok]
    rcases hcase with ⟨rfl, hnone⟩ | ⟨before, set, after, slot, cuid, inst, rfl, heq, hnone, hel,
      hmin⟩
    · exact ⟨u, rfl, .inl ⟨hnone, rfl⟩, h⟩
    · have hset : set ∈ port.cuSets := by rw [heq]; simp
      have henters := hel.enters_sub hsub h hsliced hport hio hset
      refine ⟨u.afterEntry cfg cuid io slot inst, ?_,
        .inr ⟨before, set, after, slot, cuid, inst, heq, hnone, hel, hmin, rfl⟩,
        henters.sound h⟩
      show (u.allocateAt cfg cuid io >>= _) = _
      rw [henters.allocateAt_ok h]
      rfl
  | false =>
    rw [if_neg Bool.false_ne_true]
    have hspec := RegisterSet.oldest_spec (u.regs io.1)
    cases hhead : (u.regs io.1).zipIdx.foldl RegisterSet.oldestStep none with
    | none =>
      rw [hhead] at hspec
      have hany : (u.regs io.1).any Option.isSome = false := by
        rw [List.any_eq_false]
        intro reg hreg hsome
        obtain ⟨inst, rfl⟩ := Option.isSome_iff_exists.mp hsome
        obtain ⟨slot, hslot⟩ := List.mem_iff_getElem?.mp hreg
        exact hspec slot inst hslot
      rw [hany]
      refine ⟨u, rfl, .inl ⟨fun set _ slot cuid inst hel => ?_, rfl⟩, h⟩
      exact hspec slot inst hel.1
    | some head =>
      rw [hhead] at hspec
      have hany : (u.regs io.1).any Option.isSome = true :=
        List.any_eq_true.mpr ⟨_, List.mem_of_getElem? hspec.1, rfl⟩
      rw [hany, if_pos rfl]
      exact allocateIn_ok hsub h hhead port.cuSets

theorem Sound.allocateInputs_ok (h : u.Sound cfg) (hsliced : cfg.Sliced) {port : InputPort}
    (hport : port ∈ cfg.inPorts) (inputs : List (Nat × Nat))
    (hinputs : ∀ io ∈ inputs, io ∈ port.inputs) :
    ∃ v, inputs.foldlM (fun u io => u.allocateInput cfg port.cuSets io) u = .ok v ∧
      v.Sound cfg := by
  refine foldlM_ok (fun v : OpndcollRfu => v.Sound cfg) (fun io hio v hv => ?_) h
  obtain ⟨w, hok, -, hw⟩ := hv.allocateInput_ok hsliced hport (hinputs io hio)
  exact ⟨w, hok, hw⟩

/-! ### dispatch_ready_cu -/

theorem Sound.firstReady_ok (h : u.Sound cfg) (set : Nat) (order : List Nat) :
    ∃ found, u.firstReady cfg set order = .ok found ∧ ∀ k ∈ found,
      ∃ inst reads out slot, u.Leaves cfg (cfg.cuIndex set k) inst reads out slot := by
  induction order with
  | nil => exact ⟨none, rfl, fun k hk => nomatch hk⟩
  | cons k rest ih =>
    obtain ⟨r, hready, hleaves⟩ := h.ready_ok (cfg.cuIndex set k)
    unfold firstReady
    rw [hready]
    cases r with
    | true =>
      refine ⟨some k, rfl, fun k' hk' => ?_⟩
      cases hk'
      exact hleaves rfl
    | false => exact ih

theorem Sound.dispatchUnit_ok (h : u.Sound cfg) (hsliced : cfg.Sliced) {unit : Nat × Nat}
    (hunit : unit.1 ∈ cfg.dispatchSets) :
    ∃ v, u.dispatchUnit cfg unit = .ok v ∧ v.Sound cfg ∧ v.port = u.port := by
  have horder : ∃ order, readyOrder cfg unit.1 (u.lastCu unit.2) = .ok order := by
    have hpos : (!cfg.subCoreModel || decide (cfg.cusPerSched unit.1 ≠ 0)) = true := by
      cases hsub : cfg.subCoreModel with
      | false => rfl
      | true =>
        have hdiv := Nat.div_pos (hsliced.dispatch hsub unit.1 hunit) cfg.numWarpScheds_pos
        exact decide_eq_true hdiv.ne'
    unfold readyOrder
    rw [require_pass hpos]
    exact ⟨_, rfl⟩
  obtain ⟨order, horder⟩ := horder
  obtain ⟨found, hfound, hleaves⟩ := h.firstReady_ok unit.1 order
  unfold dispatchUnit
  rw [horder]
  cases found with
  | none =>
    refine ⟨u, ?_, h, rfl⟩
    show (u.firstReady cfg unit.1 order >>= _) = _
    rw [hfound]
    rfl
  | some k =>
    obtain ⟨inst, reads, out, slot, hleaves⟩ := hleaves k rfl
    refine ⟨u.afterDispatch unit.2 (cfg.cuIndex unit.1 k) k out slot, ?_, hleaves.sound h _ _, rfl⟩
    show (u.firstReady cfg unit.1 order >>= _) = _
    rw [hfound]
    show ((u.cu (cfg.cuIndex unit.1 k)).dispatch cfg _ u.regs >>= _) = _
    rw [hleaves.dispatch_ok]
    rfl

theorem Sound.dispatchReadyCu_ok (h : u.Sound cfg) (hsliced : cfg.Sliced) :
    ∃ v, u.dispatchReadyCu cfg = .ok v ∧ v.Sound cfg ∧ v.port = u.port := by
  refine foldlM_ok (fun v : OpndcollRfu => v.Sound cfg ∧ v.port = u.port) (fun unit hunit v hv => ?_) ⟨h, rfl⟩
  have hset : unit.1 ∈ cfg.dispatchSets := by
    have hmap : cfg.dispatchSets.zipIdx.map Prod.fst = cfg.dispatchSets := List.zipIdx_map_fst ..
    rw [← hmap]
    exact List.mem_map_of_mem hunit
  obtain ⟨w, hok, hw, hport⟩ := hv.1.dispatchUnit_ok hsliced hset
  exact ⟨w, hok, hw, hport.trans hv.2⟩

/-! ### Runs -/

/-- The calls of the core: its pipeline fills and empties registers, and the collector's own
operations, alone or together in `step`. -/
inductive RfuCall
  | put (set slot : Nat) (inst : OcInst)
  | take (set slot : Nat)
  | writeback (inst : OcInst)
  | beginCycle
  | consumeRfReadBudget (bytes : Nat)
  | dispatchReadyCu
  | allocateReads
  | allocateCu (port : InputPort)
  | processBanks
  | step

/-- A call of the collector. -/
def call (cfg : CollectorConfig) (u : OpndcollRfu) : RfuCall → Except CollectorFault OpndcollRfu
  | .put set slot inst => .ok (u.setReg set slot (some inst))
  | .take set slot => .ok (u.setReg set slot none)
  | .writeback inst => do
    let (_, _, u) ← u.writeback cfg inst
    return u
  | .beginCycle => .ok (u.beginCycle cfg)
  | .consumeRfReadBudget bytes => .ok (u.consumeRfReadBudget cfg bytes)
  | .dispatchReadyCu => u.dispatchReadyCu cfg
  | .allocateReads => u.allocateReads cfg
  | .allocateCu port => u.allocateCu cfg port
  | .processBanks => .ok u.processBanks
  | .step => u.step cfg

/-- The callers: an instruction is issued to a free register, in a partitioned core to the one of
its scheduler, and banks are read once before `process_banks`. -/
def Allowed (cfg : CollectorConfig) (u : OpndcollRfu) : RfuCall → Prop
  | .put set slot inst => (u.regs set)[slot]? = some none ∧
      (cfg.subCoreModel = true → inst.schedId = slot ∧ slot < cfg.numWarpScheds)
  | .writeback inst => cfg.subCoreModel = true → inst.schedId < cfg.numWarpScheds
  | .allocateReads | .step =>
    ∀ bank < cfg.numBanks, u.port.arbiter.allocatedBank bank ≠ .readAlloc
  | .allocateCu port => port ∈ cfg.inPorts
  | .take _ _ | .beginCycle | .consumeRfReadBudget _ | .dispatchReadyCu | .processBanks => True

instance (cfg : CollectorConfig) (u : OpndcollRfu) : (c : RfuCall) → Decidable (u.Allowed cfg c)
  | .put set slot inst => inferInstanceAs (Decidable ((u.regs set)[slot]? = some none ∧
      (cfg.subCoreModel = true → inst.schedId = slot ∧ slot < cfg.numWarpScheds)))
  | .writeback inst =>
    inferInstanceAs (Decidable (cfg.subCoreModel = true → inst.schedId < cfg.numWarpScheds))
  | .allocateReads | .step => inferInstanceAs (Decidable
      (∀ bank < cfg.numBanks, u.port.arbiter.allocatedBank bank ≠ .readAlloc))
  | .allocateCu port => inferInstanceAs (Decidable (port ∈ cfg.inPorts))
  | .take _ _ | .beginCycle | .consumeRfReadBudget _ | .dispatchReadyCu | .processBanks =>
    inferInstanceAs (Decidable True)

theorem Sound.allocateCu_ok (h : u.Sound cfg) (hsliced : cfg.Sliced) {port : InputPort}
    (hport : port ∈ cfg.inPorts) : ∃ v, u.allocateCu cfg port = .ok v ∧ v.Sound cfg :=
  h.allocateInputs_ok hsliced hport port.inputs fun _ hio => hio

/-- `step` is a run of the operations, none of which fails. -/
theorem Sound.step_ok (h : u.Sound cfg) (hsliced : cfg.Sliced)
    (hnoread : ∀ bank < cfg.numBanks, u.port.arbiter.allocatedBank bank ≠ .readAlloc) :
    ∃ v, u.step cfg = .ok v ∧ v.Sound cfg := by
  obtain ⟨v, hdispatch, hv, hport⟩ := h.dispatchReadyCu_ok hsliced
  obtain ⟨port, hreads, hw⟩ := hv.allocateReads_ok (by rw [hport]; exact hnoread)
  obtain ⟨x, hallocate, hx⟩ : ∃ x, cfg.inPorts.foldlM (fun u port => u.allocateCu cfg port)
      (v.afterReads cfg port) = .ok x ∧ x.Sound cfg :=
    foldlM_ok (fun v : OpndcollRfu => v.Sound cfg)
      (fun port hport u hu => hu.allocateCu_ok hsliced hport) hw
  refine ⟨x.processBanks, ?_, hx.processBanks⟩
  unfold step
  rw [hdispatch]
  show (v.allocateReads cfg >>= _) = _
  rw [hreads]
  show (List.foldlM (fun u port => allocateCu cfg u port) (v.afterReads cfg port) _ >>= _) = _
  rw [hallocate]
  rfl

theorem Sound.call_ok (h : u.Sound cfg) (hsliced : cfg.Sliced) {c : RfuCall}
    (hallowed : u.Allowed cfg c) : ∃ v, u.call cfg c = .ok v ∧ v.Sound cfg := by
  cases c with
  | put set slot inst =>
    refine ⟨_, rfl, h.setReg set slot fun hsub inst' hinst => ?_⟩
    cases hinst
    exact hallowed.2 hsub
  | take set slot => exact ⟨_, rfl, h.setReg set slot fun _ inst hinst => nomatch hinst⟩
  | writeback inst =>
    obtain ⟨done, left, v, hok, hv⟩ := h.writeDst_ok inst inst.dst hallowed
    refine ⟨v, ?_, hv⟩
    show (u.writeback cfg inst >>= _) = _
    unfold writeback
    rw [hok]
    rfl
  | beginCycle => exact ⟨_, rfl, h.beginCycle⟩
  | consumeRfReadBudget bytes => exact ⟨_, rfl, h.consumeRfReadBudget bytes⟩
  | dispatchReadyCu =>
    obtain ⟨v, hok, hv, -⟩ := h.dispatchReadyCu_ok hsliced
    exact ⟨v, hok, hv⟩
  | allocateReads =>
    obtain ⟨port, hok, hv⟩ := h.allocateReads_ok hallowed
    exact ⟨_, hok, hv⟩
  | allocateCu port => exact h.allocateCu_ok hsliced hallowed
  | processBanks => exact ⟨_, rfl, h.processBanks⟩
  | step => exact h.step_ok hsliced hallowed

/-- The state of the collector after calls of the core. -/
def Reachable (cfg : CollectorConfig) (u : OpndcollRfu) : Prop :=
  Reaches (call cfg) (Allowed cfg) (init cfg) u

theorem Reachable.sound (hsliced : cfg.Sliced) (h : Reachable cfg u) : u.Sound cfg := by
  refine h.invariant (fun u => u.Sound cfg) (sound_init cfg) fun u v c hu hallowed hok => ?_
  obtain ⟨w, hok', hw⟩ := hu.call_ok hsliced hallowed
  cases hok.symm.trans hok'
  exact hw

/-- Without a byte limit `allocate_reads` serves every bank that has a read and is not written. -/
theorem Sound.serves (h : u.Sound cfg) (hlimit : cfg.readLimit = 0) {bank : Nat}
    (hbank : bank < cfg.numBanks) (hqueue : u.port.arbiter.queue bank ≠ [])
    (hwrite : u.port.arbiter.allocatedBank bank ≠ .writeAlloc) :
    ∃ op, (u.port.arbiter.queue bank).head? = some op ∧ op ∈ u.granted cfg ∧
      u.bankOf cfg op = bank := by
  obtain ⟨op, rest, hop⟩ := List.exists_cons_of_ne_nil hqueue
  have hmem : op ∈ u.port.arbiter.queue bank := by rw [hop]; exact List.mem_cons_self
  have hhead : (u.port.arbiter.queue bank).head? = some op := by rw [hop]; rfl
  refine ⟨op, hhead, mem_granted.mpr ⟨bank, ?_, hhead⟩, ?_⟩
  · unfold ReadPort.readBanks
    rw [Arbiter.mem_grantedBanks hbank ⟨hqueue, hwrite⟩]
    have hlen := List.length_filter_le (fun b => decide
      (u.port.arbiter.queue b ≠ [] ∧ u.port.arbiter.allocatedBank b ≠ .writeAlloc))
      (List.range bank)
    rw [List.length_range] at hlen
    have hgrants : u.port.maxGrants cfg.toReadPortConfig = 2 ^ 32 - 1 := by
      unfold ReadPort.maxGrants
      rw [hlimit]
      rfl
    have hbanks := cfg.numBanks_lt
    rw [hgrants]
    omega
  · rw [h.bankOf_eq hmem]
    exact ((h.queue bank op).mp hmem).2

/-- What the operand collector promises in a state. -/
structure OperandsOnce (cfg : CollectorConfig) (u : OpndcollRfu) : Prop where
  /-- Each read, write, entry and dispatch was proper when it happened. -/
  proper : ∀ later e earlier, u.log = later ++ e :: earlier → OcEvent.Proper cfg earlier e
  /-- No assertion fails. -/
  total : ∀ c, u.Allowed cfg c → ∃ v, u.call cfg c = .ok v
  /-- At its turn each input of a port gives its oldest head that has a free collector. -/
  oldest : ∀ port ∈ cfg.inPorts, ∀ done io rest, port.inputs = done ++ io :: rest →
    ∃ v w, done.foldlM (fun u io => u.allocateInput cfg port.cuSets io) u = .ok v ∧
      v.allocateInput cfg port.cuSets io = .ok w ∧ TakesOldest cfg port.cuSets io v w
  /-- Without a byte limit every bank with a read and no write is served. -/
  served : cfg.readLimit = 0 → u.Allowed cfg .allocateReads →
    ∃ v events, u.allocateReads cfg = .ok v ∧ v.log = events ++ u.log ∧
      ∀ bank < cfg.numBanks, u.port.arbiter.queue bank ≠ [] →
        u.port.arbiter.allocatedBank bank ≠ .writeAlloc →
          ∃ op, (u.port.arbiter.queue bank).head? = some op ∧ .read op bank ∈ events

end OpndcollRfu

end FlashGpuSim
