import FlashGpuSim.Ptx.RegAllocIntervals

/-!
The aliases of `allocate_intervals`. The intervals placed in one slot follow each other, so
registers with one representative have intervals that do not meet.
-/

namespace FlashGpuSim

open Lib

namespace FunctionInfo

/-- `canonicalize_register` under the aliases `t`. -/
def placeOf (t : Table Nat) (r : Nat) : Nat := (t.lookup r).getD r

theorem placeOf_insert {t : Table Nat} (r rep s : Nat) :
    placeOf (t.insert r rep) s = if s = r then rep else placeOf t s := by
  unfold placeOf
  rw [Table.lookup_insert]
  split <;> rfl

variable {pinned : RegSymbolSet} {done : List SortedInterval} {s : AllocState}
  {interval : SortedInterval}

theorem reuseSlot_eq {active active' : List PhysicalSlot} {rep : Nat}
    (h : reuseSlot interval active = some (rep, active')) :
    ∃ before slot after, active = before ++ slot :: after ∧
      active' = before ++ { slot with stop := interval.stop } :: after ∧
      slot.representative = rep ∧ slot.stop < interval.start := by
  induction active generalizing active' with
  | nil => cases h
  | cons slot rest ih =>
    unfold reuseSlot at h
    split at h
    · rename_i hlt
      cases h
      exact ⟨[], slot, rest, rfl, rfl, rfl, hlt⟩
    · obtain ⟨⟨rep', rest'⟩, hrest, heq⟩ := Option.map_eq_some_iff.mp h
      cases heq
      obtain ⟨before, slot', after, rfl, rfl, hrep, hlt⟩ := ih hrest
      exact ⟨slot :: before, slot', after, rfl, rfl, hrep, hlt⟩

/-- What holds when the intervals `done` have their places. -/
structure Allocated (pinned : RegSymbolSet) (done : List SortedInterval) (s : AllocState) :
    Prop where
  /-- An aliased register and its representative are both among them and not pinned. -/
  known : ∀ r rep, s.aliases.lookup r = some rep →
    r ∈ done.map (·.sym) ∧ rep ∈ done.map (·.sym) ∧ r ∉ pinned ∧ rep ∉ pinned
  reps : ∀ slot ∈ s.active, slot.representative ∈ done.map (·.sym) ∧
    slot.representative ∉ pinned
  distinct : (s.active.map (·.representative)).Nodup
  /-- A slot ends with the last interval placed there. -/
  slotStop : ∀ slot ∈ s.active, ∀ a ∈ done, placeOf s.aliases a.sym = slot.representative →
    a.stop ≤ slot.stop
  apart : ∀ a ∈ done, ∀ b ∈ done, a.sym ≠ b.sym →
    placeOf s.aliases a.sym = placeOf s.aliases b.sym → a.stop < b.start ∨ b.stop < a.start

theorem Allocated.place_known (h : Allocated pinned done s) {a : SortedInterval}
    (ha : a ∈ done) : placeOf s.aliases a.sym ∈ done.map (·.sym) := by
  unfold placeOf
  cases hlookup : s.aliases.lookup a.sym with
  | none => exact List.mem_map_of_mem ha
  | some rep => exact (h.known _ _ hlookup).2.1

theorem Allocated.place_fresh (h : Allocated pinned done s)
    (hfresh : interval.sym ∉ done.map (·.sym)) :
    placeOf s.aliases interval.sym = interval.sym := by
  unfold placeOf
  cases hlookup : s.aliases.lookup interval.sym with
  | none => rfl
  | some rep => exact absurd (h.known _ _ hlookup).1 hfresh

theorem mem_syms_append {done : List SortedInterval} {r : Nat} (h : r ∈ done.map (·.sym)) :
    r ∈ (done ++ [interval]).map (·.sym) := by
  rw [List.map_append]
  exact List.mem_append_left _ h

/-- An interval in a place that no earlier one has. -/
theorem Allocated.alone (h : Allocated pinned done s)
    (hfresh : interval.sym ∉ done.map (·.sym)) {a b : SortedInterval}
    (ha : a ∈ done ++ [interval]) (hb : b ∈ done ++ [interval]) (hne : a.sym ≠ b.sym)
    (heq : placeOf s.aliases a.sym = placeOf s.aliases b.sym) :
    a.stop < b.start ∨ b.stop < a.start := by
  rw [List.mem_append, List.mem_singleton] at ha hb
  rcases ha with ha | rfl
  · rcases hb with hb | rfl
    · exact h.apart a ha b hb hne heq
    · rw [h.place_fresh hfresh] at heq
      exact absurd (heq ▸ h.place_known ha) hfresh
  · rcases hb with hb | rfl
    · rw [h.place_fresh hfresh] at heq
      exact absurd (heq ▸ h.place_known hb) hfresh
    · exact absurd rfl hne

/-- The slots of a new group. -/
theorem Allocated.setGroup (h : Allocated pinned done s) (group : Int) :
    Allocated pinned done
      { s with group := some group, active := if s.group = some group then s.active else [] } := by
  by_cases hgroup : s.group = some group
  · rw [if_pos hgroup]
    exact ⟨h.known, h.reps, h.distinct, h.slotStop, h.apart⟩
  · rw [if_neg hgroup]
    exact ⟨h.known, fun slot hslot => absurd hslot List.not_mem_nil, List.nodup_nil,
      fun slot hslot => absurd hslot List.not_mem_nil, h.apart⟩

theorem Allocated.skip (h : Allocated pinned done s)
    (hfresh : interval.sym ∉ done.map (·.sym)) :
    Allocated pinned (done ++ [interval]) s where
  known r rep hr :=
    have ⟨hr, hrep, hpins⟩ := h.known r rep hr
    ⟨mem_syms_append hr, mem_syms_append hrep, hpins⟩
  reps slot hslot := ⟨mem_syms_append (h.reps slot hslot).1, (h.reps slot hslot).2⟩
  distinct := h.distinct
  slotStop slot hslot a ha heq := by
    rcases List.mem_append.mp ha with ha | ha
    · exact h.slotStop slot hslot a ha heq
    · rw [List.mem_singleton.mp ha, h.place_fresh hfresh] at heq
      exact absurd (heq ▸ (h.reps slot hslot).1) hfresh
  apart _ ha _ hb := h.alone hfresh ha hb

theorem Allocated.open (h : Allocated pinned done s)
    (hfresh : interval.sym ∉ done.map (·.sym)) (hpin : interval.sym ∉ pinned) :
    Allocated pinned (done ++ [interval])
      { s with
        active := s.active ++ [{ representative := interval.sym, stop := interval.stop }] } := by
  have hskip := h.skip hfresh
  refine ⟨hskip.known, fun slot hslot => ?_, ?_, fun slot hslot a ha heq => ?_, hskip.apart⟩
  · rcases List.mem_append.mp hslot with hslot | hslot
    · exact hskip.reps slot hslot
    · rw [List.mem_singleton.mp hslot]
      exact ⟨List.mem_map_of_mem (List.mem_append_right _ List.mem_cons_self), hpin⟩
  · rw [List.map_append]
    refine List.nodup_append.mpr ⟨h.distinct, List.nodup_singleton _, fun rep hrep rep' hrep' => ?_⟩
    rintro rfl
    obtain ⟨slot, hslot, rfl⟩ := List.mem_map.mp hrep
    have heq : slot.representative = interval.sym := List.mem_singleton.mp hrep'
    exact hfresh (heq ▸ (h.reps slot hslot).1)
  · rcases List.mem_append.mp hslot with hslot | hslot
    · exact hskip.slotStop slot hslot a ha heq
    · rw [List.mem_singleton.mp hslot] at heq ⊢
      rcases List.mem_append.mp ha with ha | ha
      · have heq : placeOf s.aliases a.sym = interval.sym := heq
        exact absurd (heq ▸ h.place_known ha) hfresh
      · rw [List.mem_singleton.mp ha]

theorem Allocated.reuse (h : Allocated pinned done s)
    (hfresh : interval.sym ∉ done.map (·.sym)) (hpin : interval.sym ∉ pinned)
    (hwf : interval.start ≤ interval.stop) {rep : Nat} {active : List PhysicalSlot}
    (hreuse : reuseSlot interval s.active = some (rep, active)) :
    rep ≠ interval.sym ∧
    Allocated pinned (done ++ [interval])
      { s with active := active, aliases := s.aliases.insert interval.sym rep } := by
  obtain ⟨before, slot, after, hactive, rfl, rfl, hlt⟩ := reuseSlot_eq hreuse
  have hslot : slot ∈ s.active := hactive ▸ List.mem_append_right _ List.mem_cons_self
  obtain ⟨hrep, hreppin⟩ := h.reps slot hslot
  have hne : slot.representative ≠ interval.sym := fun heq => hfresh (heq ▸ hrep)
  have hplace : ∀ a ∈ done, placeOf (s.aliases.insert interval.sym slot.representative) a.sym =
      placeOf s.aliases a.sym := fun a ha => by
    have hother : a.sym ≠ interval.sym := fun heq => hfresh (heq ▸ List.mem_map_of_mem ha)
    rw [placeOf_insert, if_neg hother]
  have hown : placeOf (s.aliases.insert interval.sym slot.representative) interval.sym =
      slot.representative := by
    rw [placeOf_insert, if_pos rfl]
  have hstop : ∀ a ∈ done, placeOf s.aliases a.sym = slot.representative →
      a.stop < interval.start := fun a ha heq =>
    Nat.lt_of_le_of_lt (h.slotStop slot hslot a ha heq) hlt
  have hslots : ∀ slot' ∈ before ++ { slot with stop := interval.stop } :: after,
      slot' = { slot with stop := interval.stop } ∨
        slot' ∈ s.active ∧ slot'.representative ≠ slot.representative := by
    intro slot' hslot'
    have hdistinct := h.distinct
    rw [hactive, List.map_append, List.map_cons, List.nodup_append, List.nodup_cons] at hdistinct
    rw [hactive]
    rcases List.mem_append.mp hslot' with hmem | hmem
    · refine .inr ⟨List.mem_append_left _ hmem, ?_⟩
      exact hdistinct.2.2 _ (List.mem_map_of_mem hmem) _ List.mem_cons_self
    · rcases List.mem_cons.mp hmem with rfl | hmem
      · exact .inl rfl
      · refine .inr ⟨List.mem_append_right _ (List.mem_cons_of_mem _ hmem), fun heq => ?_⟩
        exact hdistinct.2.1.1 (heq ▸ List.mem_map_of_mem hmem)
  refine ⟨hne, ⟨fun r rep hr => ?_, fun slot' hslot' => ?_, ?_, fun slot' hslot' a ha heq => ?_,
    fun a ha b hb hab heq => ?_⟩⟩
  · change (s.aliases.insert interval.sym slot.representative).lookup r = some rep at hr
    rw [Table.lookup_insert] at hr
    split at hr
    · rename_i heq
      cases hr
      rw [heq]
      exact ⟨List.mem_map_of_mem (List.mem_append_right _ List.mem_cons_self),
        mem_syms_append hrep, hpin, hreppin⟩
    · obtain ⟨hr, hrep, hpins⟩ := h.known r rep hr
      exact ⟨mem_syms_append hr, mem_syms_append hrep, hpins⟩
  · rcases hslots slot' hslot' with rfl | ⟨hmem, -⟩
    · exact ⟨mem_syms_append hrep, hreppin⟩
    · exact ⟨mem_syms_append (h.reps slot' hmem).1, (h.reps slot' hmem).2⟩
  · have hmap : (before ++ { slot with stop := interval.stop } :: after).map (·.representative) =
        s.active.map (·.representative) := by
      rw [hactive, List.map_append, List.map_append]
      rfl
    exact hmap ▸ h.distinct
  · rcases List.mem_append.mp ha with ha | ha
    · change placeOf (s.aliases.insert interval.sym slot.representative) a.sym = _ at heq
      rw [hplace a ha] at heq
      rcases hslots slot' hslot' with rfl | ⟨hmem, -⟩
      · exact (hstop a ha heq).le.trans hwf
      · exact h.slotStop slot' hmem a ha heq
    · rw [List.mem_singleton.mp ha] at heq ⊢
      rcases hslots slot' hslot' with rfl | ⟨-, hother⟩
      · exact le_rfl
      · exact absurd (heq.symm.trans hown) hother
  · change placeOf (s.aliases.insert interval.sym slot.representative) a.sym =
      placeOf (s.aliases.insert interval.sym slot.representative) b.sym at heq
    rw [List.mem_append, List.mem_singleton] at ha hb
    rcases ha with ha | rfl
    · rw [hplace a ha] at heq
      rcases hb with hb | rfl
      · rw [hplace b hb] at heq
        exact h.apart a ha b hb hab heq
      · exact .inl (hstop a ha (heq.trans hown))
    · rcases hb with hb | rfl
      · rw [hplace b hb, hown] at heq
        exact .inr (hstop b hb heq.symm)
      · exact absurd rfl hab

theorem Allocated.step (h : Allocated pinned done s)
    (hfresh : interval.sym ∉ done.map (·.sym)) (hwf : interval.start ≤ interval.stop) :
    Allocated pinned (done ++ [interval]) (allocateInterval pinned s interval) := by
  have hgroup := h.setGroup interval.group
  unfold allocateInterval
  dsimp only
  split
  · exact hgroup.skip hfresh
  · rename_i hpin
    have hpin : interval.sym ∉ pinned := fun hmem => hpin (List.contains_iff_mem.mpr hmem)
    split
    · rename_i rep active hreuse
      obtain ⟨hne, hnext⟩ := hgroup.reuse hfresh hpin hwf hreuse
      rw [if_pos hne]
      exact hnext
    · exact hgroup.open hfresh hpin

theorem allocated_foldl {rest : List SortedInterval} (h : Allocated pinned done s)
    (hnodup : ((done ++ rest).map (·.sym)).Nodup) (hwf : ∀ iv ∈ rest, iv.start ≤ iv.stop) :
    Allocated pinned (done ++ rest) (rest.foldl (allocateInterval pinned) s) := by
  induction rest generalizing done s with
  | nil =>
    rw [List.append_nil]
    exact h
  | cons interval rest ih =>
    have hfresh : interval.sym ∉ done.map (·.sym) := fun hmem => by
      rw [List.map_append, List.map_cons] at hnodup
      exact (List.nodup_append.mp hnodup).2.2 _ hmem _ List.mem_cons_self rfl
    rw [List.append_cons] at hnodup ⊢
    exact ih (h.step hfresh (hwf _ List.mem_cons_self)) hnodup
      fun iv hiv => hwf iv (List.mem_cons_of_mem _ hiv)

variable {f : FunctionInfo} {intervals : Table LiveInterval}

/-- `sort_intervals` lists every interval once. -/
theorem sortIntervals_spec (hwf : WellFormed intervals) :
    ((sortIntervals intervals).map (·.sym)).Nodup ∧
    (∀ iv ∈ sortIntervals intervals, iv.start ≤ iv.stop) ∧
    ∀ iv ∈ sortIntervals intervals, ∃ range, intervals.lookup iv.sym = some range ∧
      range.start = iv.start ∧ range.stop = iv.stop := by
  have hlookup : ∀ iv ∈ sortIntervals intervals, ∃ range, intervals.lookup iv.sym = some range ∧
      range.start = iv.start ∧ range.stop = iv.stop := by
    intro iv hiv
    rw [sortIntervals, List.mem_insertionSort] at hiv
    obtain ⟨e, he, rfl⟩ := List.mem_map.mp hiv
    exact ⟨e.2, AList.mem_lookup_iff.mpr he, rfl, rfl⟩
  refine ⟨?_, fun iv hiv => ?_, hlookup⟩
  · have hperm : ((sortIntervals intervals).map (·.sym)).Perm intervals.keys := by
      refine ((List.perm_insertionSort _ _).map _).trans ?_
      rw [List.map_map]
      exact List.Perm.refl _
    exact hperm.nodup_iff.mpr intervals.keys_nodup
  · obtain ⟨range, hrange, hstart, hstop⟩ := hlookup iv hiv
    rw [← hstart, ← hstop]
    exact hwf iv.sym range hrange

theorem mem_sortIntervals {r : Nat} {range : LiveInterval}
    (h : intervals.lookup r = some range) :
    { sym := r, start := range.start, stop := range.stop, group := range.group } ∈
      sortIntervals intervals := by
  rw [sortIntervals, List.mem_insertionSort]
  exact List.mem_map.mpr ⟨⟨r, range⟩, AList.mem_lookup_iff.mp h, rfl⟩

theorem allocated_intervals (pinned : RegSymbolSet) (hwf : WellFormed intervals) :
    Allocated pinned (sortIntervals intervals)
      ((sortIntervals intervals).foldl (allocateInterval pinned) {}) := by
  obtain ⟨hnodup, hstart, -⟩ := sortIntervals_spec hwf
  have hinit : Allocated pinned [] {} :=
    ⟨fun r rep h => (by cases h), fun slot h => absurd h List.not_mem_nil, List.nodup_nil,
      fun slot h => absurd h List.not_mem_nil, fun a ha => absurd ha List.not_mem_nil⟩
  exact allocated_foldl hinit hnodup hstart

/-- Registers with one representative are not pinned and have intervals that do not meet. -/
theorem aliased_apart {r s : Nat} (hne : r ≠ s)
    (heq : (f.runPtxRegisterAllocation true).canonicalizeRegister r =
      (f.runPtxRegisterAllocation true).canonicalizeRegister s) :
    (r ∉ f.scan.linearReadBeforeDef ∧ s ∉ f.scan.linearReadBeforeDef) ∧
    ∀ pc, Spans f.intervals r pc → ¬ Spans f.intervals s pc := by
  have halloc := allocated_intervals f.scan.linearReadBeforeDef (wellFormed_intervals (f := f))
  change placeOf (allocateIntervals _ _) r = placeOf (allocateIntervals _ _) s at heq
  refine ⟨?_, ?_⟩
  · unfold placeOf at heq
    cases hr : (allocateIntervals (sortIntervals f.intervals)
        f.scan.linearReadBeforeDef).lookup r with
    | none =>
      cases hs : (allocateIntervals (sortIntervals f.intervals)
          f.scan.linearReadBeforeDef).lookup s with
      | none =>
        rw [hr, hs] at heq
        exact absurd heq hne
      | some rep =>
        rw [hr, hs] at heq
        obtain ⟨-, -, hs, hrep⟩ := halloc.known s rep hs
        exact ⟨(show r = rep from heq) ▸ hrep, hs⟩
    | some rep =>
      obtain ⟨-, -, hrpin, hrep⟩ := halloc.known r rep hr
      cases hs : (allocateIntervals (sortIntervals f.intervals)
          f.scan.linearReadBeforeDef).lookup s with
      | none =>
        rw [hr, hs] at heq
        exact ⟨hrpin, (show rep = s from heq) ▸ hrep⟩
      | some rep' => exact ⟨hrpin, (halloc.known s rep' hs).2.2.1⟩
  · rintro pc ⟨ivr, hr, hrlo, hrhi⟩ ⟨ivs, hs, hslo, hshi⟩
    have := halloc.apart _ (mem_sortIntervals hr) _ (mem_sortIntervals hs) hne heq
    dsimp only at this
    omega

end FunctionInfo

end FlashGpuSim
