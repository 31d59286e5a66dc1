import FlashGpuSim.Lib.Reach
import FlashGpuSim.Tcgen05.Controls

/-!
The events of commits and waits over whole runs: each is pushed by the first call at
which it is due, and none is delivered after the clean-up of its CTA.
-/

namespace FlashGpuSim

open Lib

namespace Tcgen05Unit

variable {u u' : Tcgen05Unit} {e : TimingEvent} {stream : TimingStream} {i : Nat}
  {ev : CompletionEvent}

theorem mem_record {α : Type} {l : List α} {a b : α} : a ∈ l ++ [b] ↔ a ∈ l ∨ a = b := by
  rw [List.mem_append, List.mem_singleton]

theorem completion_serial (h : e.completion i = some ev) : ev.serial = i := by
  cases e with
  | committed stream mbarrierAddr =>
    cases h
    rfl
  | waited stream kind =>
    cases h
    rfl
  | _ => cases h

theorem EventAt.lt {h : List TimingEvent} (hev : EventAt h ev stream) : ev.serial < h.length := by
  obtain ⟨e, he, -⟩ := hev
  exact lt_length_of_getElem? he

theorem EventAt.record {h : List TimingEvent} (hev : EventAt h ev stream) (e : TimingEvent) :
    EventAt (h ++ [e]) ev stream := by
  obtain ⟨x, hx, hstream, hcompletion⟩ := hev
  exact ⟨x, getElem?_concat_iff.mpr (.inl hx), hstream, hcompletion⟩

/-- The control at a new place of the history, or one from before. -/
theorem EventAt.of_record {h : List TimingEvent} (hev : EventAt (h ++ [e]) ev stream) :
    EventAt h ev stream ∨
      (ev.serial = h.length ∧ e.controls = some stream ∧ e.completion h.length = some ev) := by
  obtain ⟨x, hx, hstream, hcompletion⟩ := hev
  obtain hold | ⟨hend, rfl⟩ := getElem?_concat_iff.mp hx
  · exact .inl ⟨x, hold, hstream, hcompletion⟩
  · exact .inr ⟨hend, hstream, hend ▸ hcompletion⟩

/-- An event that neither completes operations nor cleans a CTA up changes nothing about
the calls before it. -/
def Quiet (e : TimingEvent) : Prop := (∀ t, e ≠ .cycled t) ∧ ∀ hwCtaId, e ≠ .cleaned hwCtaId

theorem Quiet.reachedBy {h : List TimingEvent} {k c : Nat} (he : Quiet e) :
    ReachedBy (h ++ [e]) k c ↔ ReachedBy h k c := by
  rw [reachedBy_record]
  refine or_iff_left ?_
  rintro ⟨-, t, ht, -⟩
  exact he.1 t ht

theorem Quiet.cleaned {h : List TimingEvent} {k hwCtaId : Nat} (he : Quiet e) :
    Cleaned (h ++ [e]) hwCtaId k ↔ Cleaned h hwCtaId k := by
  rw [cleaned_record]
  exact or_iff_left fun hclean => he.2 hwCtaId hclean.2

theorem Quiet.due {h : List TimingEvent} (he : Quiet e) (hi : i ≤ h.length) :
    Due (h ++ [e]) i stream ↔ Due h i stream :=
  ⟨fun hdue => hdue.of_record hi he.1, fun hdue => hdue.record hi e⟩

/-- A new operation. -/
theorem Base.pushOp (h : u.Base) (stream : TimingStream) (kind : TimingOpKind) (d c : Nat) :
    (u.pushOp stream kind d c).Base := by
  have hquiet : Quiet (.enqueued stream c) := ⟨nofun, nofun⟩
  have hlt : ∀ op ∈ u.pendingOps, op.serial < u.history.length :=
    fun op hop => lt_length_of_getElem? (h.op_history op hop)
  have hcontrol : ∀ x ∈ u.controls, x.serial < u.history.length := by
    intro x hx
    obtain ⟨e, he, -⟩ := h.control_history x hx
    exact lt_length_of_getElem? he
  refine ⟨?_, ?_, ?_, ?_, ?_, ?_, ?_, ?_, ?_, h.control_nodup⟩
  · intro op hop
    obtain hold | rfl := mem_record.mp hop
    · exact getElem?_concat_iff.mpr (.inl (h.op_history op hold))
    · exact getElem?_concat_iff.mpr (.inr ⟨rfl, rfl⟩)
  · intro op hop
    apply hquiet.reachedBy.not.mpr
    obtain hold | rfl := mem_record.mp hop
    · exact h.op_unreached op hold
    · rintro ⟨m, t, hm, hcycle, -⟩
      have hend := lt_length_of_getElem? hcycle
      simp only at hm
      omega
  · intro op hop
    apply hquiet.cleaned.not.mpr
    obtain hold | rfl := mem_record.mp hop
    · exact h.op_clean op hold
    · exact not_cleaned_end (Nat.le_succ _)
  · intro k s c' hk hunreached hclean
    obtain hold | ⟨rfl, -⟩ := getElem?_concat_iff.mp hk
    · obtain ⟨op, hop, hserial⟩ := h.op_pending k s c' hold
        (hquiet.reachedBy.not.mp hunreached) (hquiet.cleaned.not.mp hclean)
      exact ⟨op, List.mem_append_left _ hop, hserial⟩
    · exact ⟨_, List.mem_append_right _ (List.mem_singleton_self _), rfl⟩
  · intro op hop
    simp only [Tcgen05Unit.pushOp, Function.update_apply]
    obtain hold | rfl := mem_record.mp hop
    · have hsequence := h.op_sequence op hold
      split
      · rename_i heq
        rw [heq] at hsequence
        exact hsequence.trans (Nat.le_succ _)
      · exact hsequence
    · rw [if_pos rfl]
  · intro x hx
    obtain ⟨e, he, hrest⟩ := h.control_history x hx
    exact ⟨e, getElem?_concat_iff.mpr (.inl he), hrest⟩
  · exact fun x hx => hquiet.cleaned.not.mpr (h.control_clean x hx)
  · intro x hx
    have hcutoff := h.control_cutoff x hx
    simp only [Tcgen05Unit.pushOp, Function.update_apply]
    split
    · rename_i heq
      rw [heq] at hcutoff
      exact hcutoff.trans (Nat.le_succ _)
    · exact hcutoff
  · intro x hx op hop heq
    obtain hold | rfl := mem_record.mp hop
    · exact h.control_order x hx op hold heq
    · have hcutoff := h.control_cutoff x hx
      have hserial := hcontrol x hx
      simp only at heq ⊢
      rw [← heq] at hcutoff
      omega

/-- A new control, with the last number of its stream as its cutoff. -/
theorem Base.addControl (h : u.Base) {c : PendingControl} (hquiet : Quiet e)
    (hops : u'.pendingOps = u.pendingOps) (hsequence : u'.nextSequence = u.nextSequence)
    (hhistory : u'.history = u.history ++ [e]) (hcontrols : u'.controls.Perm (c :: u.controls))
    (hserial : c.serial = u.history.length) (hcutoff : c.cutoff = u.nextSequence c.stream)
    (hstream : e.controls = some c.stream)
    (hevent : e.completion u.history.length = some c.event) : u'.Base := by
  have hmem : ∀ x, x ∈ u'.controls ↔ x = c ∨ x ∈ u.controls := by
    intro x
    rw [hcontrols.mem_iff, List.mem_cons]
  have hlt : ∀ op ∈ u.pendingOps, op.serial < u.history.length :=
    fun op hop => lt_length_of_getElem? (h.op_history op hop)
  refine ⟨?_, ?_, ?_, ?_, ?_, ?_, ?_, ?_, ?_, ?_⟩
  · rw [hops, hhistory]
    exact fun op hop => getElem?_concat_iff.mpr (.inl (h.op_history op hop))
  · rw [hops, hhistory]
    exact fun op hop => hquiet.reachedBy.not.mpr (h.op_unreached op hop)
  · rw [hops, hhistory]
    exact fun op hop => hquiet.cleaned.not.mpr (h.op_clean op hop)
  · rw [hops, hhistory]
    intro k s c' hk hunreached hclean
    obtain hold | ⟨-, rfl⟩ := getElem?_concat_iff.mp hk
    · exact h.op_pending k s c' hold (hquiet.reachedBy.not.mp hunreached)
        (hquiet.cleaned.not.mp hclean)
    · cases hstream
  · rw [hops, hsequence]
    exact h.op_sequence
  · rw [hhistory]
    intro x hx
    rcases (hmem x).mp hx with rfl | hold
    · exact ⟨e, getElem?_concat_iff.mpr (.inr ⟨hserial, rfl⟩), hstream, hserial ▸ hevent⟩
    · obtain ⟨e', he', hrest⟩ := h.control_history x hold
      exact ⟨e', getElem?_concat_iff.mpr (.inl he'), hrest⟩
  · rw [hhistory]
    intro x hx
    apply hquiet.cleaned.not.mpr
    rcases (hmem x).mp hx with rfl | hold
    · exact not_cleaned_end (by omega)
    · exact h.control_clean x hold
  · rw [hsequence]
    intro x hx
    rcases (hmem x).mp hx with rfl | hold
    · exact hcutoff.le
    · exact h.control_cutoff x hold
  · rw [hops]
    intro x hx op hop heq
    rcases (hmem x).mp hx with rfl | hold
    · have hsequence := h.op_sequence op hop
      have hbefore := hlt op hop
      rw [heq] at hsequence
      omega
    · exact h.control_order x hold op hop heq
  · rw [(hcontrols.map PendingControl.serial).nodup_iff, List.map_cons, List.nodup_cons]
    refine ⟨?_, h.control_nodup⟩
    intro hin
    obtain ⟨x, hx, hsame⟩ := List.mem_map.mp hin
    obtain ⟨e', he', -⟩ := h.control_history x hx
    have hend := lt_length_of_getElem? he'
    omega

/-- The operations whose completion cycle has come leave the queue. -/
theorem Base.complete (h : u.Base) (now : Nat) :
    Base { u with
      pendingOps := u.pendingOps.filter (fun op => decide (now < op.completionCycle))
      history := u.history ++ [TimingEvent.cycled now] } := by
  have hclean {k hwCtaId : Nat} :
      Cleaned (u.history ++ [TimingEvent.cycled now]) hwCtaId k ↔ Cleaned u.history hwCtaId k := by
    rw [cleaned_record]
    exact or_iff_left fun hfalse => nomatch hfalse.2
  have hstays {op : PendingOp}
      (hop : op ∈ u.pendingOps.filter (fun op => decide (now < op.completionCycle))) :
      op ∈ u.pendingOps ∧ now < op.completionCycle := by
    obtain ⟨hold, hlate⟩ := List.mem_filter.mp hop
    exact ⟨hold, of_decide_eq_true hlate⟩
  refine ⟨?_, ?_, ?_, ?_, ?_, ?_, ?_, h.control_cutoff, ?_, h.control_nodup⟩
  · exact fun op hop => getElem?_concat_iff.mpr (.inl (h.op_history op (hstays hop).1))
  · intro op hop hreached
    obtain ⟨hold, hlate⟩ := hstays hop
    obtain hbefore | ⟨-, t, ht, hle⟩ := reachedBy_record.mp hreached
    · exact h.op_unreached op hold hbefore
    · cases ht
      omega
  · exact fun op hop => hclean.not.mpr (h.op_clean op (hstays hop).1)
  · intro k s c hk hunreached hkclean
    obtain hold | ⟨-, hfalse⟩ := getElem?_concat_iff.mp hk
    · have hbefore : ¬ ReachedBy u.history k c :=
        fun hreached => hunreached (reachedBy_record.mpr (.inl hreached))
      obtain ⟨op, hop, rfl⟩ := h.op_pending k s c hold hbefore (hclean.not.mp hkclean)
      have hsame := (h.op_history op hop).symm.trans hold
      cases hsame
      refine ⟨op, List.mem_filter.mpr ⟨hop, decide_eq_true ?_⟩, rfl⟩
      by_contra hle
      apply hunreached
      exact reachedBy_record.mpr (.inr ⟨lt_length_of_getElem? hold, now, rfl, by omega⟩)
    · cases hfalse
  · exact fun op hop => h.op_sequence op (hstays hop).1
  · intro x hx
    obtain ⟨e, he, hrest⟩ := h.control_history x hx
    exact ⟨e, getElem?_concat_iff.mpr (.inl he), hrest⟩
  · exact fun x hx => hclean.not.mpr (h.control_clean x hx)
  · exact fun x hx op hop => h.control_order x hx op (hstays hop).1

theorem mem_cleanup_controls {hwCtaId : Nat} {c : PendingControl} :
    c ∈ (u.cleanupCta hwCtaId).controls ↔
      c ∈ u.controls ∧ c.stream.hwCtaId ≠ hwCtaId := by
  have hcontrols : (u.cleanupCta hwCtaId).controls =
      u.controls.filter (fun c => c.stream.hwCtaId != hwCtaId) := by
    unfold controls cleanupCta
    rw [List.filter_append, List.filter_map, List.filter_map]
    rfl
  rw [hcontrols, List.mem_filter, bne_iff_ne]

theorem mem_cleanup_ops {hwCtaId : Nat} {op : PendingOp} :
    op ∈ (u.cleanupCta hwCtaId).pendingOps ↔
      op ∈ u.pendingOps ∧ op.stream.hwCtaId ≠ hwCtaId := by
  unfold cleanupCta
  rw [List.mem_filter, bne_iff_ne]

theorem controls_cleanup_sublist (u : Tcgen05Unit) (hwCtaId : Nat) :
    (u.cleanupCta hwCtaId).controls.Sublist u.controls :=
  (List.filter_sublist.map _).append (List.filter_sublist.map _)

/-- A clean-up takes the operations and the controls of its CTA away. -/
theorem Base.cleanupCta (h : u.Base) (hwCtaId : Nat) : (u.cleanupCta hwCtaId).Base := by
  have hreached {k c : Nat} :
      ReachedBy (u.history ++ [TimingEvent.cleaned hwCtaId]) k c ↔ ReachedBy u.history k c := by
    rw [reachedBy_record]
    exact or_iff_left fun hfalse => nomatch hfalse.2
  have hclean {k other : Nat} (hother : other ≠ hwCtaId) :
      Cleaned (u.history ++ [TimingEvent.cleaned hwCtaId]) other k ↔ Cleaned u.history other k := by
    rw [cleaned_record]
    refine or_iff_left fun hfalse => ?_
    cases hfalse.2
    exact hother rfl
  have hsequence {s : TimingStream} (hother : s.hwCtaId ≠ hwCtaId) :
      (u.cleanupCta hwCtaId).nextSequence s = u.nextSequence s := if_neg hother
  refine ⟨?_, ?_, ?_, ?_, ?_, ?_, ?_, ?_, ?_, ?_⟩
  · intro op hop
    exact getElem?_concat_iff.mpr (.inl (h.op_history op (mem_cleanup_ops.mp hop).1))
  · intro op hop
    exact hreached.not.mpr (h.op_unreached op (mem_cleanup_ops.mp hop).1)
  · intro op hop
    obtain ⟨hold, hother⟩ := mem_cleanup_ops.mp hop
    exact (hclean hother).not.mpr (h.op_clean op hold)
  · intro k s c hk hunreached hkclean
    obtain hold | ⟨-, hfalse⟩ := getElem?_concat_iff.mp hk
    · have hother : s.hwCtaId ≠ hwCtaId := by
        rintro rfl
        exact hkclean (cleaned_record.mpr (.inr ⟨lt_length_of_getElem? hold, rfl⟩))
      obtain ⟨op, hop, rfl⟩ := h.op_pending k s c hold (hreached.not.mp hunreached)
        ((hclean hother).not.mp hkclean)
      have hsame := (h.op_history op hop).symm.trans hold
      cases hsame
      exact ⟨op, mem_cleanup_ops.mpr ⟨hop, hother⟩, rfl⟩
    · cases hfalse
  · intro op hop
    obtain ⟨hold, hother⟩ := mem_cleanup_ops.mp hop
    rw [hsequence hother]
    exact h.op_sequence op hold
  · intro x hx
    obtain ⟨e, he, hrest⟩ := h.control_history x (mem_cleanup_controls.mp hx).1
    exact ⟨e, getElem?_concat_iff.mpr (.inl he), hrest⟩
  · intro x hx
    obtain ⟨hold, hother⟩ := mem_cleanup_controls.mp hx
    exact (hclean hother).not.mpr (h.control_clean x hold)
  · intro x hx
    obtain ⟨hold, hother⟩ := mem_cleanup_controls.mp hx
    rw [hsequence hother]
    exact h.control_cutoff x hold
  · intro x hx op hop
    exact h.control_order x (mem_cleanup_controls.mp hx).1 op (mem_cleanup_ops.mp hop).1
  · exact h.control_nodup.sublist ((controls_cleanup_sublist u hwCtaId).map _)

/-- The events that a call pushes: those of the controls that are due with it and were not
due before. -/
structure Pushes (u u' : Tcgen05Unit) (pushed : List CompletionEvent) : Prop where
  once : (pushed.map CompletionEvent.serial).Nodup
  exactly : ∀ ev, ev ∈ pushed ↔ ∃ stream, EventAt u'.history ev stream ∧
    ¬ Cleaned u'.history stream.hwCtaId ev.serial ∧ Due u'.history ev.serial stream ∧
      (ev.serial < u.history.length → ¬ Due u.history ev.serial stream)

/-- A call at which no control becomes due. -/
theorem Pushes.none (h : ∀ ev stream, EventAt u'.history ev stream →
    Due u'.history ev.serial stream →
      ev.serial < u.history.length ∧ Due u.history ev.serial stream) : Pushes u u' [] where
  once := List.nodup_nil
  exactly ev := by
    refine iff_of_false List.not_mem_nil ?_
    rintro ⟨stream, hev, -, hdue, hfirst⟩
    obtain ⟨hlt, hbefore⟩ := h ev stream hev hdue
    exact hfirst hlt hbefore

/-- The resolution of the controls, after a call that may make some of them due. -/
theorem Base.resolve (h : u'.Base)
    (hfirst : ∀ c ∈ u'.controls, c.serial < u.history.length →
      ¬ Due u.history c.serial c.stream)
    (hpending : ∀ (i : Nat) e stream, u'.history[i]? = some e → e.controls = some stream →
      (i < u.history.length → ¬ Due u.history i stream) →
        ¬ Cleaned u'.history stream.hwCtaId i → ∃ c ∈ u'.controls, c.serial = i)
    (hgrow : ∀ (i : Nat) stream, i < u.history.length → Due u.history i stream →
      Due u'.history i stream)
    (hevents : ∀ ev ∈ u'.completionEvents, ∃ stream, EventAt u'.history ev stream ∧
      ¬ Cleaned u'.history stream.hwCtaId ev.serial) :
    u'.resolveControls.Tracks ∧ ∃ pushed,
      u'.resolveControls.completionEvents = u'.completionEvents ++ pushed ∧
        Pushes u u'.resolveControls pushed := by
  have hpushed : ∀ ev, ev ∈ (u'.controls.filter u'.satisfied).map PendingControl.event ↔
      ∃ stream, EventAt u'.history ev stream ∧
        ¬ Cleaned u'.history stream.hwCtaId ev.serial ∧ Due u'.history ev.serial stream ∧
          (ev.serial < u.history.length → ¬ Due u.history ev.serial stream) := by
    intro ev
    constructor
    · intro hev
      obtain ⟨c, hc, rfl⟩ := List.mem_map.mp hev
      obtain ⟨hc, hsatisfied⟩ := List.mem_filter.mp hc
      obtain ⟨e, he, hstream, hcompletion⟩ := h.control_history c hc
      have hserial := completion_serial hcompletion
      refine ⟨c.stream, ⟨e, by rwa [hserial], hstream, by rwa [hserial]⟩, ?_, ?_, ?_⟩
      · rw [hserial]
        exact h.control_clean c hc
      · rw [hserial]
        exact (h.satisfied_iff hc).mp hsatisfied
      · rw [hserial]
        exact hfirst c hc
    · rintro ⟨stream, ⟨e, he, hstream, hcompletion⟩, hclean, hdue, hnew⟩
      obtain ⟨c, hc, hserial⟩ := hpending ev.serial e stream he hstream hnew hclean
      obtain ⟨e', he', hstream', hcompletion'⟩ := h.control_history c hc
      rw [hserial] at he' hcompletion'
      cases he.symm.trans he'
      cases hstream.symm.trans hstream'
      cases hcompletion.symm.trans hcompletion'
      refine List.mem_map.mpr ⟨c, List.mem_filter.mpr ⟨hc, (h.satisfied_iff hc).mpr ?_⟩, rfl⟩
      rw [hserial]
      exact hdue
  have hsub : u'.resolveControls.controls.Sublist u'.controls := by
    rw [resolveControls_controls]
    exact List.filter_sublist
  refine ⟨⟨⟨h.op_history, h.op_unreached, h.op_clean, h.op_pending, h.op_sequence,
    fun c hc => h.control_history c (hsub.subset hc),
    fun c hc => h.control_clean c (hsub.subset hc),
    fun c hc => h.control_cutoff c (hsub.subset hc),
    fun c hc => h.control_order c (hsub.subset hc),
    h.control_nodup.sublist (hsub.map _)⟩, ?_, ?_, ?_⟩, _, resolveControls_events u', ?_, hpushed⟩
  · intro c hc hdue
    rw [resolveControls_controls] at hc
    obtain ⟨hold, hunsatisfied⟩ := List.mem_filter.mp hc
    rw [(h.satisfied_iff hold).mpr hdue] at hunsatisfied
    cases hunsatisfied
  · intro i e stream he hstream hdue hclean
    obtain ⟨c, hc, rfl⟩ := hpending i e stream he hstream
      (fun hlt hbefore => hdue (hgrow i stream hlt hbefore)) hclean
    refine ⟨c, ?_, rfl⟩
    rw [resolveControls_controls, List.mem_filter]
    obtain ⟨e', he', hstream', -⟩ := h.control_history c hc
    cases he.symm.trans he'
    cases hstream.symm.trans hstream'
    have hunsatisfied : u'.satisfied c = false :=
      Bool.eq_false_iff.mpr fun hsatisfied => hdue ((h.satisfied_iff hc).mp hsatisfied)
    exact ⟨hc, by rw [hunsatisfied]; rfl⟩
  · intro ev hev
    rw [resolveControls_events] at hev
    rcases List.mem_append.mp hev with hold | hnew
    · exact hevents ev hold
    · obtain ⟨stream, hat, hclean, -⟩ := (hpushed ev).mp hnew
      exact ⟨stream, hat, hclean⟩
  · have hserials : ∀ c ∈ u'.controls.filter u'.satisfied,
        (CompletionEvent.serial ∘ PendingControl.event) c = c.serial := by
      intro c hc
      obtain ⟨e, -, -, hcompletion⟩ := h.control_history c (List.mem_filter.mp hc).1
      exact completion_serial hcompletion
    rw [List.map_map, List.map_congr_left hserials]
    exact h.control_nodup.sublist (List.filter_sublist.map _)

theorem Tracks.congr (h : u.Tracks) (hops : u'.pendingOps = u.pendingOps)
    (hcontrols : u'.controls = u.controls) (hsequence : u'.nextSequence = u.nextSequence)
    (hhistory : u'.history = u.history) (hevents : u'.completionEvents = u.completionEvents) :
    u'.Tracks := by
  obtain ⟨⟨h₁, h₂, h₃, h₄, h₅, h₆, h₇, h₈, h₉, h₁₀⟩, h₁₁, h₁₂, h₁₃⟩ := h
  rw [← hops] at h₁ h₂ h₃ h₄ h₅ h₉
  rw [← hcontrols] at h₆ h₇ h₈ h₉ h₁₀ h₁₁ h₁₂
  rw [← hsequence] at h₅ h₈
  rw [← hhistory] at h₁ h₂ h₃ h₄ h₆ h₇ h₁₁ h₁₂ h₁₃
  rw [← hevents] at h₁₃
  exact ⟨⟨h₁, h₂, h₃, h₄, h₅, h₆, h₇, h₈, h₉, h₁₀⟩, h₁₁, h₁₂, h₁₃⟩

theorem Tracks.control_lt (h : u.Tracks) {c : PendingControl} (hc : c ∈ u.controls) :
    c.serial < u.history.length := by
  obtain ⟨e, he, -⟩ := h.control_history c hc
  exact lt_length_of_getElem? he

/-- The events of before stay those of controls that were not cleaned up. -/
theorem Tracks.events_record (h : u.Tracks) (hclean : ∀ hwCtaId, e ≠ .cleaned hwCtaId) :
    ∀ ev ∈ u.completionEvents, ∃ stream, EventAt (u.history ++ [e]) ev stream ∧
      ¬ Cleaned (u.history ++ [e]) stream.hwCtaId ev.serial := by
  intro ev hev
  obtain ⟨stream, hat, hnot⟩ := h.event_clean ev hev
  refine ⟨stream, hat.record e, ?_⟩
  rw [cleaned_record]
  rintro (hold | ⟨-, hnow⟩)
  · exact hnot hold
  · exact hclean _ hnow

/-- The controls of before, after a call that adds none. -/
theorem pending_record (h : u.Tracks) (hnone : e.controls = none) (i : Nat) (x : TimingEvent)
    (stream : TimingStream) (hx : (u.history ++ [e])[i]? = some x)
    (hstream : x.controls = some stream) (hdue : i < u.history.length → ¬ Due u.history i stream)
    (hnot : ¬ Cleaned (u.history ++ [e]) stream.hwCtaId i) : ∃ c ∈ u.controls, c.serial = i := by
  obtain hold | ⟨-, rfl⟩ := getElem?_concat_iff.mp hx
  · apply h.control_pending i x stream hold hstream (hdue (lt_length_of_getElem? hold))
    exact fun hbefore => hnot (cleaned_record.mpr (.inl hbefore))
  · rw [hnone] at hstream
    cases hstream

theorem Tracks.pushOp (h : u.Tracks) (stream : TimingStream) (kind : TimingOpKind) (d c : Nat) :
    (u.pushOp stream kind d c).Tracks ∧ Pushes u (u.pushOp stream kind d c) [] := by
  have hquiet : Quiet (.enqueued stream c) := ⟨nofun, nofun⟩
  refine ⟨⟨h.toBase.pushOp stream kind d c, ?_, ?_, h.events_record hquiet.2⟩, .none ?_⟩
  · exact fun x hx => (hquiet.due (h.control_lt hx).le).not.mpr (h.control_waiting x hx)
  · intro i e s he hs hdue hclean
    refine pending_record h rfl i e s he hs (fun hlt => ?_) hclean
    exact (hquiet.due hlt.le).not.mp hdue
  · intro ev s hat hdue
    obtain hold | ⟨-, hnone, -⟩ := hat.of_record
    · exact ⟨hold.lt, (hquiet.due hold.lt.le).mp hdue⟩
    · cases hnone

/-- The unit with a new control, before anything is resolved. -/
theorem Tracks.addControl_pending (h : u.Tracks) {c : PendingControl}
    (hcontrols : u'.controls.Perm (c :: u.controls)) (hserial : c.serial = u.history.length)
    (i : Nat) (x : TimingEvent) (stream : TimingStream)
    (hx : (u.history ++ [e])[i]? = some x) (hstream : x.controls = some stream)
    (hdue : i < u.history.length → ¬ Due u.history i stream)
    (hclean : ¬ Cleaned (u.history ++ [e]) stream.hwCtaId i) :
    ∃ c ∈ u'.controls, c.serial = i := by
  obtain hold | ⟨rfl, -⟩ := getElem?_concat_iff.mp hx
  · obtain ⟨x', hmem, hsame⟩ := h.control_pending i x stream hold hstream
      (hdue (lt_length_of_getElem? hold))
      (fun hbefore => hclean (cleaned_record.mpr (.inl hbefore)))
    exact ⟨x', hcontrols.mem_iff.mpr (List.mem_cons_of_mem _ hmem), hsame⟩
  · exact ⟨c, hcontrols.mem_iff.mpr List.mem_cons_self, hserial⟩

theorem Tracks.commit (h : u.Tracks) (stream : ThreadStreamKey) (mbarrierAddr : Nat) :
    (u.commit stream mbarrierAddr).Tracks ∧ ∃ pushed,
      (u.commit stream mbarrierAddr).completionEvents = u.completionEvents ++ pushed ∧
        Pushes u (u.commit stream mbarrierAddr) pushed := by
  let c : PendingCommit :=
    { stream := stream
      cutoff := u.nextSequence (.thread stream)
      mbarrierAddr := mbarrierAddr
      serial := u.history.length }
  let u₁ : Tcgen05Unit := { u with
    pendingCommits := u.pendingCommits ++ [c]
    history := u.history ++ [TimingEvent.committed stream mbarrierAddr] }
  have hquiet : Quiet (.committed stream mbarrierAddr) := ⟨nofun, nofun⟩
  have hperm : u₁.controls.Perm (c.control :: u.controls) := by
    unfold controls
    rw [List.map_append, List.append_assoc]
    exact List.perm_middle
  have hbase : u₁.Base := h.toBase.addControl hquiet rfl rfl rfl hperm rfl rfl rfl rfl
  refine hbase.resolve ?_ ?_ ?_ ?_
  · intro x hx hlt
    rcases List.mem_cons.mp (hperm.mem_iff.mp hx) with rfl | hold
    · exact absurd hlt (lt_irrefl _)
    · exact h.control_waiting x hold
  · exact fun i e s he hs hdue hclean => h.addControl_pending hperm rfl i e s he hs hdue hclean
  · exact fun i s hi hdue => hdue.record hi.le _
  · exact h.events_record hquiet.2

/-- The answer of a wait. -/
theorem Base.cutoffSatisfied_iff_complete (h : u.Base) (stream : TimingStream) :
    u.cutoffSatisfied stream (u.nextSequence stream) = true ↔
      ¬ Incomplete u.history stream := by
  rw [cutoffSatisfied_iff]
  constructor
  · rintro hall ⟨k, c, hk, hclean, hunreached⟩
    obtain ⟨op, hop, rfl⟩ := h.op_pending k stream c hk hunreached hclean
    have hsame := (h.op_history op hop).symm.trans hk
    cases hsame
    exact hall op hop rfl (h.op_sequence op hop)
  · rintro hnone op hop rfl
    exact absurd ⟨op.serial, op.completionCycle, h.op_history op hop, h.op_clean op hop,
      h.op_unreached op hop⟩ hnone

theorem Tracks.wait (h : u.Tracks) (stream : WarpStreamKey) (kind : TimingOpKind) :
    (u.wait stream kind).2.Tracks ∧
      (u.wait stream kind).2.completionEvents = u.completionEvents ∧
      Pushes u (u.wait stream kind).2 [] ∧
      ((u.wait stream kind).1 = true ↔ ¬ Incomplete u.history (.warp stream kind)) := by
  have hanswer := h.cutoffSatisfied_iff_complete (.warp stream kind)
  unfold Tcgen05Unit.wait
  by_cases hsatisfied : u.cutoffSatisfied (.warp stream kind)
      (u.nextSequence (.warp stream kind)) = true
  · simp only [if_pos hsatisfied]
    exact ⟨h, trivial, .none fun ev s hat hdue => ⟨hat.lt, hdue⟩,
      iff_of_true trivial (hanswer.mp hsatisfied)⟩
  · simp only [if_neg hsatisfied]
    let w : PendingWait :=
      { stream := stream
        kind := kind
        cutoff := u.nextSequence (.warp stream kind)
        serial := u.history.length }
    let u₁ : Tcgen05Unit := { u with
      pendingWaits := u.pendingWaits ++ [w]
      history := u.history ++ [TimingEvent.waited stream kind] }
    have hquiet : Quiet (.waited stream kind) := ⟨nofun, nofun⟩
    have hperm : u₁.controls.Perm (w.control :: u.controls) := by
      unfold controls
      rw [List.map_append, ← List.append_assoc]
      exact List.perm_append_singleton _ _
    have hbase : u₁.Base := h.toBase.addControl hquiet rfl rfl rfl hperm rfl rfl rfl rfl
    have hnot : ¬ Due u₁.history u.history.length (.warp stream kind) :=
      fun hdue => hsatisfied ((hbase.satisfied_iff
        (hperm.mem_iff.mpr List.mem_cons_self)).mpr hdue)
    refine ⟨⟨hbase, ?_, ?_, h.events_record hquiet.2⟩, trivial, .none ?_, ?_⟩
    · intro x hx
      rcases List.mem_cons.mp (hperm.mem_iff.mp hx) with rfl | hold
      · exact hnot
      · exact (hquiet.due (h.control_lt hold).le).not.mpr (h.control_waiting x hold)
    · intro i e s he hs hdue hclean
      refine h.addControl_pending hperm rfl i e s he hs (fun hlt => ?_) hclean
      exact (hquiet.due hlt.le).not.mp hdue
    · intro ev s hat hdue
      obtain hold | ⟨hend, hstream, -⟩ := hat.of_record
      · exact ⟨hold.lt, (hquiet.due hold.lt.le).mp hdue⟩
      · cases hstream
        exact absurd (hend ▸ hdue) hnot
    · exact iff_of_false nofun (hanswer.not.mp hsatisfied)

theorem Tracks.cycle (h : u.Tracks) (now : Nat) :
    (u.cycle now).Tracks ∧ ∃ pushed,
      (u.cycle now).completionEvents = u.completionEvents ++ pushed ∧
        Pushes u (u.cycle now) pushed := by
  unfold Tcgen05Unit.cycle
  refine (h.toBase.complete now).resolve ?_ ?_ ?_ ?_
  · exact fun c hc _ => h.control_waiting c hc
  · exact fun i e s he hs hdue hclean => pending_record h rfl i e s he hs hdue hclean
  · exact fun i s hi hdue => hdue.record hi.le _
  · exact h.events_record nofun

theorem EventAt.hwCtaId_eq {h : List TimingEvent} (hev : EventAt h ev stream) :
    ev.hwCtaId = stream.hwCtaId := by
  obtain ⟨e, -, hstream, hcompletion⟩ := hev
  cases e with
  | committed s mbarrierAddr =>
    cases hstream
    rw [← Option.some.inj hcompletion]
    rfl
  | waited s kind =>
    cases hstream
    rw [← Option.some.inj hcompletion]
    rfl
  | _ => cases hstream

/-- A clean-up, once the events of its CTA are taken. -/
theorem Tracks.cleanupCta (h : u.Tracks) {hwCtaId : Nat}
    (htaken : ∀ ev ∈ u.completionEvents, ev.hwCtaId ≠ hwCtaId) :
    (u.cleanupCta hwCtaId).Tracks ∧ Pushes u (u.cleanupCta hwCtaId) [] := by
  refine ⟨⟨h.toBase.cleanupCta hwCtaId, ?_, ?_, ?_⟩, .none ?_⟩
  · intro c hc hdue
    have hold := (mem_cleanup_controls.mp hc).1
    exact h.control_waiting c hold (hdue.of_record (h.control_lt hold).le nofun)
  · intro i e s he hs hdue hclean
    obtain ⟨c, hc, rfl⟩ := pending_record h rfl i e s he hs
      (fun hlt hbefore => hdue (hbefore.record hlt.le _)) hclean
    refine ⟨c, mem_cleanup_controls.mpr ⟨hc, ?_⟩, rfl⟩
    intro heq
    obtain ⟨e', he', hstream, -⟩ := h.control_history c hc
    obtain hold | ⟨hend, -⟩ := getElem?_concat_iff.mp he
    · cases he'.symm.trans hold
      cases hstream.symm.trans hs
      exact hclean (cleaned_record.mpr (.inr ⟨h.control_lt hc, congrArg _ heq.symm⟩))
    · exact absurd hend (h.control_lt hc).ne
  · intro ev hev
    obtain ⟨s, hat, hclean⟩ := h.event_clean ev hev
    refine ⟨s, hat.record _, ?_⟩
    change ¬ Cleaned (u.history ++ [TimingEvent.cleaned hwCtaId]) s.hwCtaId ev.serial
    rw [cleaned_record]
    rintro (hbefore | ⟨-, hnow⟩)
    · exact hclean hbefore
    · cases hnow
      exact htaken ev hev hat.hwCtaId_eq
  · intro ev s hat hdue
    obtain hold | ⟨-, hnone, -⟩ := hat.of_record
    · exact ⟨hold.lt, hdue.of_record hold.lt.le nofun⟩
    · cases hnone

theorem Tracks.take (h : u.Tracks) :
    u.takeCompletionEvents.2.Tracks ∧ Pushes u u.takeCompletionEvents.2 [] := by
  refine ⟨⟨⟨h.op_history, h.op_unreached, h.op_clean, h.op_pending, h.op_sequence,
    h.control_history, h.control_clean, h.control_cutoff, h.control_order, h.control_nodup⟩,
    h.control_waiting, h.control_pending, nofun⟩, .none fun ev s hat hdue => ⟨hat.lt, hdue⟩⟩

/-- A call of the unit. -/
inductive TimingCall
  | enqueueThreadOp (stream : ThreadStreamKey) (op : TimingOp) (cycle : Nat)
  | enqueueWarpMemOp (stream : WarpStreamKey) (op : TimingOp) (cycle : Nat)
  | commit (stream : ThreadStreamKey) (mbarrierAddr : Nat)
  | waitLd (stream : WarpStreamKey)
  | waitSt (stream : WarpStreamKey)
  | cycle (now : Nat)
  | takeCompletionEvents
  | cleanupCta (hwCtaId : Nat)

def step (u : Tcgen05Unit) : TimingCall → Except TimingFailure Tcgen05Unit
  | .enqueueThreadOp stream op cycle => u.enqueueThreadOp stream op cycle
  | .enqueueWarpMemOp stream op cycle => u.enqueueWarpMemOp stream op cycle
  | .commit stream mbarrierAddr => .ok (u.commit stream mbarrierAddr)
  | .waitLd stream => .ok (u.waitLd stream).2
  | .waitSt stream => .ok (u.waitSt stream).2
  | .cycle now => .ok (u.cycle now)
  | .takeCompletionEvents => .ok u.takeCompletionEvents.2
  | .cleanupCta hwCtaId => .ok (u.cleanupCta hwCtaId)

/-- The events that are left of those of before. -/
def TimingCall.keeps (events : List CompletionEvent) : TimingCall → List CompletionEvent
  | .takeCompletionEvents => []
  | _ => events

/-- The events of a CTA are taken before its clean-up. -/
def Taken (u : Tcgen05Unit) : TimingCall → Prop
  | .cleanupCta hwCtaId => ∀ ev ∈ u.completionEvents, ev.hwCtaId ≠ hwCtaId
  | _ => True

/-- Each event that waits to be taken is that of a commit or a wait whose CTA was not
cleaned up since. -/
def Deliverable (u : Tcgen05Unit) : Prop :=
  ∀ ev ∈ u.completionEvents, ∃ stream, EventAt u.history ev stream ∧
    ¬ Cleaned u.history stream.hwCtaId ev.serial

/-- A call pushes the events of the commits and waits that are due with it for the first
time, and a wait returns true if none of its operations is incomplete. -/
def Prompt (u : Tcgen05Unit) (call : TimingCall) : Prop :=
  (∀ u', u.step call = .ok u' → ∃ pushed,
    u'.completionEvents = call.keeps u.completionEvents ++ pushed ∧ Pushes u u' pushed) ∧
  (∀ stream, call = .waitLd stream →
    ((u.waitLd stream).1 = true ↔ ¬ Incomplete u.history (.warp stream .ld))) ∧
  ∀ stream, call = .waitSt stream →
    ((u.waitSt stream).1 = true ↔ ¬ Incomplete u.history (.warp stream .st))

theorem Tracks.enqueueFixed (h : u.Tracks) (stream : TimingStream) (op : TimingOp) (cycle : Nat) :
    (u.enqueueFixed stream op cycle).Tracks ∧ Pushes u (u.enqueueFixed stream op cycle) [] := by
  obtain ⟨htracks, hpushes⟩ := h.pushOp stream op.kind (add64 cycle op.completionLatency)
    (add64 cycle op.completionLatency)
  exact ⟨htracks.congr rfl rfl rfl rfl rfl, hpushes.once, hpushes.exactly⟩

theorem Tracks.enqueueMma (h : u.Tracks) (stream : ThreadStreamKey) (work cycle : Nat) :
    (u.enqueueMma stream work cycle).Tracks ∧ Pushes u (u.enqueueMma stream work cycle) [] := by
  obtain ⟨htracks, hpushes⟩ := h.pushOp (.thread stream) .mma _ _
  exact ⟨htracks.congr rfl rfl rfl rfl rfl, hpushes.once, hpushes.exactly⟩

/-- A call keeps what is under way in line with the history, and pushes what is due. -/
theorem Tracks.step (h : u.Tracks) {call : TimingCall} (htaken : u.Taken call)
    (hstep : u.step call = .ok u') :
    u'.Tracks ∧ ∃ pushed, u'.completionEvents = call.keeps u.completionEvents ++ pushed ∧
      Pushes u u' pushed := by
  cases call with
  | enqueueThreadOp stream op cycle =>
    obtain ⟨-, -, hstep⟩ := bind_eq_ok hstep
    obtain ⟨-, -, hstep⟩ := bind_eq_ok hstep
    split at hstep
    · obtain ⟨-, -, hstep⟩ := bind_eq_ok hstep
      cases hstep
      obtain ⟨htracks, hpushes⟩ := h.enqueueMma stream op.work cycle
      exact ⟨htracks, [], (List.append_nil _).symm, hpushes⟩
    · obtain ⟨-, -, hstep⟩ := bind_eq_ok hstep
      cases hstep
      obtain ⟨htracks, hpushes⟩ := h.enqueueFixed (.thread stream) op cycle
      exact ⟨htracks, [], (List.append_nil _).symm, hpushes⟩
  | enqueueWarpMemOp stream op cycle =>
    obtain ⟨-, -, hstep⟩ := bind_eq_ok hstep
    obtain ⟨-, -, hstep⟩ := bind_eq_ok hstep
    obtain ⟨-, -, hstep⟩ := bind_eq_ok hstep
    cases hstep
    obtain ⟨htracks, hpushes⟩ := h.enqueueFixed (.warp stream op.kind) op cycle
    exact ⟨htracks, [], (List.append_nil _).symm, hpushes⟩
  | commit stream mbarrierAddr =>
    cases hstep
    exact h.commit stream mbarrierAddr
  | waitLd stream =>
    cases hstep
    obtain ⟨htracks, hevents, hpushes, -⟩ := h.wait stream .ld
    exact ⟨htracks, [], hevents.trans (List.append_nil _).symm, hpushes⟩
  | waitSt stream =>
    cases hstep
    obtain ⟨htracks, hevents, hpushes, -⟩ := h.wait stream .st
    exact ⟨htracks, [], hevents.trans (List.append_nil _).symm, hpushes⟩
  | cycle now =>
    cases hstep
    exact h.cycle now
  | takeCompletionEvents =>
    cases hstep
    exact ⟨h.take.1, [], rfl, h.take.2⟩
  | cleanupCta hwCtaId =>
    cases hstep
    obtain ⟨htracks, hpushes⟩ := h.cleanupCta htaken
    exact ⟨htracks, [], (List.append_nil _).symm, hpushes⟩

theorem tracks_init (config : TimingConfig) : Tracks { config := config } where
  op_history := List.forall_mem_nil _
  op_unreached := List.forall_mem_nil _
  op_clean := List.forall_mem_nil _
  op_pending := by simp
  op_sequence := List.forall_mem_nil _
  control_history := List.forall_mem_nil _
  control_clean := List.forall_mem_nil _
  control_cutoff := List.forall_mem_nil _
  control_order := List.forall_mem_nil _
  control_nodup := List.nodup_nil
  control_waiting := List.forall_mem_nil _
  control_pending := by simp
  event_clean := List.forall_mem_nil _

instance (u : Tcgen05Unit) (call : TimingCall) : Decidable (u.Taken call) := by
  unfold Taken
  split <;> infer_instance

end Tcgen05Unit

end FlashGpuSim
