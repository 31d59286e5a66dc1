import FlashGpuSim.Lib.History
import FlashGpuSim.Tcgen05.Timing

/-!
When a commit or a wait is due, as a fact about the calls so far: all operations that its
stream had before it, since the last clean-up of the CTA, have reached their completion
cycle. The unit decides this with sequence numbers and cutoffs.
-/

namespace FlashGpuSim

open Lib

/-- The stream whose operations a control depends on. -/
def TimingEvent.controls : TimingEvent → Option TimingStream
  | .committed stream _ => some (.thread stream)
  | .waited stream kind => some (.warp stream kind)
  | _ => none

/-- The completion event of the control at a place of the history. -/
def TimingEvent.completion (e : TimingEvent) (serial : Nat) : Option CompletionEvent :=
  match e with
  | .committed stream mbarrierAddr =>
    some (PendingCommit.event ⟨stream, 0, mbarrierAddr, serial⟩)
  | .waited stream kind => some (PendingWait.event ⟨stream, kind, 0, serial⟩)
  | _ => none

/-- Some `cycle` after place `k` has seen the completion cycle `c`. -/
def ReachedBy (h : List TimingEvent) (k c : Nat) : Prop :=
  ∃ m t, k < m ∧ h[m]? = some (.cycled t) ∧ c ≤ t

/-- The CTA was cleaned up after place `k`. -/
def Cleaned (h : List TimingEvent) (hwCtaId k : Nat) : Prop :=
  ∃ m, k < m ∧ h[m]? = some (.cleaned hwCtaId)

def CleanedBetween (h : List TimingEvent) (hwCtaId k i : Nat) : Prop :=
  ∃ m, k < m ∧ m < i ∧ h[m]? = some (.cleaned hwCtaId)

/-- The operations of a stream before place `i`, since the last clean-up of the CTA, have
reached their completion cycle. -/
def Due (h : List TimingEvent) (i : Nat) (stream : TimingStream) : Prop :=
  ∀ k c, k < i → h[k]? = some (.enqueued stream c) →
    ¬ CleanedBetween h stream.hwCtaId k i → ReachedBy h k c

/-- Some operation of a stream has not reached its completion cycle. -/
def Incomplete (h : List TimingEvent) (stream : TimingStream) : Prop :=
  ∃ k c, h[k]? = some (.enqueued stream c) ∧ ¬ Cleaned h stream.hwCtaId k ∧ ¬ ReachedBy h k c

section History

variable {h : List TimingEvent} {e x : TimingEvent} {i k m c hwCtaId : Nat}
  {stream : TimingStream}

theorem reachedBy_record :
    ReachedBy (h ++ [e]) k c ↔
      ReachedBy h k c ∨ (k < h.length ∧ ∃ t, e = .cycled t ∧ c ≤ t) := by
  constructor
  · rintro ⟨m, t, hkm, hm, hct⟩
    obtain hold | ⟨rfl, rfl⟩ := getElem?_concat_iff.mp hm
    · exact .inl ⟨m, t, hkm, hold, hct⟩
    · exact .inr ⟨hkm, t, rfl, hct⟩
  · rintro (⟨m, t, hkm, hm, hct⟩ | ⟨hk, t, rfl, hct⟩)
    · exact ⟨m, t, hkm, getElem?_concat_iff.mpr (.inl hm), hct⟩
    · exact ⟨h.length, t, hk, getElem?_concat_iff.mpr (.inr ⟨rfl, rfl⟩), hct⟩

theorem cleaned_record :
    Cleaned (h ++ [e]) hwCtaId k ↔
      Cleaned h hwCtaId k ∨ (k < h.length ∧ e = .cleaned hwCtaId) := by
  constructor
  · rintro ⟨m, hkm, hm⟩
    obtain hold | ⟨rfl, rfl⟩ := getElem?_concat_iff.mp hm
    · exact .inl ⟨m, hkm, hold⟩
    · exact .inr ⟨hkm, rfl⟩
  · rintro (⟨m, hkm, hm⟩ | ⟨hk, rfl⟩)
    · exact ⟨m, hkm, getElem?_concat_iff.mpr (.inl hm)⟩
    · exact ⟨h.length, hk, getElem?_concat_iff.mpr (.inr ⟨rfl, rfl⟩)⟩

theorem cleanedBetween_record (hi : i ≤ h.length) :
    CleanedBetween (h ++ [e]) hwCtaId k i ↔ CleanedBetween h hwCtaId k i := by
  constructor
  · rintro ⟨m, hkm, hmi, hm⟩
    obtain hold | ⟨rfl, -⟩ := getElem?_concat_iff.mp hm
    · exact ⟨m, hkm, hmi, hold⟩
    · omega
  · rintro ⟨m, hkm, hmi, hm⟩
    exact ⟨m, hkm, hmi, getElem?_concat_iff.mpr (.inl hm)⟩

/-- A control stays due. -/
theorem Due.record (hdue : Due h i stream) (hi : i ≤ h.length) (e : TimingEvent) :
    Due (h ++ [e]) i stream := by
  intro k c hki hk hclean
  obtain hold | ⟨rfl, -⟩ := getElem?_concat_iff.mp hk
  · rw [cleanedBetween_record hi] at hclean
    exact reachedBy_record.mpr (.inl (hdue k c hki hold hclean))
  · omega

/-- Only a cycle makes a control due after its call. -/
theorem Due.of_record (hdue : Due (h ++ [e]) i stream) (hi : i ≤ h.length)
    (he : ∀ t, e ≠ .cycled t) : Due h i stream := by
  intro k c hki hk hclean
  have hreached := hdue k c hki (getElem?_concat_iff.mpr (.inl hk))
    (fun hbetween => hclean ((cleanedBetween_record hi).mp hbetween))
  obtain hold | ⟨-, t, ht, -⟩ := reachedBy_record.mp hreached
  · exact hold
  · exact absurd ht (he t)

theorem lt_length_of_getElem? (hx : h[i]? = some x) : i < h.length :=
  (List.getElem?_eq_some_iff.mp hx).1

/-- Nothing is behind the end of the history. -/
theorem not_cleaned_end (hk : h.length ≤ k + 1) : ¬ Cleaned h hwCtaId k := by
  rintro ⟨m, hkm, hm⟩
  have hlt := lt_length_of_getElem? hm
  omega

end History

/-- A pending commit or wait. -/
structure PendingControl where
  stream : TimingStream
  cutoff : Nat
  serial : Nat
  event : CompletionEvent

def PendingCommit.control (c : PendingCommit) : PendingControl :=
  ⟨.thread c.stream, c.cutoff, c.serial, c.event⟩

def PendingWait.control (w : PendingWait) : PendingControl :=
  ⟨.warp w.stream w.kind, w.cutoff, w.serial, w.event⟩

namespace Tcgen05Unit

/-- The pending controls, in the order in which `resolve_controls` looks at them. -/
def controls (u : Tcgen05Unit) : List PendingControl :=
  u.pendingCommits.map PendingCommit.control ++ u.pendingWaits.map PendingWait.control

def satisfied (u : Tcgen05Unit) (c : PendingControl) : Bool := u.cutoffSatisfied c.stream c.cutoff

theorem resolveControls_events (u : Tcgen05Unit) :
    u.resolveControls.completionEvents =
      u.completionEvents ++ (u.controls.filter u.satisfied).map PendingControl.event := by
  unfold resolveControls controls
  rw [List.filter_append, List.map_append, List.filter_map, List.filter_map, List.map_map,
    List.map_map]
  rfl

theorem resolveControls_controls (u : Tcgen05Unit) :
    u.resolveControls.controls = u.controls.filter (fun c => !u.satisfied c) := by
  unfold resolveControls controls
  rw [List.filter_append, List.filter_map, List.filter_map]
  rfl

/-- The operations and the controls that are under way, and the history. -/
structure Base (u : Tcgen05Unit) : Prop where
  op_history : ∀ op ∈ u.pendingOps,
    u.history[op.serial]? = some (.enqueued op.stream op.completionCycle)
  op_unreached : ∀ op ∈ u.pendingOps, ¬ ReachedBy u.history op.serial op.completionCycle
  op_clean : ∀ op ∈ u.pendingOps, ¬ Cleaned u.history op.stream.hwCtaId op.serial
  op_pending : ∀ (k : Nat) stream c, u.history[k]? = some (.enqueued stream c) →
    ¬ ReachedBy u.history k c → ¬ Cleaned u.history stream.hwCtaId k →
      ∃ op ∈ u.pendingOps, op.serial = k
  op_sequence : ∀ op ∈ u.pendingOps, op.sequence ≤ u.nextSequence op.stream
  control_history : ∀ c ∈ u.controls, ∃ e, u.history[c.serial]? = some e ∧
    e.controls = some c.stream ∧ e.completion c.serial = some c.event
  control_clean : ∀ c ∈ u.controls, ¬ Cleaned u.history c.stream.hwCtaId c.serial
  control_cutoff : ∀ c ∈ u.controls, c.cutoff ≤ u.nextSequence c.stream
  control_order : ∀ c ∈ u.controls, ∀ op ∈ u.pendingOps, op.stream = c.stream →
    (op.sequence ≤ c.cutoff ↔ op.serial < c.serial)
  control_nodup : (u.controls.map PendingControl.serial).Nodup

/-- The event of a control at a place of the history. -/
def EventAt (h : List TimingEvent) (ev : CompletionEvent) (stream : TimingStream) : Prop :=
  ∃ e, h[ev.serial]? = some e ∧ e.controls = some stream ∧ e.completion ev.serial = some ev

/-- Between two calls the pending controls are those that are not due. -/
structure Tracks (u : Tcgen05Unit) : Prop extends Base u where
  control_waiting : ∀ c ∈ u.controls, ¬ Due u.history c.serial c.stream
  control_pending : ∀ (i : Nat) e stream, u.history[i]? = some e → e.controls = some stream →
    ¬ Due u.history i stream → ¬ Cleaned u.history stream.hwCtaId i →
      ∃ c ∈ u.controls, c.serial = i
  event_clean : ∀ ev ∈ u.completionEvents, ∃ stream, EventAt u.history ev stream ∧
    ¬ Cleaned u.history stream.hwCtaId ev.serial

section

variable {u : Tcgen05Unit} {stream : TimingStream} {i : Nat}

/-- A control is due when no operation of its stream before it is under way. -/
theorem Base.due_iff (h : u.Base) (hi : ∀ hwCtaId, u.history[i]? ≠ some (.cleaned hwCtaId))
    (hclean : ¬ Cleaned u.history stream.hwCtaId i) :
    Due u.history i stream ↔ ∀ op ∈ u.pendingOps, op.stream = stream → ¬ op.serial < i := by
  constructor
  · rintro hdue op hop rfl hlt
    apply h.op_unreached op hop
    apply hdue op.serial op.completionCycle hlt (h.op_history op hop)
    rintro ⟨m, hkm, -, hm⟩
    exact h.op_clean op hop ⟨m, hkm, hm⟩
  · intro hnone k c hki hk hbetween
    by_contra hunreached
    have hkclean : ¬ Cleaned u.history stream.hwCtaId k := by
      rintro ⟨m, hkm, hm⟩
      rcases Nat.lt_trichotomy m i with hlt | rfl | hgt
      · exact hbetween ⟨m, hkm, hlt, hm⟩
      · exact hi _ hm
      · exact hclean ⟨m, hgt, hm⟩
    obtain ⟨op, hop, rfl⟩ := h.op_pending k stream c hk hunreached hkclean
    have hsame := (h.op_history op hop).symm.trans hk
    cases hsame
    exact hnone op hop rfl hki

theorem cutoffSatisfied_iff {cutoff : Nat} :
    u.cutoffSatisfied stream cutoff = true ↔
      ∀ op ∈ u.pendingOps, op.stream = stream → ¬ op.sequence ≤ cutoff := by
  unfold cutoffSatisfied
  rw [List.all_eq_true]
  simp [imp_iff_not_or]

theorem controls_not_cleaned {e : TimingEvent} (h : u.history[i]? = some e)
    (he : e.controls = some stream) (hwCtaId : Nat) :
    u.history[i]? ≠ some (.cleaned hwCtaId) := by
  rw [h]
  rintro ⟨⟩
  cases he

/-- The test of a control by its cutoff. -/
theorem Base.satisfied_iff (h : u.Base) {c : PendingControl} (hc : c ∈ u.controls) :
    u.satisfied c = true ↔ Due u.history c.serial c.stream := by
  obtain ⟨e, he, hstream, -⟩ := h.control_history c hc
  rw [h.due_iff (controls_not_cleaned he hstream) (h.control_clean c hc)]
  unfold satisfied
  rw [cutoffSatisfied_iff]
  constructor <;> intro hall op hop heq
  · exact fun hlt => hall op hop heq ((h.control_order c hc op hop heq).mpr hlt)
  · exact fun hle => hall op hop heq ((h.control_order c hc op hop heq).mp hle)

end

end Tcgen05Unit

end FlashGpuSim
