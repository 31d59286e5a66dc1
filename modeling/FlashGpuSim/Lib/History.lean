import Mathlib.Data.List.Basic

/-!
Histories: lists to which events are appended, and the part of them that a selection
keeps.
-/

namespace Lib

universe u v

variable {α : Type u} {β : Type v} {f : α → Option β} {log : List α} {e : α} {x : β}

theorem filterMap_concat_none (h : f e = none) : (log ++ [e]).filterMap f = log.filterMap f := by
  rw [List.filterMap_append, List.filterMap_cons_none h, List.filterMap_nil, List.append_nil]

theorem filterMap_concat_some (h : f e = some x) :
    (log ++ [e]).filterMap f = log.filterMap f ++ [x] := by
  rw [List.filterMap_append, List.filterMap_cons_some h, List.filterMap_nil]

/-- A selection that keeps no value twice keeps each value for one event only. -/
theorem eq_of_nodup_filterMap {e' : α} (h : (log.filterMap f).Nodup) (he : e ∈ log) (he' : e' ∈ log)
    (hx : f e = some x) (hx' : f e' = some x) : e = e' := by
  induction log with
  | nil => exact absurd he List.not_mem_nil
  | cons a log ih =>
    rcases List.mem_cons.mp he with rfl | hmem
    · rcases List.mem_cons.mp he' with rfl | hmem'
      · rfl
      · rw [List.filterMap_cons_some hx, List.nodup_cons] at h
        exact (h.1 (List.mem_filterMap.mpr ⟨e', hmem', hx'⟩)).elim
    · rcases List.mem_cons.mp he' with rfl | hmem'
      · rw [List.filterMap_cons_some hx', List.nodup_cons] at h
        exact (h.1 (List.mem_filterMap.mpr ⟨e, hmem, hx⟩)).elim
      · apply ih _ hmem hmem'
        exact h.sublist ((List.sublist_cons_self a log).filterMap f)

/-- A selection that keeps less. -/
theorem filterMap_sublist {g : α → Option β} (h : ∀ e x, f e = some x → g e = some x)
    (log : List α) : (log.filterMap f).Sublist (log.filterMap g) := by
  induction log with
  | nil => exact .slnil
  | cons a log ih =>
    cases hf : f a with
    | none =>
      rw [List.filterMap_cons_none hf]
      exact ih.trans ((List.sublist_cons_self a log).filterMap g)
    | some x =>
      rw [List.filterMap_cons_some hf, List.filterMap_cons_some (h a x hf)]
      exact ih.cons_cons x

/-- The events of a history that goes on, by their places. -/
theorem getElem?_concat_iff {a : α} {i : Nat} :
    (log ++ [e])[i]? = some a ↔ log[i]? = some a ∨ (i = log.length ∧ e = a) := by
  rw [List.getElem?_append]
  split
  · rename_i hlt
    constructor
    · exact .inl
    · rintro (hold | ⟨rfl, -⟩)
      · exact hold
      · omega
  · rename_i hge
    rw [List.getElem?_singleton, List.getElem?_eq_none (by omega)]
    constructor
    · intro hx
      split at hx
      · exact .inr ⟨by omega, Option.some.inj hx⟩
      · cases hx
    · rintro (hx | ⟨rfl, rfl⟩)
      · cases hx
      · rw [Nat.sub_self, if_pos rfl]

/-- Where an event of a history stands once another one is appended. -/
theorem split_concat {l₁ l₂ : List α} {e' : α} (h : log ++ [e] = l₁ ++ e' :: l₂) :
    (l₁ = log ∧ e' = e ∧ l₂ = []) ∨ ∃ l₂', l₂ = l₂' ++ [e] ∧ log = l₁ ++ e' :: l₂' := by
  rcases List.eq_nil_or_concat l₂ with rfl | ⟨l₂', x, rfl⟩
  · obtain ⟨hlog, he⟩ := List.append_inj' h rfl
    cases he
    exact .inl ⟨hlog.symm, rfl, rfl⟩
  · rw [List.concat_eq_append, ← List.cons_append, ← List.append_assoc] at h
    obtain ⟨hlog, he⟩ := List.append_inj' h rfl
    cases he
    exact .inr ⟨l₂', List.concat_eq_append, hlog⟩

/-- Where an event of a history stands once others are appended. -/
theorem split_append {l₁ l₂ es : List α} (h : log ++ es = l₁ ++ e :: l₂) :
    (∃ mid, l₁ = log ++ mid ∧ e ∈ es) ∨ ∃ l₂', log = l₁ ++ e :: l₂' := by
  rcases List.append_eq_append_iff.mp h with ⟨mid, hl₁, hes⟩ | ⟨mid, hlog, hl₂⟩
  · refine .inl ⟨mid, hl₁, ?_⟩
    rw [hes]
    exact List.mem_append_right _ List.mem_cons_self
  · cases mid with
    | nil =>
      refine .inl ⟨[], ?_, ?_⟩
      · rw [hlog, List.append_nil, List.append_nil]
      · rw [List.nil_append] at hl₂
        rw [← hl₂]
        exact List.mem_cons_self
    | cons e' mid =>
      obtain ⟨rfl, -⟩ := List.cons.inj hl₂
      exact .inr ⟨mid, hlog⟩

/-- A partner in a list paired with another one. -/
theorem exists_partner {r : α → β → Prop} {l : List α} {l' : List β} (h : List.Forall₂ r l l')
    (he : e ∈ l) : ∃ x ∈ l', r e x := by
  induction h with
  | nil => exact absurd he List.not_mem_nil
  | @cons a b l l' hab _ ih =>
    rcases List.mem_cons.mp he with rfl | he
    · exact ⟨b, List.mem_cons_self, hab⟩
    · obtain ⟨x, hx, hex⟩ := ih he
      exact ⟨x, List.mem_cons_of_mem _ hx, hex⟩

end Lib
