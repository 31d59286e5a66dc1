import Mathlib.Data.List.Nodup
import Mathlib.Data.List.Perm.Basic

/-!
Requests and responses as tokens. Every open item has one token, among the requests
or among the responses, unless its kind is accounted for in another way once its
request was served. Besides the responses of items there may be loose ones.
-/

namespace Lib

universe u v

variable {ι : Type u} {κ : Type v}

/-- `holds` is the tokens of the open items, `loose` those that belong to none. -/
structure Carried (counted : κ → Bool) (holds loose : ι × κ → Prop)
    (requests responses : List (ι × κ)) : Prop where
  asked : ∀ token ∈ requests, holds token
  replied : ∀ token ∈ responses, (holds token ∨ loose token) ∧ counted token.2 = false
  once : ((requests ++ responses).map Prod.fst).Nodup
  carrier : ∀ token, holds token → counted token.2 = false → token ∈ requests ++ responses

namespace Carried

variable {counted : κ → Bool} {holds holds' loose loose' : ι × κ → Prop}
  {requests responses responses' ahead behind : List (ι × κ)} {token : ι × κ}

theorem empty (hnone : ∀ token, ¬ holds token) : Carried counted holds loose [] [] :=
  ⟨nofun, nofun, List.nodup_nil, fun token hholds _ => absurd hholds (hnone token)⟩

theorem mono (h : Carried counted holds loose requests responses)
    (hholds : ∀ token, holds' token ↔ holds token)
    (hloose : ∀ token ∈ responses, loose token → loose' token) :
    Carried counted holds' loose' requests responses := by
  refine ⟨?_, ?_, h.once, ?_⟩
  · intro token htoken
    exact (hholds token).mpr (h.asked token htoken)
  · intro token htoken
    obtain ⟨howner, hcounted⟩ := h.replied token htoken
    exact ⟨howner.imp (hholds token).mpr (hloose token htoken), hcounted⟩
  · intro token htoken
    exact h.carrier token ((hholds token).mp htoken)

theorem perm (h : Carried counted holds loose requests responses) (hperm : responses'.Perm responses) :
    Carried counted holds loose requests responses' := by
  refine ⟨h.asked, ?_, ?_, ?_⟩
  · exact fun token htoken => h.replied token (hperm.mem_iff.mp htoken)
  · exact (((hperm.append_left requests).map Prod.fst).nodup_iff).mpr h.once
  · intro token htoken hcounted
    exact (hperm.append_left requests).mem_iff.mpr (h.carrier token htoken hcounted)

/-- Two tokens of one item are the same token. -/
theorem fst_ne_of_cons {rest : List (ι × κ)} (h : ((token :: rest).map Prod.fst).Nodup)
    {other : ι × κ} (hother : other ∈ rest) : other.1 ≠ token.1 := by
  rw [List.map_cons, List.nodup_cons] at h
  intro heq
  apply h.1
  rw [← heq]
  exact List.mem_map_of_mem hother

/-! ### The steps -/

theorem issue (h : Carried counted holds loose (ahead ++ behind) responses)
    (hfresh : ∀ other ∈ ahead ++ behind ++ responses, other.1 ≠ token.1)
    (hholds : ∀ other, holds' other ↔ holds other ∨ other = token)
    (hloose : ∀ other ∈ responses, loose other → loose' other) :
    Carried counted holds' loose' (ahead ++ token :: behind) responses := by
  have hperm : (ahead ++ token :: behind ++ responses).Perm
      (token :: (ahead ++ behind ++ responses)) := by
    exact (List.perm_middle.append_right responses)
  refine ⟨?_, ?_, ?_, ?_⟩
  · intro other hother
    rw [hholds]
    rcases List.mem_cons.mp (List.perm_middle.mem_iff.mp hother) with rfl | hother
    · exact .inr rfl
    · exact .inl (h.asked other hother)
  · intro other hother
    obtain ⟨howner, hcounted⟩ := h.replied other hother
    exact ⟨howner.imp (fun hold => (hholds other).mpr (.inl hold)) (hloose other hother),
      hcounted⟩
  · rw [(hperm.map Prod.fst).nodup_iff, List.map_cons, List.nodup_cons]
    refine ⟨?_, h.once⟩
    intro hmem
    obtain ⟨other, hother, heq⟩ := List.mem_map.mp hmem
    exact hfresh other hother heq
  · intro other hother hcounted
    apply hperm.mem_iff.mpr
    rcases (hholds other).mp hother with hold | rfl
    · exact List.mem_cons_of_mem _ (h.carrier other hold hcounted)
    · exact List.mem_cons_self

/-- A response that belongs to no item. -/
theorem notice (h : Carried counted holds loose requests responses)
    (hfresh : ∀ other ∈ requests ++ responses, other.1 ≠ token.1)
    (hloose : ∀ other, loose other → loose' other) (htoken : loose' token)
    (hcounted : counted token.2 = false) (hperm : responses'.Perm (token :: responses)) :
    Carried counted holds loose' requests responses' := by
  have hmiddle : (requests ++ token :: responses).Perm (token :: (requests ++ responses)) :=
    List.perm_middle
  suffices hcons : Carried counted holds loose' requests (token :: responses) from hcons.perm hperm
  refine ⟨h.asked, ?_, ?_, ?_⟩
  · intro other hother
    rcases List.mem_cons.mp hother with rfl | hother
    · exact ⟨.inr htoken, hcounted⟩
    · obtain ⟨howner, hcounted'⟩ := h.replied other hother
      exact ⟨howner.imp_right (hloose other), hcounted'⟩
  · rw [(hmiddle.map Prod.fst).nodup_iff, List.map_cons, List.nodup_cons]
    refine ⟨?_, h.once⟩
    intro hmem
    obtain ⟨other, hother, heq⟩ := List.mem_map.mp hmem
    exact hfresh other hother heq
  · intro other hother hcounted'
    exact hmiddle.mem_iff.mpr (List.mem_cons_of_mem _ (h.carrier other hother hcounted'))

/-- A request is served and becomes a response. -/
theorem answer (h : Carried counted holds loose (ahead ++ token :: behind) responses)
    (hcounted : counted token.2 = false) (hperm : responses'.Perm (token :: responses)) :
    Carried counted holds loose (ahead ++ behind) responses' := by
  have hmoved : (ahead ++ behind ++ token :: responses).Perm
      (ahead ++ token :: behind ++ responses) := by
    exact List.perm_middle.trans (List.perm_middle.append_right responses).symm
  suffices hcons : Carried counted holds loose (ahead ++ behind) (token :: responses) from
    hcons.perm hperm
  refine ⟨?_, ?_, ?_, ?_⟩
  · intro other hother
    apply h.asked
    exact List.perm_middle.mem_iff.mpr (List.mem_cons_of_mem _ hother)
  · intro other hother
    rcases List.mem_cons.mp hother with rfl | hother
    · exact ⟨.inl (h.asked other (List.mem_append_right _ List.mem_cons_self)), hcounted⟩
    · exact h.replied other hother
  · exact (hmoved.map Prod.fst).nodup_iff.mpr h.once
  · intro other hother hcounted'
    exact hmoved.mem_iff.mpr (h.carrier other hother hcounted')

/-- A request is served and its item is counted from now on. -/
theorem count (h : Carried counted holds loose (ahead ++ token :: behind) responses)
    (hcounted : counted token.2 = true) :
    Carried counted holds loose (ahead ++ behind) responses := by
  have hmiddle : (ahead ++ token :: behind ++ responses).Perm
      (token :: (ahead ++ behind ++ responses)) :=
    List.perm_middle.append_right responses
  refine ⟨?_, h.replied, ?_, ?_⟩
  · intro other hother
    apply h.asked
    exact List.perm_middle.mem_iff.mpr (List.mem_cons_of_mem _ hother)
  · have hall := (hmiddle.map Prod.fst).nodup_iff.mp h.once
    exact (List.nodup_cons.mp hall).2
  · intro other hother hcounted'
    have hmem := hmiddle.mem_iff.mp (h.carrier other hother hcounted')
    rcases List.mem_cons.mp hmem with rfl | hmem
    · rw [hcounted] at hcounted'
      cases hcounted'
    · exact hmem

/-- An item without a token is closed. -/
theorem close {id : ι} (h : Carried counted holds loose requests responses)
    (hgone : ∀ other ∈ requests ++ responses, other.1 ≠ id)
    (hholds : ∀ other, holds' other ↔ holds other ∧ other.1 ≠ id) :
    Carried counted holds' loose requests responses := by
  refine ⟨?_, ?_, h.once, ?_⟩
  · intro other hother
    exact (hholds other).mpr ⟨h.asked other hother, hgone other (List.mem_append_left _ hother)⟩
  · intro other hother
    obtain ⟨howner, hcounted⟩ := h.replied other hother
    have hne := hgone other (List.mem_append_right _ hother)
    exact ⟨howner.imp_left (fun hold => (hholds other).mpr ⟨hold, hne⟩), hcounted⟩
  · intro other hother hcounted
    exact h.carrier other ((hholds other).mp hother).1 hcounted

/-- An item is closed together with its request. -/
theorem close_asked (h : Carried counted holds loose (ahead ++ token :: behind) responses)
    (hholds : ∀ other, holds' other ↔ holds other ∧ other.1 ≠ token.1) :
    Carried counted holds' loose (ahead ++ behind) responses := by
  have hmiddle : (ahead ++ token :: behind ++ responses).Perm
      (token :: (ahead ++ behind ++ responses)) :=
    List.perm_middle.append_right responses
  have hnodup := (hmiddle.map Prod.fst).nodup_iff.mp h.once
  refine ⟨?_, ?_, (List.nodup_cons.mp hnodup).2, ?_⟩
  · intro other hother
    refine (hholds other).mpr ⟨h.asked other ?_, ?_⟩
    · exact List.perm_middle.mem_iff.mpr (List.mem_cons_of_mem _ hother)
    · exact fst_ne_of_cons hnodup (List.mem_append_left _ hother)
  · intro other hother
    obtain ⟨howner, hcounted⟩ := h.replied other hother
    have hne := fst_ne_of_cons hnodup (List.mem_append_right _ hother)
    exact ⟨howner.imp_left (fun hold => (hholds other).mpr ⟨hold, hne⟩), hcounted⟩
  · intro other hother hcounted
    obtain ⟨hold, hne⟩ := (hholds other).mp hother
    have hmem := hmiddle.mem_iff.mp (h.carrier other hold hcounted)
    rcases List.mem_cons.mp hmem with rfl | hmem
    · exact absurd rfl hne
    · exact hmem

/-- An item is closed together with its response, and a loose response ends. -/
theorem close_replied (h : Carried counted holds loose requests responses)
    (hperm : responses.Perm (token :: responses'))
    (hholds : ∀ other, holds' other ↔ holds other ∧ other.1 ≠ token.1) :
    Carried counted holds' loose requests responses' := by
  have hcons := h.perm hperm.symm
  have hmiddle : (requests ++ token :: responses').Perm (token :: (requests ++ responses')) :=
    List.perm_middle
  have hnodup := (hmiddle.map Prod.fst).nodup_iff.mp hcons.once
  refine ⟨?_, ?_, (List.nodup_cons.mp hnodup).2, ?_⟩
  · intro other hother
    refine (hholds other).mpr ⟨h.asked other hother, ?_⟩
    exact fst_ne_of_cons hnodup (List.mem_append_left _ hother)
  · intro other hother
    obtain ⟨howner, hcounted⟩ := hcons.replied other (List.mem_cons_of_mem _ hother)
    have hne := fst_ne_of_cons hnodup (List.mem_append_right _ hother)
    exact ⟨howner.imp_left (fun hold => (hholds other).mpr ⟨hold, hne⟩), hcounted⟩
  · intro other hother hcounted
    obtain ⟨hold, hne⟩ := (hholds other).mp hother
    have hmem := hmiddle.mem_iff.mp (hcons.carrier other hold hcounted)
    rcases List.mem_cons.mp hmem with rfl | hmem
    · exact absurd rfl hne
    · exact hmem

end Carried

end Lib
