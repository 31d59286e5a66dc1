import Mathlib.Data.List.Basic
import Mathlib.Logic.Function.Basic

/-!
Functions changed at one cell after the other. The last cell of an index decides its value.
-/

namespace Lib

variable {ι α : Type} [DecidableEq ι]

/-- Set cells one after the other. -/
def assign (f : ι → α) (cells : List (ι × α)) : ι → α :=
  cells.foldl (fun f c => Function.update f c.1 c.2) f

variable {f : ι → α} {cells more : List (ι × α)} {i : ι} {a : α}

theorem assign_append : assign f (cells ++ more) = assign (assign f cells) more :=
  List.foldl_append

theorem assign_of_notMem (h : ∀ c ∈ cells, c.1 ≠ i) : assign f cells i = f i := by
  induction cells generalizing f with
  | nil => rfl
  | cons c cells ih =>
    have hrest := ih (f := Function.update f c.1 c.2) fun d hd => h d (List.mem_cons_of_mem _ hd)
    have hne := h c List.mem_cons_self
    exact hrest.trans (Function.update_of_ne hne.symm _ _)

theorem assign_last (h : ∀ c ∈ more, c.1 ≠ i) : assign f (cells ++ (i, a) :: more) i = a := by
  rw [assign_append]
  exact (assign_of_notMem h).trans (Function.update_self _ _ _)

/-- The cells of an index that agree decide its value. -/
theorem assign_of_mem (hmem : (i, a) ∈ cells) (hagree : ∀ c ∈ cells, c.1 = i → c.2 = a) :
    assign f cells i = a := by
  induction cells generalizing f with
  | nil => exact absurd hmem List.not_mem_nil
  | cons c cells ih =>
    have hunfold : assign f (c :: cells) = assign (Function.update f c.1 c.2) cells := rfl
    rw [hunfold]
    by_cases hlater : ∃ d ∈ cells, d.1 = i
    · obtain ⟨d, hd, hindex⟩ := hlater
      have hvalue := hagree d (List.mem_cons_of_mem _ hd) hindex
      apply ih
      · rw [← hindex, ← hvalue]
        exact hd
      · exact fun e he => hagree e (List.mem_cons_of_mem _ he)
    · have hlast : c = (i, a) := by
        rcases List.mem_cons.mp hmem with heq | hin
        · exact heq.symm
        · exact absurd ⟨_, hin, rfl⟩ hlater
      rw [assign_of_notMem fun d hd hindex => hlater ⟨d, hd, hindex⟩, hlast]
      exact Function.update_self _ _ _

/-- Indices that each change their own value in turn. -/
theorem foldl_update_own (F : Nat → α → α) (f : Nat → α) (n i : Nat) :
    (List.range n).foldl (fun f i => Function.update f i (F i (f i))) f i =
      if i < n then F i (f i) else f i := by
  induction n with
  | zero => rfl
  | succ n ih =>
    rw [List.range_succ, List.foldl_append, List.foldl_cons, List.foldl_nil]
    have hown : (List.range n).foldl (fun f i => Function.update f i (F i (f i))) f n = f n ∨
        i ≠ n := by
      rcases eq_or_ne i n with rfl | hne
      · rw [if_neg (Nat.lt_irrefl i)] at ih
        exact .inl ih
      · exact .inr hne
    rcases eq_or_ne i n with rfl | hne
    · rw [Function.update_self, hown.resolve_right (not_not.mpr rfl),
        if_pos (Nat.lt_succ_self i)]
    · rw [Function.update_of_ne hne, ih]
      have hiff : i < n ↔ i < n + 1 := by omega
      simp only [hiff]

end Lib
