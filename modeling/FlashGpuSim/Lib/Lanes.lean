import Mathlib.Data.List.Basic
import Mathlib.Data.List.Perm.Basic
import Mathlib.Logic.Relation

/-!
A network of lanes: items enter a lane, mostly at its back, and leave it at its
front. Beside the items in flight stand the histories of what entered each lane
and what left it. Which items may enter in front of which others is a parameter.
-/

namespace Lib

open Relation

universe u v

variable {κ : Type u} {η : Type v} [DecidableEq κ]

structure Lanes (κ : Type u) (η : Type v) where
  lane : κ → List η
  entered : κ → List η
  left : κ → List η

namespace Lanes

/-- One item enters a lane or leaves it. `fits h behind` says that `h` may enter
with the items `behind` after it. -/
inductive Step (fits : η → List η → Prop) : Lanes κ η → Lanes κ η → Prop
  | enter {s : Lanes κ η} (k : κ) (h : η) {ahead behind : List η}
      (hlane : s.lane k = ahead ++ behind) (hfits : fits h behind) :
      Step fits s
        { lane := Function.update s.lane k (ahead ++ h :: behind)
          entered := Function.update s.entered k (s.entered k ++ [h])
          left := s.left }
  | leave {s : Lanes κ η} (k : κ) {h : η} {rest : List η}
      (hlane : s.lane k = h :: rest) :
      Step fits s
        { lane := Function.update s.lane k rest
          entered := s.entered
          left := Function.update s.left k (s.left k ++ [h]) }

abbrev Steps (fits : η → List η → Prop) : Lanes κ η → Lanes κ η → Prop :=
  ReflTransGen (Step fits)

/-- What entered is what left and what is in flight. -/
def Conserved (s : Lanes κ η) : Prop :=
  ∀ k, (s.entered k).Perm (s.left k ++ s.lane k)

/-- The items selected by `select` are in flight, and left, in the order in which
they entered. -/
def Ordered (select : η → Bool) (s : Lanes κ η) : Prop :=
  ∀ k, (s.entered k).filter select =
    (s.left k).filter select ++ (s.lane k).filter select

variable {fits fits' : η → List η → Prop} {s t : Lanes κ η} {select : η → Bool}

theorem Step.conserved (hstep : Step fits s t) (h : s.Conserved) : t.Conserved := by
  intro k
  cases hstep with
  | @enter k' x ahead behind hlane _ =>
    by_cases hk : k = k'
    · subst hk
      have hperm := h k
      rw [hlane] at hperm
      simp only [Function.update_self]
      calc
        List.Perm (s.entered k ++ [x]) (x :: s.entered k) :=
          List.perm_append_singleton x (s.entered k)
        List.Perm _ (x :: (s.left k ++ (ahead ++ behind))) := hperm.cons x
        List.Perm _ (x :: (s.left k ++ ahead ++ behind)) := by rw [List.append_assoc]
        List.Perm _ (s.left k ++ ahead ++ x :: behind) := List.perm_middle.symm
        List.Perm _ (s.left k ++ (ahead ++ x :: behind)) := by rw [List.append_assoc]
    · simpa [Function.update_of_ne hk] using h k
  | @leave k' x rest hlane =>
    by_cases hk : k = k'
    · subst hk
      have hperm := h k
      rw [hlane] at hperm
      simpa using hperm
    · simpa [Function.update_of_ne hk] using h k

/-- Order survives when a selected item only enters behind all selected ones. -/
theorem Step.ordered (hstep : Step fits s t)
    (hfits : ∀ x behind, fits x behind → select x = true → behind.filter select = [])
    (h : s.Ordered select) : t.Ordered select := by
  intro k
  cases hstep with
  | @enter k' x ahead behind hlane hx =>
    by_cases hk : k = k'
    · subst hk
      have horder := h k
      rw [hlane, List.filter_append] at horder
      simp only [Function.update_self, List.filter_append, horder]
      cases hsel : select x with
      | false => simp [hsel]
      | true => simp [hsel, hfits x behind hx hsel]
    · simpa [Function.update_of_ne hk] using h k
  | @leave k' x rest hlane =>
    by_cases hk : k = k'
    · subst hk
      have horder := h k
      rw [hlane] at horder
      have hsplit : (x :: rest).filter select = [x].filter select ++ rest.filter select := by
        rw [← List.filter_append]
        rfl
      simp only [Function.update_self, List.filter_append, horder, hsplit, List.append_assoc]
    · simpa [Function.update_of_ne hk] using h k

theorem Steps.ordered (hsteps : Steps fits s t)
    (hfits : ∀ x behind, fits x behind → select x = true → behind.filter select = [])
    (h : s.Ordered select) : t.Ordered select := by
  induction hsteps with
  | refl => exact h
  | tail _ hstep ih => exact hstep.ordered hfits ih

end Lanes

/-! ### Lists sorted into lanes -/

section Sorting

variable {α : Type v}

/-- Two lists are permutations of each other when their lanes are. -/
theorem perm_of_filter_perm (key : α → κ) {l l' : List α}
    (h : ∀ k, (l.filter (fun a => key a = k)).Perm (l'.filter (fun a => key a = k))) :
    l.Perm l' := by
  classical
  refine List.perm_iff_count.mpr (fun a => ?_)
  have hcount := (h (key a)).count_eq a
  rw [List.count_filter (by simp), List.count_filter (by simp)] at hcount
  exact hcount

/-- A `flatMap` over a range in which only one index contributes. -/
theorem flatMap_range_single {n i : Nat} (g : Nat → List α) (hi : i < n)
    (hother : ∀ j, j ≠ i → g j = []) : (List.range n).flatMap g = g i := by
  induction n with
  | zero => omega
  | succ n ih =>
    rw [List.range_succ, List.flatMap_append, List.flatMap_singleton]
    by_cases hn : i = n
    · subst hn
      have hnone : (List.range i).flatMap g = [] := by
        refine List.flatMap_eq_nil_iff.mpr (fun j hj => hother j ?_)
        have hlt := List.mem_range.mp hj
        omega
      rw [hnone, List.nil_append]
    · rw [ih (by omega), hother n (fun hc => hn hc.symm), List.append_nil]

/-- A `flatMap` over a range in which no index contributes. -/
theorem flatMap_range_nil {n : Nat} (g : Nat → List α) (hall : ∀ j, j < n → g j = []) :
    (List.range n).flatMap g = [] :=
  List.flatMap_eq_nil_iff.mpr (fun j hj => hall j (List.mem_range.mp hj))

end Sorting

end Lib
