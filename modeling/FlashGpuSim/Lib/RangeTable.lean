import Mathlib.Algebra.BigOperators.Group.Finset.Basic
import Mathlib.Algebra.Order.BigOperators.Group.Finset

/-!
Owners of ranges of natural numbers, and places that carry loads. A new owner takes a range that
nobody owns, and an owner that leaves frees its own range and nothing else. The load of all the
places follows what comes and goes.
-/

namespace Lib

universe u

/-- The first number and the length of the range of each owner. -/
abbrev RangeTable (ι : Type u) := ι → Option (Nat × Nat)

namespace RangeTable

variable {ι : Type u} {r : RangeTable ι} {occupied : Nat → Bool} {i j : ι} {start size n : Nat}

def Owns (r : RangeTable ι) (i : ι) (n : Nat) : Prop :=
  ∃ start size, r i = some (start, size) ∧ start ≤ n ∧ n < start + size

/-- No number has two owners. -/
def Separate (r : RangeTable ι) : Prop := ∀ i j n, r.Owns i n → r.Owns j n → i = j

/-- The occupied numbers are those with an owner. -/
def Covers (r : RangeTable ι) (occupied : Nat → Bool) : Prop :=
  ∀ n, occupied n = true ↔ ∃ i, r.Owns i n

theorem owns_of_eq (h : r i = some (start, size)) :
    r.Owns i n ↔ start ≤ n ∧ n < start + size := by
  constructor
  · rintro ⟨start', size', hi, hn⟩
    rw [h] at hi
    cases hi
    exact hn
  · intro hn
    exact ⟨start, size, h, hn⟩

theorem not_owns_of_none (h : r i = none) : ¬ r.Owns i n := by
  rintro ⟨start, size, hi, -⟩
  rw [h] at hi
  cases hi

theorem owns_congr {r' : RangeTable ι} (h : r' i = r i) : r'.Owns i n ↔ r.Owns i n := by
  simp only [Owns, h]

variable [DecidableEq ι]

theorem owns_take_self :
    Owns (Function.update r i (some (start, size))) i n ↔ start ≤ n ∧ n < start + size :=
  owns_of_eq (Function.update_self ..)

theorem not_owns_leave_self : ¬ Owns (Function.update r i none) i n :=
  not_owns_of_none (Function.update_self ..)

theorem owns_update_of_ne (h : j ≠ i) (x : Option (Nat × Nat)) :
    Owns (Function.update r i x) j n ↔ r.Owns j n :=
  owns_congr (Function.update_of_ne h ..)

theorem Separate.take (h : r.Separate)
    (hfree : ∀ n, start ≤ n → n < start + size → ∀ j, ¬ r.Owns j n) :
    Separate (Function.update r i (some (start, size))) := by
  intro a b n ha hb
  by_cases hai : a = i
  · by_cases hbi : b = i
    · rw [hai, hbi]
    · rw [hai, owns_take_self] at ha
      exact absurd ((owns_update_of_ne hbi _).mp hb) (hfree n ha.1 ha.2 b)
  · by_cases hbi : b = i
    · rw [hbi, owns_take_self] at hb
      exact absurd ((owns_update_of_ne hai _).mp ha) (hfree n hb.1 hb.2 a)
    · exact h a b n ((owns_update_of_ne hai _).mp ha) ((owns_update_of_ne hbi _).mp hb)

theorem Separate.leave (h : r.Separate) (i : ι) : Separate (Function.update r i none) := by
  have hold : ∀ a n, Owns (Function.update r i none) a n → r.Owns a n := by
    intro a n ha
    rcases eq_or_ne a i with rfl | hne
    · exact absurd ha not_owns_leave_self
    · exact (owns_update_of_ne hne _).mp ha
  intro a b n ha hb
  exact h a b n (hold a n ha) (hold b n hb)

theorem Covers.take (h : r.Covers occupied) (hnew : r i = none) (start size : Nat) :
    Covers (Function.update r i (some (start, size)))
      (fun n => decide (start ≤ n ∧ n < start + size) || occupied n) := by
  intro n
  simp only [Bool.or_eq_true, decide_eq_true_eq]
  rw [h n]
  constructor
  · rintro (hin | ⟨j, hj⟩)
    · exact ⟨i, owns_take_self.mpr hin⟩
    · have hne : j ≠ i := fun heq => not_owns_of_none hnew (heq ▸ hj)
      exact ⟨j, (owns_update_of_ne hne _).mpr hj⟩
  · rintro ⟨j, hj⟩
    rcases eq_or_ne j i with rfl | hne
    · exact .inl (owns_take_self.mp hj)
    · exact .inr ⟨j, (owns_update_of_ne hne _).mp hj⟩

theorem Covers.leave (h : r.Covers occupied) (hsep : r.Separate) (hi : r i = some (start, size)) :
    Covers (Function.update r i none)
      (fun n => occupied n && !decide (start ≤ n ∧ n < start + size)) := by
  intro n
  simp only [Bool.and_eq_true, Bool.not_eq_true', decide_eq_false_iff_not]
  rw [h n, ← owns_of_eq hi]
  constructor
  · rintro ⟨⟨j, hj⟩, hout⟩
    have hne : j ≠ i := fun heq => hout (heq ▸ hj)
    exact ⟨j, (owns_update_of_ne hne _).mpr hj⟩
  · rintro ⟨j, hj⟩
    have hne : j ≠ i := fun heq => not_owns_leave_self (heq ▸ hj)
    have hold := (owns_update_of_ne hne _).mp hj
    exact ⟨⟨j, hold⟩, fun hown => hne (hsep j i n hold hown)⟩

end RangeTable

section Load

variable {α : Type u} {g : Nat → Option α} {w : α → Nat} {m i : Nat} {a : α}

/-- The load of the first `m` places, where what is in a place weighs `w`. -/
def load (w : α → Nat) (m : Nat) (g : Nat → Option α) : Nat :=
  ∑ i ∈ Finset.range m, (g i).elim 0 w

theorem load_empty (w : α → Nat) (m : Nat) : load w m (fun _ => none) = 0 := by
  simp [load]

/-- The load of a table is that of one place and that of the table without it. -/
theorem load_eq_add (hi : i < m) (w : α → Nat) (g : Nat → Option α) :
    load w m g = (g i).elim 0 w + ∑ j ∈ (Finset.range m).erase i, (g j).elim 0 w :=
  (Finset.add_sum_erase _ (fun j => (g j).elim 0 w) (Finset.mem_range.mpr hi)).symm

theorem load_update (hi : i < m) (x : Option α) :
    load w m (Function.update g i x) + (g i).elim 0 w = load w m g + x.elim 0 w := by
  have hrest : ∑ j ∈ (Finset.range m).erase i, (Function.update g i x j).elim 0 w =
      ∑ j ∈ (Finset.range m).erase i, (g j).elim 0 w := by
    apply Finset.sum_congr rfl
    intro j hj
    rw [Function.update_of_ne (Finset.ne_of_mem_erase hj)]
  rw [load_eq_add hi w (Function.update g i x), load_eq_add hi w g, hrest,
    Function.update_self]
  omega

theorem load_take (hi : i < m) (hnew : g i = none) :
    load w m (Function.update g i (some a)) = load w m g + w a := by
  have h := load_update (w := w) (g := g) hi (some a)
  simpa [hnew] using h

theorem load_leave (hi : i < m) (hold : g i = some a) :
    load w m (Function.update g i none) + w a = load w m g := by
  have h := load_update (w := w) (g := g) hi none
  simpa [hold] using h

theorem le_load (hi : i < m) (hold : g i = some a) : w a ≤ load w m g := by
  rw [load_eq_add hi w g, hold]
  exact Nat.le_add_right _ _

end Load

end Lib
