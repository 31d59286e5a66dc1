import Mathlib.Algebra.BigOperators.Fin
import Mathlib.Algebra.Order.BigOperators.Group.Finset
import Mathlib.Tactic

/-!
Credits for items in flight. A borrower first uses the credits set aside for it and then
those it shares with the others. A credit that comes back is one of its own as long as it
holds any. Whatever the order, the credits that are out count the items in flight, and a
borrower without an item has all of its own credits.
-/

namespace Lib

universe u

variable {ι : Type u} [Fintype ι] [DecidableEq ι]

/-- The credits that are out: each borrower's own ones and the shared ones. -/
structure CreditPool (ι : Type u) where
  own : ι → Int
  shared : Int

namespace CreditPool

/-- The credits that are out, against the owners of the items in flight. -/
structure Balanced (limit : Int) (owners : List ι) (s : CreditPool ι) : Prop where
  own_nonneg : ∀ p, 0 ≤ s.own p
  own_le : ∀ p, s.own p ≤ limit
  own_held : ∀ p, s.own p ≤ owners.count p
  total : (owners.length : Int) = s.shared + ∑ p, s.own p

variable {limit : Int} {owners owners' : List ι} {s : CreditPool ι} {p : ι}

/-- Every item has one owner. -/
theorem sum_count (owners : List ι) : ∑ p, (owners.count p : Int) = owners.length := by
  induction owners with
  | nil => simp
  | cons q rest ih =>
    have hsplit : ∀ p, ((q :: rest).count p : Int) = rest.count p + if q = p then 1 else 0 := by
      intro p
      rw [List.count_cons]
      push_cast
      simp only [beq_iff_eq]
    simp only [hsplit, Finset.sum_add_distrib, ih, Finset.sum_ite_eq, Finset.mem_univ, if_true,
      List.length_cons]
    push_cast
    rfl

theorem sum_update (f : ι → Int) (p : ι) (x : Int) :
    ∑ q, Function.update f p x q = ∑ q, f q + (x - f p) := by
  rw [Finset.sum_update_of_mem (Finset.mem_univ p), ← Finset.add_sum_erase _ f (Finset.mem_univ p),
    Finset.sdiff_singleton_eq_erase]
  ring

theorem balanced_empty (hlimit : 0 ≤ limit) :
    Balanced limit ([] : List ι) { own := fun _ => 0, shared := 0 } where
  own_nonneg := fun _ => le_rfl
  own_le := fun _ => hlimit
  own_held := fun _ => le_rfl
  total := by simp

namespace Balanced

theorem perm (h : Balanced limit owners s) (hperm : owners.Perm owners') :
    Balanced limit owners' s where
  own_nonneg := h.own_nonneg
  own_le := h.own_le
  own_held := fun p => by
    rw [← hperm.count_eq]
    exact h.own_held p
  total := by
    rw [← hperm.length_eq]
    exact h.total

/-- A borrower without an item holds no credit. -/
theorem free (h : Balanced limit owners s) (hp : p ∉ owners) : s.own p = 0 := by
  have hheld := h.own_held p
  rw [List.count_eq_zero_of_not_mem hp] at hheld
  exact le_antisymm hheld (h.own_nonneg p)

theorem shared_nonneg (h : Balanced limit owners s) : 0 ≤ s.shared := by
  have hsum : ∑ p, s.own p ≤ ∑ p, (owners.count p : Int) := Finset.sum_le_sum fun p _ => h.own_held p
  rw [sum_count, h.total] at hsum
  omega

/-- All items in flight, in terms of the shared credits. -/
theorem length_le (h : Balanced limit owners s) :
    (owners.length : Int) ≤ s.shared + Fintype.card ι * limit := by
  have hsum : ∑ p, s.own p ≤ ∑ _p : ι, limit := Finset.sum_le_sum fun p _ => h.own_le p
  rw [Finset.sum_const, Finset.card_univ, nsmul_eq_mul] at hsum
  rw [h.total]
  exact Int.add_le_add_left hsum s.shared

/-! ### The steps -/

/-- An owner's credits change with the items it has in flight. -/
theorem setOwn {x : Int} (h : Balanced limit owners s) (hpos : 0 ≤ x) (hle : x ≤ limit)
    (hheld : x ≤ owners'.count p) (hothers : ∀ q, q ≠ p → owners.count q ≤ owners'.count q)
    (hlength : (owners'.length : Int) = owners.length + (x - s.own p)) :
    Balanced limit owners' { s with own := Function.update s.own p x } := by
  have hcases : ∀ q, (q = p ∧ Function.update s.own p x q = x) ∨
      (q ≠ p ∧ Function.update s.own p x q = s.own q) := by
    intro q
    rcases eq_or_ne q p with rfl | hq
    · exact .inl ⟨rfl, Function.update_self _ _ _⟩
    · exact .inr ⟨hq, Function.update_of_ne hq _ _⟩
  constructor
  · intro q
    rcases hcases q with ⟨rfl, hq⟩ | ⟨-, hq⟩
    · exact hpos.trans_eq hq.symm
    · exact (h.own_nonneg q).trans_eq hq.symm
  · intro q
    rcases hcases q with ⟨rfl, hq⟩ | ⟨-, hq⟩
    · exact hq.trans_le hle
    · exact hq.trans_le (h.own_le q)
  · intro q
    rcases hcases q with ⟨rfl, hq⟩ | ⟨hne, hq⟩
    · exact hq.trans_le hheld
    · exact hq.trans_le ((h.own_held q).trans (Int.ofNat_le.mpr (hothers q hne)))
  · have htotal := h.total
    dsimp only
    rw [sum_update]
    omega

theorem borrowOwn (h : Balanced limit owners s) (hlimit : s.own p < limit) :
    Balanced limit (p :: owners) { s with own := Function.update s.own p (s.own p + 1) } := by
  apply h.setOwn
  · exact Int.le_add_one (h.own_nonneg p)
  · exact hlimit
  · have hheld := h.own_held p
    rw [List.count_cons_self]
    push_cast
    omega
  · intro q hq
    exact List.count_le_count_cons
  · rw [List.length_cons]
    push_cast
    ring

theorem borrowShared (h : Balanced limit owners s) (p : ι) :
    Balanced limit (p :: owners) { s with shared := s.shared + 1 } where
  own_nonneg := h.own_nonneg
  own_le := h.own_le
  own_held := fun q =>
    (h.own_held q).trans (Int.ofNat_le.mpr List.count_le_count_cons)
  total := by
    have htotal := h.total
    rw [List.length_cons]
    push_cast
    omega

theorem returnOwn (h : Balanced limit (p :: owners) s) (hpos : 0 < s.own p) :
    Balanced limit owners { s with own := Function.update s.own p (s.own p - 1) } := by
  have hheld := h.own_held p
  have hle := h.own_le p
  apply h.setOwn
  · omega
  · omega
  · rw [List.count_cons_self] at hheld
    push_cast at hheld
    omega
  · intro q hq
    exact (List.count_cons_of_ne hq.symm).le
  · rw [List.length_cons]
    push_cast
    ring

/-- The last of its own credits are back already, so it is a shared one. -/
theorem returnShared (h : Balanced limit (p :: owners) s) (hnone : ¬ 0 < s.own p) :
    Balanced limit owners { s with shared := s.shared - 1 } where
  own_nonneg := h.own_nonneg
  own_le := h.own_le
  own_held := fun q => by
    have hheld := h.own_held q
    rcases eq_or_ne q p with rfl | hq
    · have hcount : (0 : Int) ≤ owners.count q := Int.natCast_nonneg _
      exact (not_lt.mp hnone).trans hcount
    · rw [List.count_cons_of_ne hq.symm] at hheld
      exact hheld
  total := by
    have htotal := h.total
    rw [List.length_cons] at htotal
    push_cast at htotal
    dsimp only
    omega

end Balanced

end CreditPool

end Lib
