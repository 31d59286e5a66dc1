import Mathlib.Algebra.Order.BigOperators.Group.List
import Mathlib.Algebra.Order.Ring.Nat

/-!
Acknowledgements that carry only a count. The sender keeps its items in the order
in which it issued them. The receiver applies them in that order and owes one
acknowledgement for each. What it owes travels back as counts, and a count that
arrives retires as many items at the front of the sender's list.
-/

namespace Lib

universe u

/-- The four queues of one sender and one receiver. -/
structure AckLedger (ι : Type u) where
  /-- issued and not retired -/
  waiting : List ι
  /-- issued and not applied -/
  travelling : List ι
  /-- applied and not acknowledged -/
  owed : Nat
  /-- the counts under way -/
  acks : List Nat

namespace AckLedger

variable {ι : Type u} {s : AckLedger ι} {applied applied' : ι → Prop}

/-- What is waiting is what the counts stand for, all of it applied, and then what
still travels. -/
def Balanced (applied : ι → Prop) (s : AckLedger ι) : Prop :=
  ∃ front, s.waiting = front ++ s.travelling ∧
    front.length = s.acks.sum + s.owed ∧ ∀ i ∈ front, applied i

theorem balanced_empty (applied : ι → Prop) : Balanced applied ⟨[], [], 0, []⟩ :=
  ⟨[], rfl, rfl, nofun⟩

theorem Balanced.mono (h : s.Balanced applied) (himp : ∀ i, applied i → applied' i) :
    s.Balanced applied' := by
  obtain ⟨front, hsplit, hcount, hdone⟩ := h
  exact ⟨front, hsplit, hcount, fun i hi => himp i (hdone i hi)⟩

/-- The counts and the travelling items add up to the waiting ones. -/
theorem Balanced.count (h : s.Balanced applied) :
    s.waiting.length = s.travelling.length + s.owed + s.acks.sum := by
  obtain ⟨front, hsplit, hcount, -⟩ := h
  rw [hsplit, List.length_append, hcount]
  omega

/-- Every waiting item travels, or is owed an acknowledgement, or lies within the
counts under way. -/
theorem Balanced.carrier (h : s.Balanced applied) {front : List ι} {i : ι}
    {behind : List ι} (hi : s.waiting = front ++ i :: behind) :
    front.length < s.acks.sum ∨ front.length < s.acks.sum + s.owed ∧ 0 < s.owed ∨
      i ∈ s.travelling := by
  obtain ⟨done, hsplit, hcount, -⟩ := h
  by_cases hacks : front.length < s.acks.sum
  · exact .inl hacks
  · by_cases howed : front.length < s.acks.sum + s.owed
    · exact .inr (.inl ⟨howed, by omega⟩)
    · -- the item stands behind all that the counts stand for
      refine .inr (.inr ?_)
      rw [hsplit] at hi
      have hdrop : s.travelling = (front ++ i :: behind).drop done.length := by
        rw [← hi, List.drop_left]
      have hle : done.length ≤ front.length := by omega
      rw [hdrop, List.drop_append_of_le_length hle]
      exact List.mem_append_right _ List.mem_cons_self

/-! ### The steps -/

theorem Balanced.issue (h : s.Balanced applied) (i : ι) :
    Balanced applied { s with
      waiting := s.waiting ++ [i], travelling := s.travelling ++ [i] } := by
  obtain ⟨front, hsplit, hcount, hdone⟩ := h
  refine ⟨front, ?_, hcount, hdone⟩
  simp only [hsplit, List.append_assoc]

theorem Balanced.apply (h : s.Balanced applied) {i : ι} {rest : List ι}
    (hfirst : s.travelling = i :: rest) (hi : applied i) :
    Balanced applied { s with travelling := rest, owed := s.owed + 1 } := by
  obtain ⟨front, hsplit, hcount, hdone⟩ := h
  refine ⟨front ++ [i], ?_, ?_, ?_⟩
  · simp only [hsplit, hfirst, List.append_assoc, List.singleton_append]
  · simp only [List.length_append, List.length_singleton, hcount]
    omega
  · intro j hj
    rcases List.mem_append.mp hj with hj | hj
    · exact hdone j hj
    · rw [List.mem_singleton.mp hj]
      exact hi

theorem Balanced.flush (h : s.Balanced applied) {acks : List Nat}
    (hperm : acks.Perm (s.owed :: s.acks)) :
    Balanced applied { s with owed := 0, acks := acks } := by
  obtain ⟨front, hsplit, hcount, hdone⟩ := h
  refine ⟨front, hsplit, ?_, hdone⟩
  have hsum := hperm.sum_eq
  simp only [List.sum_cons] at hsum
  simp only [hcount, hsum]
  omega

/-- One turn of an arrived count: it retires the first waiting item, which was applied. -/
theorem Balanced.retire {waiting travelling : List ι} {owed left : Nat} {acks : List Nat}
    {i : ι} (h : Balanced applied ⟨i :: waiting, travelling, owed, (left + 1) :: acks⟩) :
    applied i ∧ Balanced applied ⟨waiting, travelling, owed, left :: acks⟩ ∧
      ((i :: waiting).Nodup → i ∉ travelling) := by
  obtain ⟨front, hsplit, hcount, hdone⟩ := h
  simp only [List.sum_cons] at hcount
  cases front with
  | nil =>
    simp only [List.length_nil] at hcount
    omega
  | cons j front =>
    obtain ⟨rfl, hwaiting⟩ := List.cons.inj hsplit
    refine ⟨hdone i List.mem_cons_self, ⟨front, hwaiting, ?_, ?_⟩, ?_⟩
    · simp only [List.sum_cons, List.length_cons] at hcount ⊢
      omega
    · exact fun k hk => hdone k (List.mem_cons_of_mem _ hk)
    · intro hnodup hi
      have hnot := (List.nodup_cons.mp hnodup).1
      rw [hwaiting] at hnot
      exact hnot (List.mem_append_right _ hi)

/-- A count that is used up. -/
theorem Balanced.used {waiting travelling : List ι} {owed : Nat} {acks : List Nat}
    (h : Balanced applied ⟨waiting, travelling, owed, 0 :: acks⟩) :
    Balanced applied ⟨waiting, travelling, owed, acks⟩ := by
  obtain ⟨front, hsplit, hcount, hdone⟩ := h
  refine ⟨front, hsplit, ?_, hdone⟩
  simpa using hcount

/-- A count that arrives never exceeds what is waiting. -/
theorem Balanced.not_short {travelling : List ι} {owed left : Nat} {acks : List Nat}
    (h : Balanced applied ⟨[], travelling, owed, (left + 1) :: acks⟩) : False := by
  obtain ⟨front, hsplit, hcount, -⟩ := h
  obtain ⟨rfl, -⟩ := List.append_eq_nil_iff.mp hsplit.symm
  simp only [List.sum_cons, List.length_nil] at hcount
  omega

end AckLedger

end Lib
