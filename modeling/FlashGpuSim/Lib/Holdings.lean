import FlashGpuSim.Lib.Tables
import Mathlib.Algebra.BigOperators.Group.Finset.Basic
import Mathlib.Algebra.Order.BigOperators.Group.Finset
import Mathlib.Data.Multiset.AddSub
import Mathlib.Algebra.Order.Group.Multiset
import Mathlib.Tactic.Abel

/-!
The items that a family of queues and a table hold, as multisets. A move changes one queue or one
entry, and the holdings by what it put in and took out.
-/

namespace Lib

universe u v

variable {α : Type u} {ι : Type v}

/-- The sum over a family of which one member is replaced. -/
theorem sum_range_update {M : Type*} [AddCommMonoid M] (f : α → M) (b : Nat → α) {i n : Nat}
    (hi : i < n) (v : α) :
    ∑ j ∈ Finset.range n, f (Function.update b i v j) + f (b i) =
      ∑ j ∈ Finset.range n, f (b j) + f v := by
  have hmem : i ∈ Finset.range n := Finset.mem_range.mpr hi
  have hrest : ∑ j ∈ (Finset.range n).erase i, f (Function.update b i v j) =
      ∑ j ∈ (Finset.range n).erase i, f (b j) := by
    refine Finset.sum_congr rfl fun j hj => ?_
    rw [Function.update_of_ne (Finset.ne_of_mem_erase hj)]
  rw [← Finset.add_sum_erase _ _ hmem, ← Finset.add_sum_erase (Finset.range n) (fun j => f (b j)) hmem,
    Function.update_self, hrest]
  abel

/-- The items of the first `n` queues of a family. -/
def held (tag : α → ι) (n : Nat) (b : Nat → List α) : Multiset ι :=
  ∑ o ∈ Finset.range n, ((b o).map tag : Multiset ι)

variable {tag : α → ι} {n : Nat} {b : Nat → List α}

theorem held_update (tag : α → ι) (b : Nat → List α) {o : Nat} (ho : o < n) (queue : List α) :
    held tag n (Function.update b o queue) + ((b o).map tag : Multiset ι) =
      held tag n b + (queue.map tag : Multiset ι) :=
  sum_range_update (fun l : List α => (l.map tag : Multiset ι)) b ho queue

theorem held_append (tag : α → ι) (b : Nat → List α) {o : Nat} (ho : o < n) (more : List α) :
    held tag n (Function.update b o (b o ++ more)) =
      held tag n b + (more.map tag : Multiset ι) := by
  have hsum := held_update tag b ho (b o ++ more)
  rw [List.map_append, ← Multiset.coe_add, add_left_comm, add_comm ((b o).map tag : Multiset ι)]
    at hsum
  exact add_right_cancel hsum

theorem held_tail (tag : α → ι) (b : Nat → List α) {o : Nat} (ho : o < n) {item : α}
    {rest : List α} (hqueue : b o = item :: rest) :
    held tag n (Function.update b o rest) + {tag item} = held tag n b := by
  have hsum := held_update tag b ho rest
  rw [hqueue, List.map_cons, ← Multiset.cons_coe, ← Multiset.singleton_add, ← add_assoc] at hsum
  exact add_right_cancel hsum

theorem mem_held {item : ι} : item ∈ held tag n b ↔ ∃ o < n, ∃ a ∈ b o, tag a = item := by
  unfold held
  simp only [Multiset.mem_sum, Finset.mem_range, Multiset.mem_coe, List.mem_map]

/-- Items that are spread over the queues by a place of their own. -/
theorem held_spread (place : α → Nat) {items : List α} (hin : ∀ a ∈ items, place a < n) :
    held tag n (fun o => b o ++ items.filter fun a => place a = o) =
      held tag n b + (items.map tag : Multiset ι) := by
  induction items generalizing b with
  | nil => simp
  | cons a rest ih =>
    have hstep : (fun o => b o ++ (a :: rest).filter fun a => place a = o) =
        fun o => Function.update b (place a) (b (place a) ++ [a]) o ++
          rest.filter fun a => place a = o := by
      funext o
      rcases eq_or_ne o (place a) with rfl | hne
      · rw [Function.update_self, List.filter_cons_of_pos (by simp), List.append_assoc]
        rfl
      · rw [Function.update_of_ne hne, List.filter_cons_of_neg (by simpa using hne.symm)]
    rw [hstep, ih fun x hx => hin x (List.mem_cons_of_mem _ hx),
      held_append _ _ (hin a List.mem_cons_self), add_assoc, List.map_singleton, List.map_cons,
      Multiset.coe_add, List.singleton_append]

namespace Table

variable {β : Type u} {f : Nat → β → Multiset ι} {s : Table β} {a : Nat} {x y : β}

/-- What the entries of a table hold together. -/
def holdings (f : Nat → β → Multiset ι) (s : Table β) : Multiset ι :=
  (s.entries.map fun e => f e.1 e.2).sum

theorem holdings_erase (h : s.lookup a = some x) :
    holdings f (s.erase a) + f a x = holdings f s := by
  have hmem : a ∈ s.entries.keys := AList.mem_keys.mp (AList.lookup_isSome.mp (by rw [h]; rfl))
  obtain ⟨z, left, right, hleft, hentries, hrest⟩ := List.exists_of_kerase hmem
  have hin : (⟨a, z⟩ : Sigma fun _ : Nat => β) ∈ s.entries := by
    rw [hentries]
    exact List.mem_append_right _ List.mem_cons_self
  have hz : s.lookup a = some z := AList.mem_lookup_iff.mpr hin
  obtain rfl : z = x := Option.some.inj (hz.symm.trans h)
  have herase : (s.erase a).entries = left ++ right := hrest
  unfold holdings
  rw [herase, hentries]
  simp only [List.map_append, List.map_cons, List.sum_append, List.sum_cons]
  abel

theorem holdings_insert_new (h : s.lookup a = none) :
    holdings f (s.insert a x) = holdings f s + f a x := by
  have hnot : a ∉ s := fun hmem => by
    have hsome := AList.lookup_isSome.mpr hmem
    rw [h] at hsome
    cases hsome
  unfold holdings
  rw [AList.entries_insert_of_notMem hnot, List.map_cons, List.sum_cons, add_comm]

theorem holdings_insert (h : s.lookup a = some x) :
    holdings f (s.insert a y) + f a x = holdings f s + f a y := by
  have herase := holdings_erase (f := f) h
  have hinsert : holdings f (s.insert a y) = f a y + holdings f (s.erase a) := by
    unfold holdings
    rw [AList.entries_insert, List.map_cons, List.sum_cons]
    rfl
  rw [hinsert, ← herase]
  abel

theorem mem_holdings {item : ι} :
    item ∈ holdings f s ↔ ∃ a x, s.lookup a = some x ∧ item ∈ f a x := by
  have hsum : ∀ l : List (Sigma fun _ : Nat => β),
      item ∈ (l.map fun e => f e.1 e.2).sum ↔ ∃ e ∈ l, item ∈ f e.1 e.2 := by
    intro l
    induction l with
    | nil => simp
    | cons e rest ih => simp [ih]
  unfold holdings
  rw [hsum]
  constructor
  · rintro ⟨⟨a, x⟩, hmem, hitem⟩
    exact ⟨a, x, AList.mem_lookup_iff.mpr hmem, hitem⟩
  · rintro ⟨a, x, hlook, hitem⟩
    exact ⟨⟨a, x⟩, AList.mem_lookup_iff.mp hlook, hitem⟩

end Table

end Lib
