import FlashGpuSim.Lib.Odometer
import Mathlib.Algebra.BigOperators.Group.List.Basic
import Mathlib.Tactic.Ring

/-!
A box in an array with strides. The cells of the box are numbered, the first axis fastest; a cell
has a place in the array's address space, and it may be outside of the array.
-/

namespace Lib

/-- The extents of the box and of the array along an axis, the first coordinate of the box, and
the distance of neighbours. -/
structure Axis where
  box : Nat
  extent : Nat
  start : Int
  stride : Nat

/-- The coordinate of the digit is in the array. -/
def Axis.holds (a : Axis) (digit : Nat) : Bool :=
  decide (0 ≤ a.start + digit ∧ a.start + digit < a.extent)

theorem Axis.holds_iff {a : Axis} {digit : Nat} :
    a.holds digit = true ↔ 0 ≤ a.start + digit ∧ a.start + digit < a.extent :=
  decide_eq_true_iff

/-- The number of cells. -/
def boxCells (axes : List Axis) : Nat := (axes.map Axis.box).prod

def cellInside : List Axis → Nat → Bool
  | [], _ => true
  | a :: axes, n => a.holds (n % a.box) && cellInside axes (n / a.box)

/-- The place of a cell, from the place of the array's origin. -/
def cellPlace : List Axis → Nat → Int
  | [], _ => 0
  | a :: axes, n => (a.start + (n % a.box : Nat)) * a.stride + cellPlace axes (n / a.box)

variable {axes rest : List Axis} {a : Axis} {n i : Nat}

@[simp] theorem boxCells_nil : boxCells [] = 1 := rfl

theorem boxCells_cons : boxCells (a :: axes) = a.box * boxCells axes := rfl

theorem boxCells_split : boxCells (axes ++ rest) = boxCells axes * boxCells rest := by
  unfold boxCells
  rw [List.map_append, List.prod_append]

theorem boxCells_append : boxCells (axes ++ [a]) = a.box * boxCells axes := by
  rw [boxCells_split, boxCells_cons, boxCells_nil, Nat.mul_one, Nat.mul_comm]

/-- A cell of a box whose axes are in two groups. -/
theorem cellInside_split : cellInside (axes ++ rest) n =
    (cellInside axes (n % boxCells axes) && cellInside rest (n / boxCells axes)) := by
  induction axes generalizing n with
  | nil => simp [cellInside]
  | cons b axes ih =>
    simp only [List.cons_append, cellInside]
    rw [ih, boxCells_cons, Nat.mod_mul_right_mod, Nat.mod_mul_right_div_self,
      Nat.div_div_eq_div_mul, Bool.and_assoc]

theorem cellPlace_split : cellPlace (axes ++ rest) n =
    cellPlace axes (n % boxCells axes) + cellPlace rest (n / boxCells axes) := by
  induction axes generalizing n with
  | nil => simp [cellPlace]
  | cons b axes ih =>
    simp only [List.cons_append, cellPlace]
    rw [ih, boxCells_cons, Nat.mod_mul_right_mod, Nat.mod_mul_right_div_self,
      Nat.div_div_eq_div_mul, Int.add_assoc]

/-- The cells of a box in layers along its last axis. -/
theorem layer_div_mod {cells : Nat} (hn : n < cells) :
    (i * cells + n) % cells = n ∧ (i * cells + n) / cells = i := by
  have hpos : 0 < cells := Nat.zero_lt_of_lt hn
  rw [Nat.mul_comm, Nat.mul_add_mod, Nat.mod_eq_of_lt hn, Nat.mul_add_div hpos,
    Nat.div_eq_of_lt hn]
  exact ⟨rfl, rfl⟩

theorem cellInside_append (hn : n < boxCells axes) (hi : i < a.box) :
    cellInside (axes ++ [a]) (i * boxCells axes + n) = (cellInside axes n && a.holds i) := by
  obtain ⟨hmod, hdiv⟩ := layer_div_mod (i := i) hn
  rw [cellInside_split, hmod, hdiv]
  simp [cellInside, Nat.mod_eq_of_lt hi]

theorem cellPlace_append (hn : n < boxCells axes) (hi : i < a.box) :
    cellPlace (axes ++ [a]) (i * boxCells axes + n) =
      cellPlace axes n + (a.start + i) * a.stride := by
  obtain ⟨hmod, hdiv⟩ := layer_div_mod (i := i) hn
  rw [cellPlace_split, hmod, hdiv]
  simp [cellPlace, Nat.mod_eq_of_lt hi]

/-- A step that stays in its layer. -/
theorem layer_within {p k r : Nat} (hk : p % r + k < r) :
    (p + k) % r = p % r + k ∧ (p + k) / r = p / r := by
  have hsplit : p + k = p / r * r + (p % r + k) := by
    have hsum := Nat.div_add_mod' p r
    omega
  rw [hsplit]
  exact layer_div_mod hk

/-- A step to the end of its layer. -/
theorem layer_end {p k r : Nat} (hpos : 0 < r) (hk : p % r + k = r) :
    (p + k) % r = 0 ∧ (p + k) / r = p / r + 1 := by
  have hsplit : p + k = (p / r + 1) * r + 0 := by
    have hsum := Nat.div_add_mod' p r
    rw [Nat.succ_mul]
    omega
  rw [hsplit]
  exact layer_div_mod hpos

/-- Numbers in layers of one size. -/
theorem range_layers (b n : Nat) :
    List.range (b * n) = (List.range b).flatMap fun i => (List.range n).map (i * n + ·) := by
  induction b with
  | zero => simp
  | succ b ih =>
    rw [Nat.succ_mul, List.range_add, ih, List.range_succ, List.flatMap_append,
      List.flatMap_singleton]

/-- The numbers of an interval, counted from its first. -/
theorem filter_range_interval {lo hi n : Nat} (hhi : hi ≤ n) :
    (List.range n).filter (fun x => decide (lo ≤ x ∧ x < hi)) =
      (List.range (hi - lo)).map (lo + ·) := by
  rcases Nat.lt_or_ge hi lo with hlt | hlo
  · rw [Nat.sub_eq_zero_of_le (Nat.le_of_lt hlt)]
    apply List.filter_eq_nil_iff.mpr
    intro x _
    simp only [decide_eq_true_eq]
    omega
  have hsum : n = lo + (hi - lo) + (n - hi) := by omega
  have hbefore : (List.range lo).filter (fun x => decide (lo ≤ x ∧ x < hi)) = [] := by
    apply List.filter_eq_nil_iff.mpr
    intro x hx
    have hlt := List.mem_range.mp hx
    simp [Nat.not_le.mpr hlt]
  have hwithin : ((List.range (hi - lo)).map (lo + ·)).filter
      (fun x => decide (lo ≤ x ∧ x < hi)) = (List.range (hi - lo)).map (lo + ·) := by
    apply List.filter_eq_self.mpr
    intro x hx
    obtain ⟨k, hk, rfl⟩ := List.mem_map.mp hx
    have hlt := List.mem_range.mp hk
    simp only [decide_eq_true_eq]
    omega
  have hafter : ((List.range (n - hi)).map (lo + (hi - lo) + ·)).filter
      (fun x => decide (lo ≤ x ∧ x < hi)) = [] := by
    apply List.filter_eq_nil_iff.mpr
    intro x hx
    obtain ⟨k, _, rfl⟩ := List.mem_map.mp hx
    simp only [decide_eq_true_eq]
    omega
  conv_lhs => rw [hsum]
  rw [List.range_add, List.range_add, List.filter_append, List.filter_append, hbefore, hwithin,
    hafter, List.nil_append, List.append_nil]

/-- The next cell along the first axis. -/
theorem cellPlace_succ (hlt : n % a.box + 1 < a.box) :
    cellPlace (a :: axes) (n + 1) = cellPlace (a :: axes) n + a.stride := by
  obtain ⟨hmod, hdiv⟩ := Odometer.succ_of_lt (q := n / a.box) hlt
  rw [Nat.div_add_mod] at hmod hdiv
  simp only [cellPlace, hmod, hdiv]
  push_cast
  ring

/-- The next cell when the first axis starts again. -/
theorem cellPlace_carry (hpos : 0 < a.box) (heq : n % a.box + 1 = a.box) :
    cellPlace (a :: axes) (n + 1) = cellPlace (a :: axes) n + a.stride - a.box * a.stride +
      (cellPlace axes (n / a.box + 1) - cellPlace axes (n / a.box)) := by
  obtain ⟨hmod, hdiv⟩ := Odometer.succ_of_carry (q := n / a.box) hpos heq
  rw [Nat.div_add_mod] at hmod hdiv
  have hlast : ((n % a.box : Nat) : Int) = a.box - 1 := by omega
  simp only [cellPlace, hmod, hdiv, hlast]
  push_cast
  ring

end Lib
