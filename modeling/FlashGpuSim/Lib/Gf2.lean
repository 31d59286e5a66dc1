import Mathlib.Data.Nat.Bitwise
import Mathlib.Data.List.Basic
import Mathlib.Tactic.Common

/-!
Linear algebra over two elements. A vector is a natural number, its bits are the coordinates,
and addition is the exclusive or. Independence is decided by elimination.
-/

namespace Lib

namespace Gf2

/-- The sum of the vectors that the bits of `j` select. -/
def combine : List Nat → Nat → Nat
  | [], _ => 0
  | c :: cs, j => (if j.testBit 0 then c else 0) ^^^ combine cs (j / 2)

/-- No sum of some of the vectors vanishes. -/
def Independent (cols : List Nat) : Prop :=
  ∀ j < 2 ^ cols.length, combine cols j = 0 → j = 0

/-- Addition is preserved. -/
def Linear (f : Nat → Nat) : Prop := ∀ x y, f (x ^^^ y) = f x ^^^ f y

variable {f g : Nat → Nat} {c x y i j : Nat} {cols cs : List Nat}

theorem Linear.zero (hf : Linear f) : f 0 = 0 := by
  have h := hf 0 0
  rw [Nat.xor_self, Nat.xor_self] at h
  exact h

theorem Linear.comp (hf : Linear f) (hg : Linear g) : Linear (fun x => f (g x)) := by
  intro x y
  dsimp only
  rw [hg, hf]

theorem Linear.add (hf : Linear f) (hg : Linear g) : Linear (fun x => f x ^^^ g x) := by
  intro x y
  dsimp only
  rw [hf, hg]
  ac_rfl

/-- A linear map is injective where only zero goes to zero. -/
theorem Linear.eq_iff (hf : Linear f) : f x = f y ↔ f (x ^^^ y) = 0 := by
  rw [hf, Nat.xor_eq_zero_iff]

theorem linear_shiftLeft (k : Nat) : Linear (fun x => x <<< k) := fun _ _ => Nat.shiftLeft_xor_distrib

theorem linear_shiftRight (k : Nat) : Linear (fun x => x >>> k) :=
  fun _ _ => Nat.shiftRight_xor_distrib

/-! ### Sums -/

@[simp] theorem combine_nil : combine [] j = 0 := rfl

@[simp] theorem combine_cons :
    combine (c :: cs) j = (if j.testBit 0 then c else 0) ^^^ combine cs (j / 2) := rfl

theorem combine_zero : combine cols 0 = 0 := by
  induction cols with
  | nil => rfl
  | cons c cs ih => simp [ih]

theorem combine_xor : combine cols (i ^^^ j) = combine cols i ^^^ combine cols j := by
  induction cols generalizing i j with
  | nil => exact (Nat.xor_self 0).symm
  | cons c cs ih =>
    have hhalf : (i ^^^ j) / 2 = i / 2 ^^^ j / 2 := Nat.xor_div_two
    rw [combine_cons, combine_cons, combine_cons, hhalf, ih, Nat.testBit_xor]
    cases i.testBit 0 <;> cases j.testBit 0
    · simp
    · simp
      ac_rfl
    · simp
      ac_rfl
    · simp only [bne_self_eq_false, Bool.false_eq_true, if_false, if_true, Nat.zero_xor]
      rw [Nat.xor_assoc, Nat.xor_left_comm (combine cs (i / 2)), ← Nat.xor_assoc, Nat.xor_self,
        Nat.zero_xor]

theorem Linear.map_combine (hf : Linear f) : f (combine cols j) = combine (cols.map f) j := by
  induction cols generalizing j with
  | nil => exact hf.zero
  | cons c cs ih =>
    rw [List.map_cons, combine_cons, combine_cons, hf, ih]
    split
    · rfl
    · rw [hf.zero]

/-- A number is the sum of the powers of two at its bits. -/
theorem shiftLeft_eq_combine {d k : Nat} (hj : j < 2 ^ d) :
    j <<< k = combine ((List.range' k d).map (2 ^ ·)) j := by
  induction d generalizing j k with
  | zero =>
    have hzero : j = 0 := by omega
    rw [hzero, combine_zero, Nat.zero_shiftLeft]
  | succ d ih =>
    have hhalf : j / 2 < 2 ^ d := by
      rw [Nat.pow_succ] at hj
      omega
    rw [List.range'_succ, List.map_cons, combine_cons, ← ih hhalf]
    apply Nat.eq_of_testBit_eq
    intro b
    rw [Nat.testBit_xor, Nat.testBit_shiftLeft, Nat.testBit_shiftLeft, Nat.testBit_div_two]
    rcases Nat.lt_trichotomy b k with hlt | rfl | hgt
    · have hpow : (2 ^ k).testBit b = false := Nat.testBit_two_pow_of_ne (by omega)
      have h₁ : ¬ b ≥ k := by omega
      have h₂ : ¬ b ≥ k + 1 := by omega
      cases j.testBit 0
      · simp [h₁, h₂]
      · simp [h₁, h₂, hpow]
    · have h₂ : ¬ b ≥ b + 1 := by omega
      cases hbit : j.testBit 0
      · simp [hbit, h₂]
      · simp [hbit, h₂, Nat.testBit_two_pow_self]
    · have hpow : (2 ^ k).testBit b = false := Nat.testBit_two_pow_of_ne (by omega)
      have h₁ : b ≥ k := by omega
      have h₂ : b ≥ k + 1 := by omega
      have hsub : b - (k + 1) + 1 = b - k := by omega
      cases j.testBit 0
      · simp [h₁, h₂, hsub]
      · simp [h₁, h₂, hsub, hpow]

/-! ### Elimination -/

/-- `c` is added to the vectors that have its highest bit. -/
def clear (c x : Nat) : Nat := if x.testBit c.log2 then x ^^^ c else x

def eliminate : Nat → List Nat → Bool
  | _, [] => true
  | 0, _ :: _ => false
  | n + 1, c :: cs => c != 0 && eliminate n (cs.map (clear c))

theorem linear_clear (c : Nat) : Linear (clear c) := by
  intro x y
  unfold clear
  rw [Nat.testBit_xor]
  cases x.testBit c.log2 <;> cases y.testBit c.log2
  · simp
  · simp [Nat.xor_assoc]
  · simp only [Bool.xor_false, if_true, Bool.false_eq_true, if_false]
    rw [Nat.xor_assoc, Nat.xor_comm y c, Nat.xor_assoc]
  · simp only [bne_self_eq_false, Bool.false_eq_true, if_false, if_true]
    rw [Nat.xor_assoc, Nat.xor_left_comm c y c, Nat.xor_self, Nat.xor_zero]

theorem clear_self (hc : c ≠ 0) : clear c c = 0 := by
  unfold clear
  rw [if_pos (Nat.testBit_log2 hc), Nat.xor_self]

theorem clear_eq_zero (h : clear c x = 0) : x = 0 ∨ x = c := by
  unfold clear at h
  split at h
  · exact .inr (Nat.xor_eq_zero_iff.mp h)
  · exact .inl h

/-- One step of the elimination. -/
theorem independent_cons :
    Independent (c :: cs) ↔ c ≠ 0 ∧ Independent (cs.map (clear c)) := by
  unfold Independent
  rw [List.length_cons, List.length_map]
  constructor
  · intro h
    have hc : c ≠ 0 := by
      rintro rfl
      have hone := h 1 (Nat.one_lt_two_pow (Nat.succ_ne_zero _))
      simp [combine_zero] at hone
    refine ⟨hc, fun j hj hzero => ?_⟩
    rw [← (linear_clear c).map_combine] at hzero
    rcases clear_eq_zero hzero with hzero | hzero
    · have heven := h (2 * j) (by rw [Nat.pow_succ]; omega)
      have hbit : (2 * j).testBit 0 = false := by simp
      rw [combine_cons, hbit, Nat.mul_div_cancel_left j (by omega), hzero] at heven
      simp only [Bool.false_eq_true, if_false, Nat.xor_self, forall_const] at heven
      omega
    · have hodd := h (2 * j + 1) (by rw [Nat.pow_succ]; omega)
      have hbit : (2 * j + 1).testBit 0 = true := by simp
      have hhalf : (2 * j + 1) / 2 = j := by omega
      rw [combine_cons, hbit, hhalf, hzero] at hodd
      simp at hodd
  · rintro ⟨hc, h⟩ j hj hzero
    have hhalf : j / 2 < 2 ^ cs.length := by
      rw [Nat.pow_succ] at hj
      omega
    have hrest := h (j / 2) hhalf
    rw [← (linear_clear c).map_combine] at hrest
    rw [combine_cons, Nat.xor_eq_zero_iff] at hzero
    rw [← hzero] at hrest
    split at hzero
    · rename_i hbit
      rw [if_pos hbit, clear_self hc] at hrest
      rw [hrest rfl, combine_zero] at hzero
      exact absurd hzero hc
    · rename_i hbit
      rw [if_neg hbit, (linear_clear c).zero] at hrest
      have hzero := hrest rfl
      rw [Nat.testBit_zero, decide_eq_true_eq] at hbit
      omega

theorem eliminate_iff {n : Nat} (hn : cols.length ≤ n) :
    eliminate n cols = true ↔ Independent cols := by
  induction n generalizing cols with
  | zero =>
    rw [Nat.le_zero, List.length_eq_zero_iff] at hn
    rw [hn]
    simp [eliminate, Independent]
  | succ n ih =>
    cases cols with
    | nil => simp [eliminate, Independent]
    | cons c cs =>
      rw [List.length_cons] at hn
      rw [eliminate, Bool.and_eq_true, independent_cons, bne_iff_ne, ih]
      rw [List.length_map]
      omega

instance : Decidable (Independent cols) :=
  decidable_of_iff (eliminate cols.length cols = true) (eliminate_iff le_rfl)

/-- The sums of independent vectors are different. -/
theorem Independent.injective (h : Independent cols) (hi : i < 2 ^ cols.length)
    (hj : j < 2 ^ cols.length) (heq : combine cols i = combine cols j) : i = j := by
  have hxor := h (i ^^^ j) (Nat.xor_lt_two_pow hi hj)
  rw [combine_xor, Nat.xor_eq_zero_iff, Nat.xor_eq_zero_iff] at hxor
  exact hxor heq

/-! ### Unit vectors -/

theorem clear_two_pow {p q : Nat} (h : p ≠ q) : clear (2 ^ p) (2 ^ q) = 2 ^ q := by
  unfold clear
  rw [Nat.log2_two_pow, Nat.testBit_two_pow_of_ne (Ne.symm h)]
  rfl

theorem independent_powers {ps : List Nat} (h : ps.Nodup) : Independent (ps.map (2 ^ ·)) := by
  induction ps with
  | nil => simp [Independent]
  | cons p ps ih =>
    rw [List.nodup_cons] at h
    rw [List.map_cons, independent_cons]
    refine ⟨(Nat.two_pow_pos p).ne', ?_⟩
    have hsame : (ps.map (2 ^ ·)).map (clear (2 ^ p)) = ps.map (2 ^ ·) := by
      rw [List.map_map]
      apply List.map_congr_left
      intro q hq
      apply clear_two_pow
      rintro rfl
      exact h.1 hq
    rw [hsame]
    exact ih h.2

theorem mem_of_testBit_combine {ps : List Nat} {p : Nat}
    (h : (combine (ps.map (2 ^ ·)) j).testBit p = true) : p ∈ ps := by
  induction ps generalizing j with
  | nil => simp at h
  | cons q ps ih =>
    rw [List.map_cons, combine_cons, Nat.testBit_xor] at h
    rcases eq_or_ne q p with rfl | hne
    · exact List.mem_cons_self
    · apply List.mem_cons_of_mem
      apply @ih (j / 2)
      split at h
      · rw [Nat.testBit_two_pow_of_ne hne, Bool.false_xor] at h
        exact h
      · rw [Nat.zero_testBit, Bool.false_xor] at h
        exact h

/-- A vector is a sum of the unit vectors at its bits. -/
theorem exists_combine {ps : List Nat} (h : ∀ p, x.testBit p = true → p ∈ ps) :
    ∃ j < 2 ^ ps.length, combine (ps.map (2 ^ ·)) j = x := by
  induction ps generalizing x with
  | nil =>
    refine ⟨0, Nat.one_pos, ?_⟩
    apply Nat.eq_of_testBit_eq
    intro p
    rw [List.map_nil, combine_nil, Nat.zero_testBit]
    cases hp : x.testBit p
    · rfl
    · exact absurd (h p hp) List.not_mem_nil
  | cons q ps ih =>
    have hrest : ∀ p, (if x.testBit q then x ^^^ 2 ^ q else x).testBit p = true → p ∈ ps := by
      intro p hp
      split at hp
      · rename_i hq
        rw [Nat.testBit_xor] at hp
        rcases eq_or_ne q p with rfl | hne
        · rw [hq, Nat.testBit_two_pow_self] at hp
          cases hp
        · rw [Nat.testBit_two_pow_of_ne hne, Bool.xor_false] at hp
          exact (List.mem_cons.mp (h p hp)).resolve_left hne.symm
      · rename_i hq
        refine (List.mem_cons.mp (h p hp)).resolve_left ?_
        rintro rfl
        exact hq hp
    obtain ⟨j, hj, hx⟩ := ih hrest
    rw [List.length_cons, Nat.pow_succ]
    split at hx
    · refine ⟨2 * j + 1, by omega, ?_⟩
      have hbit : (2 * j + 1).testBit 0 = true := by simp
      have hhalf : (2 * j + 1) / 2 = j := by omega
      rw [List.map_cons, combine_cons, hbit, hhalf, hx, if_pos rfl, Nat.xor_comm x,
        Nat.xor_xor_cancel_left]
    · refine ⟨2 * j, by omega, ?_⟩
      have hbit : (2 * j).testBit 0 = false := by simp
      have hhalf : 2 * j / 2 = j := by omega
      rw [List.map_cons, combine_cons, hbit, hhalf, hx]
      exact Nat.zero_xor x

end Gf2

end Lib
