import Mathlib.Algebra.BigOperators.Group.List.Basic
import Mathlib.Algebra.Order.Ring.Nat

/-!
Counters with several digits, the fastest digit first. Each digit has an extent of its own, and
a digit that reaches its extent goes back to zero and carries.
-/

namespace Lib

namespace Odometer

/-- What the digits show after `n` ticks. -/
def shown : List Nat → Nat → List Nat
  | [], _ => []
  | e :: es, n => n % e :: shown es (n / e)

/-- The next digits, or none when the last digit carries. -/
def tick : List Nat → List Nat → Option (List Nat)
  | e :: es, d :: ds => if d + 1 < e then some ((d + 1) :: ds) else (tick es ds).map (0 :: ·)
  | _, _ => none

/-- The number of ticks that digits stand for. -/
def count : List Nat → List Nat → Nat
  | e :: es, d :: ds => d + e * count es ds
  | _, _ => 0

variable {es ds : List Nat} {n : Nat}

theorem shown_zero : shown es 0 = es.map fun _ => 0 := by
  induction es with
  | nil => rfl
  | cons e es ih => simp [shown, ih]

theorem shown_lt (hpos : ∀ e ∈ es, 0 < e) : List.Forall₂ (· < ·) (shown es n) es := by
  induction es generalizing n with
  | nil => exact .nil
  | cons e es ih =>
    apply List.Forall₂.cons (Nat.mod_lt n (hpos e (by simp)))
    exact ih fun x hx => hpos x (by simp [hx])

theorem count_shown (h : n < es.prod) : count es (shown es n) = n := by
  induction es generalizing n with
  | nil =>
    simp only [List.prod_nil, Nat.lt_one_iff] at h
    simp [h, count]
  | cons e es ih =>
    have hq : n / e < es.prod := Nat.div_lt_of_lt_mul (by simpa using h)
    simp only [shown, count, ih hq]
    exact Nat.mod_add_div n e

theorem count_lt (h : List.Forall₂ (· < ·) ds es) : count es ds < es.prod := by
  induction h with
  | nil => simp [count]
  | @cons d e ds es hd _ ih =>
    have hle : e * (count es ds + 1) ≤ e * es.prod := Nat.mul_le_mul_left e ih
    simp only [count, List.prod_cons]
    rw [Nat.mul_add] at hle
    omega

theorem shown_count (h : List.Forall₂ (· < ·) ds es) : shown es (count es ds) = ds := by
  induction h with
  | nil => rfl
  | @cons d e ds es hd _ ih =>
    have hdiv : (d + e * count es ds) / e = count es ds := by
      rw [Nat.add_mul_div_left _ _ (by omega), Nat.div_eq_of_lt hd, Nat.zero_add]
    simp only [count, shown, hdiv, ih, Nat.add_mul_mod_self_left, Nat.mod_eq_of_lt hd]

theorem succ_of_lt {e d q : Nat} (h : d + 1 < e) :
    (e * q + d + 1) % e = d + 1 ∧ (e * q + d + 1) / e = q := by
  have he : 0 < e := by omega
  rw [Nat.add_assoc, Nat.mul_add_mod, Nat.mod_eq_of_lt h, Nat.mul_add_div he,
    Nat.div_eq_of_lt h]
  exact ⟨rfl, rfl⟩

theorem succ_of_carry {e d q : Nat} (he : 0 < e) (h : d + 1 = e) :
    (e * q + d + 1) % e = 0 ∧ (e * q + d + 1) / e = q + 1 := by
  have hnext : e * q + d + 1 = e * (q + 1) := by
    rw [Nat.mul_add]
    omega
  rw [hnext, Nat.mul_mod_right, Nat.mul_div_cancel_left _ he]
  exact ⟨rfl, rfl⟩

/-- A tick shows the next number. -/
theorem tick_shown (hpos : ∀ e ∈ es, 0 < e) (h : n + 1 < es.prod) :
    tick es (shown es n) = some (shown es (n + 1)) := by
  induction es generalizing n with
  | nil => simp at h
  | cons e es ih =>
    have he : 0 < e := hpos e (by simp)
    have hn : e * (n / e) + n % e = n := Nat.div_add_mod n e
    simp only [shown, tick]
    split
    · rename_i hcarry
      obtain ⟨hmod, hdiv⟩ := succ_of_lt (q := n / e) hcarry
      rw [hn] at hmod hdiv
      rw [hmod, hdiv]
    · rename_i hcarry
      have hlast : n % e + 1 = e := by
        have hr := Nat.mod_lt n he
        omega
      obtain ⟨hmod, hdiv⟩ := succ_of_carry (q := n / e) he hlast
      rw [hn] at hmod hdiv
      have hq : n / e + 1 < es.prod := by
        rw [← hdiv]
        exact Nat.div_lt_of_lt_mul (by simpa using h)
      rw [hmod, hdiv, ih (fun x hx => hpos x (by simp [hx])) hq]
      rfl

/-- The counter stops at its last number. -/
theorem tick_last (hpos : ∀ e ∈ es, 0 < e) (h : n + 1 = es.prod) :
    tick es (shown es n) = none := by
  induction es generalizing n with
  | nil => rfl
  | cons e es ih =>
    have he : 0 < e := hpos e (by simp)
    have hn : e * (n / e) + n % e = n := Nat.div_add_mod n e
    have hmod : (n + 1) % e = 0 := by
      rw [h, List.prod_cons]
      exact Nat.mul_mod_right _ _
    have hlast : n % e + 1 = e := by
      have hr := Nat.mod_lt n he
      by_contra hcarry
      have hsucc := (succ_of_lt (q := n / e) (by omega : n % e + 1 < e)).1
      rw [hn, hmod] at hsucc
      omega
    have hdiv := (succ_of_carry (q := n / e) he hlast).2
    rw [hn, h, List.prod_cons, Nat.mul_div_cancel_left _ he] at hdiv
    simp only [shown, tick]
    rw [if_neg (by omega), ih (fun x hx => hpos x (by simp [hx])) hdiv.symm]
    rfl

end Odometer

end Lib
