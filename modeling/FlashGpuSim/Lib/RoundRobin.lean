import Mathlib.Data.List.Basic
import Mathlib.Data.Nat.ModEq

/-!
A round-robin pointer over `n` places. Each grant goes to a place at least as near, from the
pointer on, as every place that always asks; the pointer then moves to the place after it.
-/

namespace Lib

variable {n p a b g : Nat}

/-- The number of places from the pointer `p` to `x`. -/
def ahead (n p x : Nat) : Nat := (x + (n - p % n)) % n

theorem ahead_lt (hn : 0 < n) (p x : Nat) : ahead n p x < n := Nat.mod_lt _ hn

/-- The place that is `k` places ahead of the pointer. -/
theorem ahead_place {k : Nat} (hk : k < n) : ahead n p ((k + p) % n) = k := by
  have hn : 0 < n := Nat.lt_of_le_of_lt (Nat.zero_le _) hk
  have hp := Nat.mod_lt p hn
  unfold ahead
  rw [Nat.mod_add_mod, Nat.add_mod, ← Nat.mod_add_div p n]
  have hsum : k + (p % n + n * (p / n)) + (n - (p % n + n * (p / n)) % n) =
      k + n * (p / n + 1) := by
    rw [Nat.add_mul_mod_self_left, Nat.mod_mod, Nat.mul_add]
    omega
  rw [← Nat.add_mod, hsum, Nat.add_mul_mod_self_left, Nat.mod_eq_of_lt hk]

theorem place_ahead (hx : a < n) : (ahead n p a + p) % n = a := by
  have hn : 0 < n := Nat.lt_of_le_of_lt (Nat.zero_le _) hx
  have hp := Nat.mod_lt p hn
  unfold ahead
  rw [Nat.mod_add_mod, Nat.add_assoc, Nat.add_mod]
  have hpoint : (n - p % n + p) % n = 0 := by
    have hsum : n - p % n + p = n * (p / n + 1) := by
      have hdiv := Nat.mod_add_div p n
      rw [Nat.mul_add]
      omega
    rw [hsum, Nat.mul_mod_right]
  rw [hpoint, Nat.add_zero, Nat.mod_mod, Nat.mod_eq_of_lt hx]

/-- Different places are at different distances. -/
theorem ahead_inj (ha : a < n) (hb : b < n) : ahead n p a = ahead n p b ↔ a = b := by
  constructor
  · intro heq
    rw [← place_ahead (p := p) ha, heq, place_ahead hb]
  · intro heq
    rw [heq]

/-- Once a place was granted, the places behind it come one by one nearer. -/
theorem ahead_next (hg : g < n) (ha : a < n) (hlt : ahead n p g < ahead n p a) :
    ahead n ((g + 1) % n) a = ahead n p a - ahead n p g - 1 := by
  have hn : 0 < n := Nat.lt_of_le_of_lt (Nat.zero_le _) hg
  have hk := ahead_lt hn p a
  have hplace : (ahead n p a - ahead n p g - 1 + (g + 1) % n) % n = a := by
    calc (ahead n p a - ahead n p g - 1 + (g + 1) % n) % n
        = (ahead n p a - ahead n p g - 1 + ((ahead n p g + p) % n + 1) % n) % n := by
          rw [place_ahead hg]
      _ = (ahead n p a - ahead n p g - 1 + (ahead n p g + p + 1)) % n := by
          rw [Nat.mod_add_mod, Nat.add_mod_mod]
      _ = (ahead n p a + p) % n := by congr 1; omega
      _ = a := place_ahead ha
  have hsmall : ahead n p a - ahead n p g - 1 < n := by omega
  calc ahead n ((g + 1) % n) a
      = ahead n ((g + 1) % n) ((ahead n p a - ahead n p g - 1 + (g + 1) % n) % n) := by
        rw [hplace]
    _ = ahead n p a - ahead n p g - 1 := ahead_place hsmall

/-- A granted place comes last. -/
theorem ahead_granted (hg : g < n) : ahead n ((g + 1) % n) g = n - 1 := by
  have hplace : (n - 1 + (g + 1) % n) % n = g := by
    rw [Nat.add_mod_mod]
    have hsum : n - 1 + (g + 1) = g + n := by omega
    rw [hsum, Nat.add_mod_right, Nat.mod_eq_of_lt hg]
  have hlast : ahead n ((g + 1) % n) ((n - 1 + (g + 1) % n) % n) = n - 1 :=
    ahead_place (by omega)
  rwa [hplace] at hlast

theorem ahead_lt_granted (hg : g < n) (ha : a < n) (hne : a ≠ g) :
    ahead n ((g + 1) % n) a < ahead n ((g + 1) % n) g := by
  have hn : 0 < n := Nat.lt_of_le_of_lt (Nat.zero_le _) hg
  have hdiff : ahead n ((g + 1) % n) a ≠ ahead n ((g + 1) % n) g :=
    fun heq => hne ((ahead_inj ha hg).mp heq)
  have hlt := ahead_lt hn ((g + 1) % n) a
  rw [ahead_granted hg] at hdiff ⊢
  omega

/-- The grants of a pointer that starts at the first number and ends at the second one, while
the places in `asks` always ask. -/
inductive Serves (n : Nat) (asks : Nat → Prop) : Nat → List Nat → Nat → Prop
  | nil (p : Nat) : Serves n asks p [] p
  | cons {p g q : Nat} {grants : List Nat} : g < n →
      (∀ x < n, asks x → ahead n p g ≤ ahead n p x) →
      Serves n asks ((g + 1) % n) grants q → Serves n asks p (g :: grants) q

variable {asks : Nat → Prop} {q : Nat} {grants before after : List Nat}

theorem Serves.concat (h : Serves n asks p grants q) (hg : g < n)
    (hnear : ∀ x < n, asks x → ahead n q g ≤ ahead n q x) :
    Serves n asks p (grants ++ [g]) ((g + 1) % n) := by
  induction h with
  | nil p => exact .cons hg hnear (.nil _)
  | cons hlt hfirst _ ih => exact .cons hlt hfirst (ih hnear)

/-- While a place asks and is not granted, every grant brings it nearer. -/
theorem Serves.ahead_le (h : Serves n asks p grants q) (hb : b < n) (hask : asks b)
    (hnot : b ∉ grants) : ahead n q b + grants.length ≤ ahead n p b := by
  induction h with
  | nil p => exact Nat.le_refl _
  | @cons p g q rest hg hfirst _ ih =>
    obtain ⟨hne, hrest⟩ := List.ne_and_not_mem_of_not_mem_cons hnot
    have hle := hfirst b hb hask
    have hdiff : ahead n p b ≠ ahead n p g := fun heq => hne ((ahead_inj hb hg).mp heq)
    have hlt : ahead n p g < ahead n p b := by omega
    have hnext := ahead_next hg hb hlt
    have hih := ih hrest
    rw [List.length_cons]
    omega

theorem Serves.drop (h : Serves n asks p (before ++ after) q) :
    ∃ middle, Serves n asks middle after q := by
  induction before generalizing p with
  | nil => exact ⟨p, h⟩
  | cons x rest ih =>
    cases h with
    | cons _ _ hrest => exact ih hrest

/-- The nearer of two places that ask is granted first. -/
theorem Serves.nearer_first (h : Serves n asks p (before ++ a :: after) q) (ha : a < n)
    (hb : b < n) (hask : asks b) (hlt : ahead n p b < ahead n p a) : b ∈ before := by
  induction before generalizing p with
  | nil =>
    cases h with
    | cons _ hfirst _ =>
      have hle := hfirst b hb hask
      omega
  | cons g rest ih =>
    cases h with
    | cons hg hfirst hrest =>
      rcases eq_or_ne b g with rfl | hne
      · exact List.mem_cons_self
      · apply List.mem_cons_of_mem
        have hle := hfirst b hb hask
        have hdiff : ahead n p b ≠ ahead n p g := fun heq => hne ((ahead_inj hb hg).mp heq)
        have hgb : ahead n p g < ahead n p b := by omega
        apply ih hrest
        rw [ahead_next hg hb hgb, ahead_next hg ha (hgb.trans hlt)]
        omega

/-- Between two grants of a place every other place that always asks is granted. -/
theorem Serves.fair {between : List Nat}
    (h : Serves n asks p (before ++ a :: (between ++ a :: after)) q) (hb : b < n)
    (hask : asks b) (hne : b ≠ a) : b ∈ between := by
  obtain ⟨middle, hmiddle⟩ := h.drop
  cases hmiddle with
  | cons ha _ hrest => exact hrest.nearer_first ha hb hask (ahead_lt_granted ha hb hne)

end Lib
