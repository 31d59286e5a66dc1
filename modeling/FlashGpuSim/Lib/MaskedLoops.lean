import Mathlib.Logic.Function.Basic
import Mathlib.Tactic

/-!
Loops over the lanes of a group of threads. A lane whose guard fails is switched off when the loop
comes to it, and the lanes that run share a state or each change a part of their own.
-/

namespace Lib

universe u

/-- A state with a mask of lanes. -/
structure Masked (n : Nat) (σ : Type u) where
  active : Fin n → Bool
  state : σ

namespace Masked

variable {n : Nat} {σ τ : Type u}

/-- One lane, whose `body` sees the lanes that are still on. -/
def step (skip : σ → Fin n → Bool) (body : (Fin n → Bool) → Fin n → σ → σ) (w : Masked n σ)
    (lane : Fin n) : Masked n σ :=
  if w.active lane then
    if skip w.state lane then { w with active := Function.update w.active lane false }
    else { w with state := body w.active lane w.state }
  else w

/-- The first lanes, in their order. -/
def run (skip : σ → Fin n → Bool) (body : (Fin n → Bool) → Fin n → σ → σ) (w : Masked n σ) :
    Nat → Masked n σ
  | 0 => w
  | k + 1 => if h : k < n then (run skip body w k).step skip body ⟨k, h⟩ else run skip body w k

variable {skip : σ → Fin n → Bool} {body : (Fin n → Bool) → Fin n → σ → σ} {w : Masked n σ}

theorem step_off {lane : Fin n} (h : w.active lane = false) : w.step skip body lane = w := by
  unfold step
  rw [h]
  exact if_neg Bool.false_ne_true

theorem step_skip {lane : Fin n} (h : w.active lane = true) (hskip : skip w.state lane = true) :
    w.step skip body lane = { w with active := Function.update w.active lane false } := by
  unfold step
  rw [if_pos h, if_pos hskip]

theorem step_body {lane : Fin n} (h : w.active lane = true) (hskip : skip w.state lane = false) :
    w.step skip body lane = { w with state := body w.active lane w.state } := by
  unfold step
  rw [if_pos h, if_neg (by rw [hskip]; exact Bool.false_ne_true)]

theorem run_succ {k : Nat} (hk : k < n) :
    w.run skip body (k + 1) = (w.run skip body k).step skip body ⟨k, hk⟩ :=
  dif_pos hk

/-- What holds before the first lane and is kept by each lane. -/
theorem run_invariant (inv : Nat → Masked n σ → Prop) (hstart : inv 0 w)
    (hstep : ∀ k (hk : k < n) v, inv k v → inv (k + 1) (v.step skip body ⟨k, hk⟩)) {k : Nat}
    (hk : k ≤ n) : inv k (w.run skip body k) := by
  induction k with
  | zero => exact hstart
  | succ k ih =>
    rw [run_succ hk]
    exact hstep k hk _ (ih (Nat.le_of_succ_le hk))

/-! ### Lanes with a state of their own -/

section Own

variable (guard : τ → Bool) (f : (Fin n → Bool) → Fin n → (Fin n → τ) → τ)
  (w : Masked n (Fin n → τ))

/-- The lanes that run. -/
def executes (lane : Fin n) : Bool := w.active lane && guard (w.state lane)

/-- The lanes that are on when the loop comes to a lane. -/
def onAt (lane j : Fin n) : Bool := w.active j && (decide (lane ≤ j) || guard (w.state j))

/-- The lanes each change a state of their own, and may read those of the others. -/
def runOwn (k : Nat) : Masked n (Fin n → τ) :=
  w.run (fun s lane => !guard (s lane))
    (fun active lane s => Function.update s lane (f active lane s)) k

variable {guard f w} {k : Nat} {lane j : Fin n}

/-- A lane has its own state until the loop comes to it, and the mask says which lanes have run. -/
theorem runOwn_before (hk : k ≤ n) :
    (∀ j : Fin n, k ≤ j.val → (w.runOwn guard f k).state j = w.state j) ∧
      ∀ j, (w.runOwn guard f k).active j =
        (w.active j && (decide (k ≤ j.val) || guard (w.state j))) := by
  refine run_invariant (fun k (v : Masked n (Fin n → τ)) =>
    (∀ j : Fin n, k ≤ j.val → v.state j = w.state j) ∧
    ∀ j, v.active j = (w.active j && (decide (k ≤ j.val) || guard (w.state j)))) ?_ ?_ hk
  · exact ⟨fun _ _ => rfl, fun j => by simp⟩
  · rintro k hk v ⟨hstate, hactive⟩
    have hlane : v.state ⟨k, hk⟩ = w.state ⟨k, hk⟩ := hstate _ (Nat.le_refl k)
    have hother : ∀ j : Fin n, j ≠ ⟨k, hk⟩ → (k + 1 ≤ j.val ↔ k ≤ j.val) := by
      intro j hj
      have hne : j.val ≠ k := fun h => hj (Fin.ext h)
      omega
    have hon : v.active ⟨k, hk⟩ = w.active ⟨k, hk⟩ := by
      rw [hactive]
      simp
    cases ha : v.active ⟨k, hk⟩ with
    | false =>
      rw [step_off ha]
      rw [ha] at hon
      refine ⟨fun j hj => hstate j (by omega), fun j => ?_⟩
      rcases eq_or_ne j ⟨k, hk⟩ with rfl | hne
      · rw [ha, ← hon, Bool.false_and]
      · rw [hactive]
        simp only [hother j hne]
    | true =>
      cases hg : guard (v.state ⟨k, hk⟩) with
      | false =>
        rw [step_skip ha (by rw [hg]; rfl)]
        rw [hlane] at hg
        refine ⟨fun j hj => hstate j (by omega), fun j => ?_⟩
        rcases eq_or_ne j ⟨k, hk⟩ with rfl | hne
        · show Function.update v.active _ false _ = _
          rw [Function.update_self, hg]
          simp
        · show Function.update v.active _ false j = _
          rw [Function.update_of_ne hne, hactive]
          simp only [hother j hne]
      | true =>
        rw [step_body ha (by rw [hg]; rfl)]
        rw [hlane] at hg
        refine ⟨fun j hj => ?_, fun j => ?_⟩
        · have hne : j ≠ ⟨k, hk⟩ := by
            rintro rfl
            exact absurd hj (Nat.not_succ_le_self k)
          show Function.update v.state _ _ j = _
          rw [Function.update_of_ne hne]
          exact hstate j (by omega)
        · show v.active j = _
          rw [hactive]
          rcases eq_or_ne j ⟨k, hk⟩ with rfl | hne
          · rw [hg]
            simp
          · simp only [hother j hne]

/-- A lane has its last state once the loop has passed it. -/
theorem runOwn_after (hj : j.val < k) (hk : k ≤ n) :
    (w.runOwn guard f k).state j = (w.runOwn guard f n).state j := by
  have hlast : ∀ m, k ≤ m → m ≤ n → (w.runOwn guard f m).state j = (w.runOwn guard f k).state j := by
    intro m hm
    induction m, hm using Nat.le_induction with
    | base => exact fun _ => rfl
    | succ m hm ih =>
      intro hn
      have hne : j ≠ ⟨m, hn⟩ := by
        rintro rfl
        exact absurd hj (Nat.not_lt.mpr hm)
      rw [← ih (Nat.le_of_succ_le hn)]
      unfold runOwn
      rw [run_succ hn]
      unfold step
      split
      · split
        · rfl
        · exact Function.update_of_ne hne _ _
      · rfl
  exact (hlast n hk (Nat.le_refl n)).symm

/-- What a lane ends with: it sees the last states of the lanes before it, and the first ones of
itself and the lanes behind it. -/
theorem runOwn_state (lane : Fin n) : (w.runOwn guard f n).state lane =
    if w.executes guard lane then
      f (w.onAt guard lane) lane
        (fun j => if j < lane then (w.runOwn guard f n).state j else w.state j)
    else w.state lane := by
  obtain ⟨hstate, hactive⟩ : (∀ j : Fin n, lane.val ≤ j.val →
      (w.runOwn guard f lane.val).state j = w.state j) ∧ _ := runOwn_before lane.isLt.le
  have hlane := hstate lane (Nat.le_refl _)
  have hon : (w.runOwn guard f lane.val).active = w.onAt guard lane := funext hactive
  have hself : w.onAt guard lane lane = w.active lane := by
    unfold onAt
    simp
  have hseen : (w.runOwn guard f lane.val).state =
      fun j => if j < lane then (w.runOwn guard f n).state j else w.state j := by
    funext j
    split
    · rename_i hlt
      exact runOwn_after hlt lane.isLt.le
    · rename_i hge
      exact hstate j (Nat.le_of_not_lt hge)
  rw [← runOwn_after (Nat.lt_succ_self lane.val) lane.isLt]
  have hlast : w.runOwn guard f (lane.val + 1) = (w.runOwn guard f lane.val).step
      (fun s lane => !guard (s lane)) (fun active lane s => Function.update s lane (f active lane s))
      lane := run_succ lane.isLt
  rw [hlast]
  generalize w.runOwn guard f lane.val = v at hon hlane hseen
  unfold executes
  rw [← hself, ← hon, ← hlane, ← hseen]
  cases ha : v.active lane with
  | false =>
    rw [step_off ha]
    simp
  | true =>
    cases hg : guard (v.state lane) with
    | false =>
      rw [step_skip ha (by rw [hg]; rfl)]
      simp
    | true =>
      rw [step_body ha (by rw [hg]; rfl)]
      exact Function.update_self _ _ _

end Own

end Masked

end Lib
