import FlashGpuSim.Lib.Outcome

/-!
Runs of a system whose operations may stop at a failed assertion. The guard
`allowed` says which operation the environment may call in which state.
-/

namespace Lib

universe u v w

variable {ε : Type u} {σ : Type v} {ω : Type w}

/-- States reached from `init` by allowed operations none of which fails. -/
inductive Reaches (step : σ → ω → Except ε σ) (allowed : σ → ω → Prop)
    (init : σ) : σ → Prop
  | refl : Reaches step allowed init init
  | next {s t : σ} {o : ω} : Reaches step allowed init s → allowed s o →
      step s o = .ok t → Reaches step allowed init t

variable {step : σ → ω → Except ε σ} {allowed : σ → ω → Prop} {init s t : σ}

/-- What holds at the start and survives every allowed operation holds in every
reachable state. -/
theorem Reaches.invariant (inv : σ → Prop) (h : Reaches step allowed init s)
    (hinit : inv init)
    (hstep : ∀ s t o, inv s → allowed s o → step s o = .ok t → inv t) :
    inv s := by
  induction h with
  | refl => exact hinit
  | next _ hallowed hok ih => exact hstep _ _ _ ih hallowed hok

/-- The operations of a list, one after the other, each tested against `allowed` in
the state before it. -/
def runAllowed (step : σ → ω → Except ε σ) (allowed : σ → ω → Prop)
    [∀ s o, Decidable (allowed s o)] : σ → List ω → Option σ
  | s, [] => some s
  | s, o :: rest =>
    if allowed s o then
      match step s o with
      | .ok t => runAllowed step allowed t rest
      | .error _ => none
    else none

theorem Reaches.of_runAllowed [∀ s o, Decidable (allowed s o)] {ops : List ω}
    (h : Reaches step allowed init s) (hrun : runAllowed step allowed s ops = some t) :
    Reaches step allowed init t := by
  induction ops generalizing s with
  | nil =>
    cases hrun
    exact h
  | cons o rest ih =>
    unfold runAllowed at hrun
    split at hrun
    · rename_i hallowed
      split at hrun
      · rename_i u hstep
        exact ih (.next h hallowed hstep) hrun
      · cases hrun
    · cases hrun

end Lib
