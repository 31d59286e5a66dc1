import Mathlib.Data.Set.Basic
import Mathlib.Order.Basic
import Mathlib.Logic.Function.Basic

/-!
Liveness of registers along the walks of a control-flow graph, and when several registers
may be kept in one. An instruction is known by the registers it reads, those it may write
and those it always overwrites. Two runs of one walk are compared: in one every register
has its own place, in the other `place` says where it is kept.
-/

namespace Lib

universe u v w x

/-- The instructions of each block and the edges between blocks. -/
structure FlowGraph (I : Type u) where
  insts : Nat → List I
  succ : Nat → Nat → Prop

variable {I : Type u} {R : Type v} {V : Type w} {E : Type x} {g : FlowGraph I}

/-- `r` is live before instruction `i` of block `b`: along some walk from there it is
read before an instruction overwrites it. -/
inductive LiveAt (g : FlowGraph I) (reads kills : I → Set R) : Nat → Nat → R → Prop
  | read {b i : Nat} {x : I} {r : R} (hx : (g.insts b)[i]? = some x) (hr : r ∈ reads x) :
      LiveAt g reads kills b i r
  | keep {b i : Nat} {x : I} {r : R} (hx : (g.insts b)[i]? = some x) (hr : r ∉ kills x)
      (h : LiveAt g reads kills b (i + 1) r) : LiveAt g reads kills b i r
  | edge {b c : Nat} {r : R} (hc : g.succ b c) (h : LiveAt g reads kills c 0 r) :
      LiveAt g reads kills b (g.insts b).length r

variable {reads kills reads' kills' : I → Set R} {b i : Nat} {r : R}

/-- More reads and fewer overwritten registers keep more registers live. -/
theorem LiveAt.mono (h : LiveAt g reads kills b i r)
    (hreads : ∀ b, ∀ x ∈ g.insts b, reads x ⊆ reads' x)
    (hkills : ∀ b, ∀ x ∈ g.insts b, kills' x ⊆ kills x) : LiveAt g reads' kills' b i r := by
  induction h with
  | read hx hr => exact .read hx (hreads _ _ (List.mem_of_getElem? hx) hr)
  | keep hx hr _ ih =>
    exact .keep hx (fun hk => hr (hkills _ _ (List.mem_of_getElem? hx) hk)) ih
  | edge hc _ ih => exact .edge hc ih

/-- A live register is read further on in its block, or it is live at the end. -/
theorem LiveAt.read_or_leave (h : LiveAt g reads kills b i r) :
    (∃ j x, i ≤ j ∧ (g.insts b)[j]? = some x ∧ r ∈ reads x) ∨
      LiveAt g reads kills b (g.insts b).length r := by
  induction h with
  | read hx hr => exact .inl ⟨_, _, le_rfl, hx, hr⟩
  | keep hx hr _ ih =>
    rcases ih with ⟨j, x, hj, hjx, hjr⟩ | hleave
    · exact .inl ⟨j, x, (Nat.le_succ _).trans hj, hjx, hjr⟩
    · exact .inr hleave
  | edge hc h _ => exact .inr (.edge hc h)

/-- A live register was overwritten earlier in its block, or it is live at the start. -/
theorem LiveAt.killed_or_enter (h : LiveAt g reads kills b i r) (hi : i ≤ (g.insts b).length) :
    (∃ j x, j < i ∧ (g.insts b)[j]? = some x ∧ r ∈ kills x) ∨ LiveAt g reads kills b 0 r := by
  induction i with
  | zero => exact .inr h
  | succ i ih =>
    have hx : (g.insts b)[i]? = some (g.insts b)[i] := List.getElem?_eq_getElem hi
    by_cases hkill : r ∈ kills (g.insts b)[i]
    · exact .inl ⟨i, _, Nat.lt_succ_self i, hx, hkill⟩
    · rcases ih (.keep hx hkill h) (Nat.le_of_succ_le hi) with ⟨j, x, hj, hjx, hjr⟩ | henter
      · exact .inl ⟨j, x, hj.trans (Nat.lt_succ_self i), hjx, hjr⟩
      · exact .inr henter

theorem LiveAt.le_length (h : LiveAt g reads kills b i r) : i ≤ (g.insts b).length := by
  cases h with
  | read hx _ => exact (List.getElem?_eq_some_iff.mp hx).1.le
  | keep hx _ _ => exact (List.getElem?_eq_some_iff.mp hx).1.le
  | edge _ _ => exact le_rfl

/-- A register that no instruction of the block overwrites is live at every earlier
point. -/
theorem LiveAt.back {j : Nat} (h : LiveAt g reads kills b j r)
    (hkeep : ∀ x ∈ g.insts b, r ∉ kills x) (hij : i ≤ j) : LiveAt g reads kills b i r := by
  induction j with
  | zero => exact Nat.le_zero.mp hij ▸ h
  | succ j ih =>
    rcases Nat.lt_or_eq_of_le hij with hlt | rfl
    · have hj : j < (g.insts b).length := h.le_length
      exact ih (.keep (List.getElem?_eq_getElem hj) (hkeep _ (List.getElem_mem hj)) h)
        (Nat.le_of_lt_succ hlt)
    · exact h

/-- `xs` are the instructions met on some walk that starts before instruction `i` of
block `b` and may stop anywhere. -/
inductive Walk (g : FlowGraph I) : Nat → Nat → List I → Prop
  | stop (b i : Nat) : Walk g b i []
  | inst {b i : Nat} {x : I} {xs : List I} (hx : (g.insts b)[i]? = some x)
      (h : Walk g b (i + 1) xs) : Walk g b i (x :: xs)
  | edge {b c : Nat} {xs : List I} (hc : g.succ b c) (h : Walk g c 0 xs) :
      Walk g b (g.insts b).length xs

/-- What instructions do. `effect n x e σ` is the environment and the register writes, in
order, that `x` leaves as the `n`-th instruction of a walk: what others did to the
environment by then is part of it. The laws say that `reads`, `writes` and `kills` are
what the instruction reads, may write and always writes. -/
structure Semantics (I : Type u) (R : Type v) (V : Type w) (E : Type x) where
  reads : I → List R
  writes : I → Set R
  kills : I → Set R
  effect : Nat → I → E → (R → V) → E × List (R × V)
  effect_reads : ∀ n x e σ τ, (∀ r ∈ reads x, σ r = τ r) → effect n x e σ = effect n x e τ
  effect_writes : ∀ n x e σ, ∀ w ∈ (effect n x e σ).2, w.1 ∈ writes x
  effect_kills : ∀ n x e σ, ∀ r ∈ kills x, ∃ w ∈ (effect n x e σ).2, w.1 = r

namespace Semantics

variable [DecidableEq R]

/-- The writes of one instruction, with register `r` kept at `place r`. -/
def writeBack (place : R → R) (σ : R → V) : List (R × V) → R → V
  | [] => σ
  | w :: ws => writeBack place (Function.update σ (place w.1) w.2) ws

/-- The values that the instructions of a walk read, one list for each. -/
def readTrace (m : Semantics I R V E) (place : R → R) :
    Nat → E → (R → V) → List I → List (List V)
  | _, _, _, [] => []
  | n, e, σ, x :: xs =>
    let done := m.effect n x e (σ ∘ place)
    (m.reads x).map (σ ∘ place) ::
      readTrace m place (n + 1) done.1 (writeBack place σ done.2) xs

/-- The live registers of the program, when the registers are what `m` says they are. -/
abbrev Live (m : Semantics I R V E) (g : FlowGraph I) : Nat → Nat → R → Prop :=
  LiveAt g (fun x => {r | r ∈ m.reads x}) m.kills

/-- No instruction may write a register at the place of another one that is live behind
it. -/
def Keeps (m : Semantics I R V E) (g : FlowGraph I) (place : R → R) : Prop :=
  ∀ b i x r s, (g.insts b)[i]? = some x → s ∈ m.writes x → m.Live g b (i + 1) r →
    place s = place r → s = r

variable {m : Semantics I R V E} {place : R → R} {σ τ : R → V} {n : Nat} {e : E} {xs : List I}

theorem writeBack_agree {ws : List (R × V)} (honly : ∀ w ∈ ws, place w.1 = place r → w.1 = r)
    (hagree : τ (place r) = σ r ∨ ∃ w ∈ ws, w.1 = r) :
    writeBack place τ ws (place r) = writeBack id σ ws r := by
  induction ws generalizing σ τ with
  | nil =>
    rcases hagree with hagree | ⟨w, hw, -⟩
    · exact hagree
    · cases hw
  | cons w ws ih =>
    refine ih (fun w' hw' => honly w' (List.mem_cons_of_mem _ hw')) ?_
    by_cases hr : w.1 = r
    · left
      rw [hr, id_eq, Function.update_self, Function.update_self]
    · have hplace : place r ≠ place w.1 :=
        fun heq => hr (honly w List.mem_cons_self heq.symm)
      rcases hagree with hagree | ⟨w', hw', hw'r⟩
      · left
        rw [id_eq, Function.update_of_ne hplace, Function.update_of_ne (Ne.symm hr)]
        exact hagree
      · right
        rcases List.mem_cons.mp hw' with rfl | hmem
        · exact absurd hw'r hr
        · exact ⟨w', hmem, hw'r⟩

/-- One instruction keeps the values of the live registers. -/
theorem Keeps.step {x : I} (h : m.Keeps g place) (hx : (g.insts b)[i]? = some x)
    (hagree : ∀ r, m.Live g b i r → τ (place r) = σ r) :
    m.effect n x e (τ ∘ place) = m.effect n x e (σ ∘ id) ∧
    ∀ r, m.Live g b (i + 1) r →
      writeBack place τ (m.effect n x e (σ ∘ id)).2 (place r) =
        writeBack id σ (m.effect n x e (σ ∘ id)).2 r := by
  refine ⟨m.effect_reads n x e _ _ fun r hr => hagree r (.read hx hr), fun r hr => ?_⟩
  refine writeBack_agree (fun w hw heq => ?_) ?_
  · exact h b i x r w.1 hx (m.effect_writes n x e _ w hw) hr heq
  · by_cases hkill : r ∈ m.kills x
    · exact .inr (m.effect_kills n x e _ r hkill)
    · exact .inl (hagree r (.keep hx hkill hr))

/-- Every register read along a walk has the value it has with separate registers. -/
theorem Keeps.readTrace_eq (h : m.Keeps g place) (hwalk : Walk g b i xs)
    (hagree : ∀ r, m.Live g b i r → τ (place r) = σ r) :
    m.readTrace place n e τ xs = m.readTrace id n e σ xs := by
  induction hwalk generalizing n e σ τ with
  | stop => rfl
  | inst hx hwalk ih =>
    obtain ⟨heffect, hafter⟩ := h.step (n := n) (e := e) hx hagree
    unfold readTrace
    rw [heffect]
    exact congrArg₂ List.cons (List.map_congr_left fun r hr => hagree r (.read hx hr))
      (ih hafter)
  | edge hc hwalk ih => exact ih fun r hr => hagree r (.edge hc hr)

end Semantics

end Lib
