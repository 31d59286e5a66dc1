import Mathlib.Tactic

/-!
Programs that may stop at a failed assertion, as `Except` computations, and the
rules that carry a postcondition through them. A loop is a `List.foldlM`; its
rule takes an invariant that also sees the iterations still to come.
-/

namespace Lib

universe u v w

variable {ε : Type u} {α : Type v} {β : Type v} {σ : Type v} {ι : Type w}

/-- A normal result of `r` satisfies `post`, and an error satisfies `fail`. -/
def Outcome (r : Except ε α) (post : α → Prop) (fail : ε → Prop) : Prop :=
  match r with
  | .ok a => post a
  | .error e => fail e

/-- Stop with `e` unless the asserted condition holds. -/
def require (c : Bool) (e : ε) : Except ε PUnit :=
  if c then .ok ⟨⟩ else .error e

@[simp] theorem outcome_ok {a : α} {post : α → Prop} {fail : ε → Prop} :
    Outcome (.ok a) post fail ↔ post a := Iff.rfl

@[simp] theorem outcome_pure {a : α} {post : α → Prop} {fail : ε → Prop} :
    Outcome (pure a) post fail ↔ post a := Iff.rfl

@[simp] theorem outcome_error {e : ε} {post : α → Prop} {fail : ε → Prop} :
    Outcome (.error e) post fail ↔ fail e := Iff.rfl

theorem Outcome.mono {r : Except ε α} {post post' : α → Prop}
    {fail fail' : ε → Prop} (h : Outcome r post fail)
    (hpost : ∀ a, post a → post' a) (hfail : ∀ e, fail e → fail' e) :
    Outcome r post' fail' := by
  cases r with
  | ok a => exact hpost a h
  | error e => exact hfail e h

theorem Outcome.imp {r : Except ε α} {post post' : α → Prop}
    {fail : ε → Prop} (h : Outcome r post fail)
    (hpost : ∀ a, post a → post' a) : Outcome r post' fail :=
  h.mono hpost (fun _ he => he)

theorem Outcome.and {r : Except ε α} {post post' : α → Prop}
    {fail fail' : ε → Prop} (h : Outcome r post fail)
    (h' : Outcome r post' fail') :
    Outcome r (fun a => post a ∧ post' a) (fun e => fail e ∧ fail' e) := by
  cases r with
  | ok a => exact ⟨h, h'⟩
  | error e => exact ⟨h, h'⟩

theorem Outcome.of_ok {r : Except ε α} {post : α → Prop} {fail : ε → Prop}
    {a : α} (h : Outcome r post fail) (hr : r = .ok a) : post a := by
  subst hr
  exact h

theorem Outcome.of_error {r : Except ε α} {post : α → Prop} {fail : ε → Prop}
    {e : ε} (h : Outcome r post fail) (hr : r = .error e) : fail e := by
  subst hr
  exact h

/-- A computation that cannot fail has a result. -/
theorem Outcome.exists_ok {r : Except ε α} {post : α → Prop}
    (h : Outcome r post (fun _ => False)) : ∃ a, r = .ok a ∧ post a := by
  cases r with
  | ok a => exact ⟨a, rfl, h⟩
  | error e => exact absurd h id

theorem outcome_of_ok_imp {r : Except ε α} {post : α → Prop}
    (h : ∀ a, r = .ok a → post a) : Outcome r post (fun _ => True) := by
  cases r with
  | ok a => exact h a rfl
  | error e => trivial

theorem outcome_bind {r : Except ε α} {f : α → Except ε β} {post : β → Prop}
    {fail : ε → Prop}
    (h : Outcome r (fun a => Outcome (f a) post fail) fail) :
    Outcome (r >>= f) post fail := by
  cases r with
  | ok a => exact h
  | error e => exact h

theorem outcome_map {r : Except ε α} {f : α → β} {post : β → Prop} {fail : ε → Prop} :
    Outcome (f <$> r) post fail ↔ Outcome r (fun a => post (f a)) fail := by
  cases r with
  | ok a => exact Iff.rfl
  | error e => exact Iff.rfl

theorem outcome_require {c : Bool} {e : ε} {post : PUnit → Prop}
    {fail : ε → Prop} (hok : c = true → post ⟨⟩) (herr : c = false → fail e) :
    Outcome (require c e) post fail := by
  unfold require
  cases c with
  | true => exact hok rfl
  | false => exact herr rfl

theorem require_true {c : Bool} {e : ε} {u : PUnit} (h : require c e = .ok u) : c = true := by
  unfold require at h
  cases c with
  | true => rfl
  | false => cases h

theorem require_pass {c : Bool} {e : ε} (h : c = true) : require c e = .ok ⟨⟩ := if_pos h

theorem require_ok {p : Prop} [Decidable p] {e : ε} {u : PUnit}
    (h : require (decide p) e = .ok u) : p := by
  unfold require at h
  split at h
  · rename_i hp
    exact of_decide_eq_true hp
  · cases h

/-- The loop rule. The invariant is indexed by the iterations still to come,
so it can speak about the elements that the loop has not touched yet. -/
theorem outcome_foldlM {body : σ → ι → Except ε σ} {fail : ε → Prop}
    (inv : List ι → σ → Prop)
    (hbody : ∀ i rest s, inv (i :: rest) s →
      Outcome (body s i) (inv rest) fail)
    (todo : List ι) (s : σ) (hinit : inv todo s) :
    Outcome (todo.foldlM body s) (inv []) fail := by
  induction todo generalizing s with
  | nil => exact hinit
  | cons i rest ih =>
    rw [List.foldlM_cons]
    apply outcome_bind
    exact (hbody i rest s hinit).imp (fun t ht => ih t ht)

/-- A change of representation that every iteration commutes with commutes with the
loop. -/
theorem foldlM_map_state {body : σ → ι → Except ε σ} {g : σ → σ}
    (hbody : ∀ s i, body (g s) i = g <$> body s i) (todo : List ι) (s : σ) :
    todo.foldlM body (g s) = g <$> todo.foldlM body s := by
  induction todo generalizing s with
  | nil => rfl
  | cons i rest ih =>
    rw [List.foldlM_cons, List.foldlM_cons, hbody]
    cases body s i with
    | ok t => exact ih t
    | error e => rfl

/-- The bind of a successful computation, read backwards. -/
theorem bind_eq_ok {r : Except ε α} {f : α → Except ε β} {b : β}
    (h : (r >>= f) = .ok b) : ∃ a, r = .ok a ∧ f a = .ok b := by
  cases r with
  | ok a => exact ⟨a, rfl, h⟩
  | error e => cases h

/-- Continuations that agree on every result give the same computation. -/
theorem bind_congr_ok {r : Except ε α} {f g : α → Except ε β}
    (h : ∀ a, r = .ok a → f a = g a) : (r >>= f) = (r >>= g) := by
  cases r with
  | ok a => exact h a rfl
  | error e => rfl

/-- What every iteration of a loop keeps, the loop keeps. -/
theorem foldlM_invariant {body : σ → ι → Except ε σ} (inv : σ → Prop) {todo : List ι} {s t : σ}
    (hbody : ∀ s i t, i ∈ todo → inv s → body s i = .ok t → inv t) (h : inv s)
    (hok : todo.foldlM body s = .ok t) : inv t := by
  induction todo generalizing s with
  | nil =>
    cases hok
    exact h
  | cons i rest ih =>
    rw [List.foldlM_cons] at hok
    obtain ⟨s', hs', hrest⟩ := bind_eq_ok hok
    refine ih (fun s j t hj => hbody s j t (List.mem_cons_of_mem _ hj)) ?_ hrest
    exact hbody s i s' List.mem_cons_self h hs'

/-- A loop none of whose iterations fails has a result. -/
theorem foldlM_ok {body : σ → ι → Except ε σ} (inv : σ → Prop) {todo : List ι} {s : σ}
    (hbody : ∀ i ∈ todo, ∀ s, inv s → ∃ t, body s i = .ok t ∧ inv t) (h : inv s) :
    ∃ t, todo.foldlM body s = .ok t ∧ inv t := by
  induction todo generalizing s with
  | nil => exact ⟨s, rfl, h⟩
  | cons i rest ih =>
    obtain ⟨t, ht, hinv⟩ := hbody i List.mem_cons_self s h
    obtain ⟨t', ht', hinv'⟩ := ih (fun j hj => hbody j (List.mem_cons_of_mem _ hj)) hinv
    refine ⟨t', ?_, hinv'⟩
    rw [List.foldlM_cons, ht]
    exact ht'

/-- A traversal none of whose steps fails relates each element to its result. -/
theorem mapM_ok {ρ : Type v} {f : α → Except ε ρ} {rel : α → ρ → Prop} {l : List α}
    (h : ∀ x ∈ l, ∃ y, f x = .ok y ∧ rel x y) :
    ∃ ys, l.mapM f = .ok ys ∧ List.Forall₂ rel l ys := by
  induction l with
  | nil => exact ⟨[], rfl, .nil⟩
  | cons x rest ih =>
    obtain ⟨y, hy, hrel⟩ := h x List.mem_cons_self
    obtain ⟨ys, hys, hall⟩ := ih fun x hx => h x (List.mem_cons_of_mem _ hx)
    refine ⟨y :: ys, ?_, .cons hrel hall⟩
    rw [List.mapM_cons, hy]
    show (rest.mapM f >>= _) = _
    rw [hys]
    rfl

/-- A traversal that succeeded gave each element its result. -/
theorem forall₂_of_mapM {ρ : Type v} {f : α → Except ε ρ} {l : List α} {ys : List ρ}
    (h : l.mapM f = .ok ys) : List.Forall₂ (fun x y => f x = .ok y) l ys := by
  induction l generalizing ys with
  | nil =>
    cases h
    exact .nil
  | cons x rest ih =>
    rw [List.mapM_cons] at h
    obtain ⟨y, hy, h⟩ := bind_eq_ok h
    obtain ⟨more, hrest, h⟩ := bind_eq_ok h
    cases h
    exact .cons hy (ih hrest)

theorem foldlM_skip {body : σ → ι → Except ε σ} {l : List ι}
    (hskip : ∀ s, ∀ i ∈ l, body s i = .ok s) (s : σ) : l.foldlM body s = .ok s := by
  induction l with
  | nil => rfl
  | cons i rest ih =>
    rw [List.foldlM_cons, hskip s i List.mem_cons_self]
    exact ih fun s j hj => hskip s j (List.mem_cons_of_mem _ hj)

/-- A loop in which one iteration alone does something. -/
theorem foldlM_only {body : σ → ι → Except ε σ} {l : List ι} (hnodup : l.Nodup) {i : ι}
    (hi : i ∈ l) (hskip : ∀ s, ∀ j ∈ l, j ≠ i → body s j = .ok s) (s : σ) :
    l.foldlM body s = body s i := by
  obtain ⟨before, after, rfl⟩ := List.append_of_mem hi
  obtain ⟨-, hafter, hapart⟩ := List.nodup_append.mp hnodup
  rw [List.foldlM_append, foldlM_skip fun s j hj => hskip s j (List.mem_append_left _ hj)
    (hapart j hj i List.mem_cons_self)]
  show (i :: after).foldlM body s = body s i
  rw [List.foldlM_cons]
  cases hbody : body s i with
  | error e => rfl
  | ok t =>
    refine foldlM_skip (fun s j hj => hskip s j ?_ ?_) t
    · exact List.mem_append_right _ (List.mem_cons_of_mem _ hj)
    · rintro rfl
      exact (List.nodup_cons.mp hafter).1 hj

end Lib
