import Mathlib.Data.Finset.Basic
import Mathlib.Data.Finset.Filter
import Mathlib.Data.List.Nodup

/-!
Requests that wait for tasks. A request waits for the tasks that are open when it is made
and that it needs, and fires once, with the end of the last of these. Tasks that are
opened later do not delay it.
-/

namespace Lib

universe u v

/-- What happens, in order. A request fires in the end of a task, or when it is made. -/
inductive LatchEvent (τ : Type u) (ρ : Type v) where
  | opened (t : τ)
  | closed (t : τ)
  | asked (r : ρ)
  | fired (r : ρ) (cause : Option τ)
  deriving DecidableEq, Repr

namespace LatchEvent

variable {τ : Type u} {ρ : Type v}

def opening : LatchEvent τ ρ → Option τ
  | opened t => some t
  | _ => none

def asking : LatchEvent τ ρ → Option ρ
  | asked r => some r
  | _ => none

def firing : LatchEvent τ ρ → Option ρ
  | fired r _ => some r
  | _ => none

end LatchEvent

open LatchEvent

variable {τ : Type u} {ρ : Type v} {needs : ρ → τ → Prop}
  {log pre mid post suffix : List (LatchEvent τ ρ)} {e : LatchEvent τ ρ} {r r' : ρ} {t t' : τ}
  {cause : Option τ}

theorem mem_asking : r ∈ log.filterMap asking ↔ .asked r ∈ log := by
  rw [List.mem_filterMap]
  constructor
  · rintro ⟨e, he, ht⟩
    cases e <;> cases ht
    exact he
  · intro h
    exact ⟨_, h, rfl⟩

theorem mem_firing : r ∈ log.filterMap firing ↔ ∃ cause, .fired r cause ∈ log := by
  rw [List.mem_filterMap]
  constructor
  · rintro ⟨e, he, ht⟩
    cases e <;> cases ht
    exact ⟨_, he⟩
  · rintro ⟨cause, h⟩
    exact ⟨_, h, rfl⟩

/-- A request made after `log` waits for the task. -/
def WaitsAfter (needs : ρ → τ → Prop) (log : List (LatchEvent τ ρ)) (r : ρ) (t : τ) : Prop :=
  needs r t ∧ .opened t ∈ log ∧ .closed t ∉ log

/-- Of the tasks that a request waits for, made after `pre`, only this one is open after
`mid`. -/
def LastOpen (needs : ρ → τ → Prop) (pre mid : List (LatchEvent τ ρ)) (r : ρ) (t : τ) : Prop :=
  WaitsAfter needs pre r t ∧ .closed t ∉ mid ∧
    ∀ t', WaitsAfter needs pre r t' → t' = t ∨ .closed t' ∈ mid

/-- Requests fire, in the end of the task. -/
def FiresOf (t : τ) (fires : List (LatchEvent τ ρ)) : Prop :=
  ∀ e ∈ fires, ∃ r, e = .fired r (some t)

/-- Each request fires once, at its time. -/
structure Latched (needs : ρ → τ → Prop) (log : List (LatchEvent τ ρ)) : Prop where
  once : (log.filterMap firing).Nodup
  at_once : ∀ pre r post, log = pre ++ .asked r :: post → (∀ t, ¬ WaitsAfter needs pre r t) →
    ∃ rest, post = .fired r none :: rest
  at_last : ∀ pre r mid t post, log = pre ++ .asked r :: (mid ++ .closed t :: post) →
    LastOpen needs pre mid r t →
    ∃ fires rest, post = fires ++ .fired r (some t) :: rest ∧ FiresOf t fires
  none_only : ∀ pre r post, log = pre ++ .fired r none :: post →
    ∃ pre', pre = pre' ++ [.asked r] ∧ ∀ t, ¬ WaitsAfter needs pre' r t
  some_only : ∀ pre r t post, log = pre ++ .fired r (some t) :: post →
    ∃ pre' mid fires, pre = pre' ++ .asked r :: (mid ++ .closed t :: fires) ∧
      LastOpen needs pre' mid r t ∧ FiresOf t fires

/-- An event of a log that goes on happens before or after the place where it goes on. -/
theorem split_between (h : log ++ suffix = pre ++ e :: post) :
    (∃ post', log = pre ++ e :: post' ∧ post = post' ++ suffix) ∨
      ∃ pre', pre = log ++ pre' ∧ suffix = pre' ++ e :: post := by
  rw [List.append_eq_append_iff] at h
  obtain ⟨pre', hpre, hsuffix⟩ | ⟨post', hlog, hrest⟩ := h
  · exact Or.inr ⟨pre', hpre, hsuffix⟩
  · cases post' with
    | nil => exact Or.inr ⟨[], by simpa using hlog.symm, by simpa using hrest.symm⟩
    | cons x rest =>
      rw [List.cons_append, List.cons.injEq] at hrest
      obtain ⟨rfl, rfl⟩ := hrest
      exact Or.inl ⟨rest, hlog, rfl⟩

theorem not_asked_before (h : (log.filterMap asking).Nodup)
    (hsplit : log = pre ++ .asked r :: post) : .asked r ∉ pre ∧ .asked r ∉ post := by
  subst hsplit
  have hhead : (LatchEvent.asked r :: post).filterMap asking = r :: post.filterMap asking := rfl
  rw [List.filterMap_append, hhead, List.nodup_append] at h
  obtain ⟨-, hcons, hdisjoint⟩ := h
  constructor
  · intro hmem
    exact hdisjoint r (mem_asking.mpr hmem) r List.mem_cons_self rfl
  · intro hmem
    exact (List.nodup_cons.mp hcons).1 (mem_asking.mpr hmem)

theorem mem_of_split (h : log = pre ++ e :: post) : e ∈ log := by
  rw [h]
  exact List.mem_append_right pre List.mem_cons_self

/-- A request that is made once is made at one place. -/
theorem split_unique {pre' post' : List (LatchEvent τ ρ)} (h : (log.filterMap asking).Nodup)
    (h₁ : log = pre ++ .asked r :: post) (h₂ : log = pre' ++ .asked r :: post') :
    pre = pre' ∧ post = post' := by
  have hfirst := not_asked_before h h₁
  subst h₁
  obtain ⟨rest, hpre, -⟩ | ⟨rest, hpre, hpost⟩ := split_between h₂
  · rw [hpre] at hfirst
    exact absurd (List.mem_append_right pre' List.mem_cons_self) hfirst.1
  · cases rest with
    | nil =>
      rw [List.nil_append] at hpost
      exact ⟨by simpa using hpre.symm, (List.cons.inj hpost).2⟩
    | cons x rest =>
      obtain ⟨-, hrest⟩ := List.cons.inj hpost
      rw [hrest] at hfirst
      exact absurd (List.mem_append_right rest List.mem_cons_self) hfirst.2

theorem latched_nil : Latched needs ([] : List (LatchEvent τ ρ)) where
  once := List.nodup_nil
  at_once := by simp
  at_last := by simp
  none_only := by simp
  some_only := by simp

/-- A log goes on, and what happens then is right by itself. -/
theorem Latched.append (h : Latched needs log) (honce : ((log ++ suffix).filterMap firing).Nodup)
    (hask : ∀ pre r post, suffix = pre ++ .asked r :: post →
      (∀ t, ¬ WaitsAfter needs (log ++ pre) r t) → ∃ rest, post = .fired r none :: rest)
    (hclose : ∀ pre t post, suffix = pre ++ .closed t :: post →
      ∀ before r mid, log ++ pre = before ++ .asked r :: mid → LastOpen needs before mid r t →
      ∃ fires rest, post = fires ++ .fired r (some t) :: rest ∧ FiresOf t fires)
    (hnone : ∀ pre r post, suffix = pre ++ .fired r none :: post →
      ∃ pre', log ++ pre = pre' ++ [LatchEvent.asked r] ∧ ∀ t, ¬ WaitsAfter needs pre' r t)
    (hsome : ∀ pre r t post, suffix = pre ++ .fired r (some t) :: post →
      ∃ pre' mid fires, log ++ pre = pre' ++ .asked r :: (mid ++ .closed t :: fires) ∧
        LastOpen needs pre' mid r t ∧ FiresOf t fires) :
    Latched needs (log ++ suffix) where
  once := honce
  at_once pre r post hsplit hidle := by
    obtain ⟨post', hlog, hpost⟩ | ⟨pre', hpre, hsuffix⟩ := split_between hsplit
    · obtain ⟨rest, hrest⟩ := h.at_once pre r post' hlog hidle
      exact ⟨rest ++ suffix, by rw [hpost, hrest, List.cons_append]⟩
    · subst hpre
      exact hask pre' r post hsuffix hidle
  at_last pre r mid t post hsplit hlast := by
    have hregroup : pre ++ .asked r :: (mid ++ .closed t :: post) =
        (pre ++ .asked r :: mid) ++ .closed t :: post := by simp
    rw [hregroup] at hsplit
    obtain ⟨post', hlog, hpost⟩ | ⟨pre', hpre, hsuffix⟩ := split_between hsplit
    · obtain ⟨fires, rest, hrest, hfires⟩ := h.at_last pre r mid t post' (by simpa using hlog) hlast
      exact ⟨fires, rest ++ suffix, by rw [hpost, hrest, List.append_assoc, List.cons_append],
        hfires⟩
    · exact hclose pre' t post hsuffix pre r mid hpre.symm hlast
  none_only pre r post hsplit := by
    obtain ⟨post', hlog, -⟩ | ⟨pre', hpre, hsuffix⟩ := split_between hsplit
    · exact h.none_only pre r post' hlog
    · subst hpre
      exact hnone pre' r post hsuffix
  some_only pre r t post hsplit := by
    obtain ⟨post', hlog, -⟩ | ⟨pre', hpre, hsuffix⟩ := split_between hsplit
    · exact h.some_only pre r t post' hlog
    · subst hpre
      exact hsome pre' r t post hsuffix

/-- The places of a request in a log that goes on without it, and the tasks that end
there. -/
theorem splits_append (hask : .asked r ∉ suffix) :
    (∃ pre post, log ++ suffix = pre ++ .asked r :: post ∧ WaitsAfter needs pre r t ∧
      .closed t ∉ post) ↔
    (∃ pre post, log = pre ++ .asked r :: post ∧ WaitsAfter needs pre r t ∧ .closed t ∉ post) ∧
      .closed t ∉ suffix := by
  constructor
  · rintro ⟨pre, post, hsplit, hwaits, hclosed⟩
    obtain ⟨post', hlog, rfl⟩ | ⟨pre', -, hsuffix⟩ := split_between hsplit
    · rw [List.mem_append, not_or] at hclosed
      exact ⟨⟨pre, post', hlog, hwaits, hclosed.1⟩, hclosed.2⟩
    · rw [hsuffix] at hask
      exact absurd (List.mem_append_right pre' List.mem_cons_self) hask
  · rintro ⟨⟨pre, post, hlog, hwaits, hclosed⟩, hsuffix⟩
    refine ⟨pre, post ++ suffix, by rw [hlog, List.append_assoc, List.cons_append], hwaits, ?_⟩
    rw [List.mem_append, not_or]
    exact ⟨hclosed, hsuffix⟩

/-- The place of a request that is made here. -/
theorem splits_here (hlog : .asked r ∉ log) (hsuffix : .asked r ∉ suffix) :
    (∃ pre post, log ++ .asked r :: suffix = pre ++ .asked r :: post ∧
      WaitsAfter needs pre r t ∧ .closed t ∉ post) ↔
    WaitsAfter needs log r t ∧ .closed t ∉ suffix := by
  constructor
  · rintro ⟨pre, post, hsplit, hwaits, hclosed⟩
    obtain ⟨post', hmem, -⟩ | ⟨pre', hpre, hrest⟩ := split_between hsplit
    · exact absurd (mem_of_split hmem) hlog
    · cases pre' with
      | nil =>
        rw [List.nil_append] at hrest
        obtain ⟨-, rfl⟩ := List.cons.inj hrest
        rw [List.append_nil] at hpre
        subst hpre
        exact ⟨hwaits, hclosed⟩
      | cons x rest =>
        have htail := (List.cons.inj hrest).2
        exact absurd (mem_of_split htail) hsuffix
  · rintro ⟨hwaits, hclosed⟩
    exact ⟨log, suffix, rfl, hwaits, hclosed⟩

/-- The open tasks, and those that each request still waits for. -/
structure Latch (τ : Type u) (ρ : Type v) where
  live : Finset τ := ∅
  waits : ρ → Finset τ := fun _ => ∅
  log : List (LatchEvent τ ρ) := []

namespace Latch

section Operations

variable [DecidableEq τ] [DecidableEq ρ] (l : Latch τ ρ)

def openTask (t : τ) : Latch τ ρ :=
  { l with live := insert t l.live, log := l.log ++ [.opened t] }

def ask (needs : ρ → τ → Prop) [∀ r, DecidablePred (needs r)] (r : ρ) : Latch τ ρ :=
  let waits := l.live.filter (needs r)
  if waits = ∅ then
    { l with log := l.log ++ [.asked r, .fired r none] }
  else
    { l with waits := Function.update l.waits r waits, log := l.log ++ [.asked r] }

/-- The task ends, and the requests that wait for nothing else fire in some order. -/
def closeTask (t : τ) (fires : List ρ) : Latch τ ρ where
  live := l.live.erase t
  waits := fun r => (l.waits r).erase t
  log := l.log ++ .closed t :: fires.map fun r => .fired r (some t)

end Operations

variable (l : Latch τ ρ)

/-- The record of the open tasks and of the requests is that of the log. -/
structure Sound (needs : ρ → τ → Prop) : Prop where
  live : ∀ t, t ∈ l.live ↔ .opened t ∈ l.log ∧ .closed t ∉ l.log
  closed_opened : ∀ t, .closed t ∈ l.log → .opened t ∈ l.log
  waits : ∀ r t, t ∈ l.waits r ↔ ∃ pre post, l.log = pre ++ .asked r :: post ∧
    WaitsAfter needs pre r t ∧ .closed t ∉ post
  asked_once : (l.log.filterMap asking).Nodup
  fired_asked : ∀ r cause, .fired r cause ∈ l.log → .asked r ∈ l.log ∧ l.waits r = ∅
  latched : Latched needs l.log

variable {l}

theorem sound_empty : ({} : Latch τ ρ).Sound needs where
  live := by simp
  closed_opened := by simp
  waits := by simp
  asked_once := List.nodup_nil
  fired_asked := by simp
  latched := latched_nil

theorem Sound.waits_live (h : l.Sound needs) (ht : t ∈ l.waits r) : t ∈ l.live := by
  obtain ⟨pre, post, hlog, ⟨-, hopened, hpre⟩, hpost⟩ := (h.waits r t).mp ht
  rw [h.live, hlog]
  simp [hopened, hpre, hpost]

theorem Sound.openTask [DecidableEq τ] (h : l.Sound needs) (ht : .opened t ∉ l.log) :
    (l.openTask t).Sound needs := by
  have hclosed : .closed t ∉ l.log := fun hmem => ht (h.closed_opened t hmem)
  have hlog : (l.openTask t).log = l.log ++ [LatchEvent.opened t] := rfl
  constructor
  · intro t'
    have hlive := h.live t'
    simp only [Latch.openTask, Finset.mem_insert, List.mem_append, List.mem_singleton, hlive,
      LatchEvent.opened.injEq, reduceCtorEq, or_false]
    constructor
    · rintro (rfl | ⟨hopened, hnot⟩)
      · exact ⟨Or.inr rfl, hclosed⟩
      · exact ⟨Or.inl hopened, hnot⟩
    · rintro ⟨hopened | rfl, hnot⟩
      · exact Or.inr ⟨hopened, hnot⟩
      · exact Or.inl rfl
  · intro t' hmem
    rw [hlog] at hmem ⊢
    simp only [List.mem_append, List.mem_singleton, reduceCtorEq, or_false] at hmem
    exact List.mem_append_left _ (h.closed_opened t' hmem)
  · intro r t'
    rw [hlog, splits_append (by simp)]
    simpa [Latch.openTask] using h.waits r t'
  · have hsilent : (([.opened t] : List (LatchEvent τ ρ))).filterMap asking = [] := rfl
    rw [hlog, List.filterMap_append, hsilent, List.append_nil]
    exact h.asked_once
  · intro r cause hmem
    rw [hlog] at hmem ⊢
    simp only [List.mem_append, List.mem_singleton, reduceCtorEq, or_false] at hmem
    exact ⟨List.mem_append_left _ (h.fired_asked r cause hmem).1,
      (h.fired_asked r cause hmem).2⟩
  · rw [hlog]
    apply h.latched.append
    · have hsilent : (([.opened t] : List (LatchEvent τ ρ))).filterMap firing = [] := rfl
      rw [List.filterMap_append, hsilent, List.append_nil]
      exact h.latched.once
    · intro pre r post hsplit
      exact absurd (mem_of_split hsplit) (by simp)
    · intro pre t' post hsplit
      exact absurd (mem_of_split hsplit) (by simp)
    · intro pre r post hsplit
      exact absurd (mem_of_split hsplit) (by simp)
    · intro pre r t' post hsplit
      exact absurd (mem_of_split hsplit) (by simp)

/-- What a new request waits for is open. -/
theorem Sound.waits_new (h : l.Sound needs) :
    WaitsAfter needs l.log r t ↔ t ∈ l.live ∧ needs r t := by
  rw [h.live]
  exact and_comm

theorem Sound.not_asked (h : l.Sound needs) (hr : .asked r ∉ l.log) :
    l.waits r = ∅ ∧ ∀ cause, .fired r cause ∉ l.log := by
  constructor
  · apply Finset.eq_empty_of_forall_notMem
    intro t ht
    obtain ⟨pre, post, hlog, -⟩ := (h.waits r t).mp ht
    exact hr (mem_of_split hlog)
  · intro cause hmem
    exact hr (h.fired_asked r cause hmem).1

theorem Sound.asked_once_snoc (h : l.Sound needs) (hr : .asked r ∉ l.log) :
    (l.log.filterMap asking ++ [r]).Nodup := by
  rw [List.nodup_append]
  refine ⟨h.asked_once, by simp, ?_⟩
  intro r' hr' s hs heq
  rw [List.mem_singleton] at hs
  subst hs heq
  exact hr (mem_asking.mp hr')

/-- A request that has nothing to wait for fires at once. -/
theorem Sound.ask_idle (h : l.Sound needs) (hr : .asked r ∉ l.log)
    (hidle : ∀ t ∈ l.live, ¬ needs r t) :
    Sound { l with log := l.log ++ [LatchEvent.asked r, .fired r none] } needs := by
  have hnot : ∀ t, ¬ WaitsAfter needs l.log r t := by
    intro t hwaits
    rw [h.waits_new] at hwaits
    exact hidle t hwaits.1 hwaits.2
  obtain ⟨hnone, hfresh⟩ := h.not_asked hr
  constructor
  · intro t
    simpa using h.live t
  · intro t hmem
    simpa using h.closed_opened t (by simpa using hmem)
  · intro r' t
    by_cases heq : r' = r
    · subst heq
      simp only
      rw [splits_here hr (by simp), hnone]
      simp [hnot]
    · simp only
      rw [splits_append (by simp [heq])]
      simpa using h.waits r' t
  · simp only [List.filterMap_append]
    exact h.asked_once_snoc hr
  · intro r' cause hmem
    simp only [List.mem_append, List.mem_cons, LatchEvent.fired.injEq, reduceCtorEq, false_or,
      List.not_mem_nil, or_false] at hmem
    obtain hold | ⟨rfl, rfl⟩ := hmem
    · exact ⟨List.mem_append_left _ (h.fired_asked r' cause hold).1,
        (h.fired_asked r' cause hold).2⟩
    · exact ⟨by simp, hnone⟩
  · apply h.latched.append
    · have hfires : ([.asked r, .fired r none] : List (LatchEvent τ ρ)).filterMap firing = [r] := rfl
      rw [List.filterMap_append, hfires, List.nodup_append]
      refine ⟨h.latched.once, by simp, ?_⟩
      intro r' hr' s hs heq
      rw [List.mem_singleton] at hs
      subst hs heq
      obtain ⟨cause, hmem⟩ := mem_firing.mp hr'
      exact hfresh cause hmem
    · intro pre r' post hsplit hwaits
      cases pre with
      | nil =>
        rw [List.nil_append] at hsplit
        obtain ⟨heq, rfl⟩ := List.cons.inj hsplit
        cases heq
        exact ⟨[], rfl⟩
      | cons x rest =>
        have htail := (List.cons.inj hsplit).2
        exact absurd (mem_of_split htail) (by simp)
    · intro pre t' post hsplit
      exact absurd (mem_of_split hsplit) (by simp)
    · intro pre r' post hsplit
      cases pre with
      | nil => cases hsplit
      | cons x rest =>
        rw [List.cons_append] at hsplit
        obtain ⟨hx, hfire⟩ := List.cons.inj hsplit
        cases rest with
        | nil =>
          cases hfire
          exact ⟨l.log, by rw [← hx], hnot⟩
        | cons y rest =>
          have htail := (List.cons.inj hfire).2
          exact absurd (mem_of_split htail) (by simp)
    · intro pre r' t' post hsplit
      exact absurd (mem_of_split hsplit) (by simp)

/-- A request that has something to wait for. -/
theorem Sound.ask_waits [DecidableEq ρ] {waits : Finset τ} (h : l.Sound needs)
    (hr : .asked r ∉ l.log) (hwaits : ∀ t, t ∈ waits ↔ t ∈ l.live ∧ needs r t)
    (hsome : waits ≠ ∅) :
    Sound { l with waits := Function.update l.waits r waits, log := l.log ++ [LatchEvent.asked r] }
      needs := by
  obtain ⟨hnone, hfresh⟩ := h.not_asked hr
  constructor
  · intro t
    simpa using h.live t
  · intro t hmem
    simpa using h.closed_opened t (by simpa using hmem)
  · intro r' t
    by_cases heq : r' = r
    · subst heq
      simp only [Function.update_self]
      rw [splits_here hr (by simp), hwaits, h.waits_new]
      simp
    · simp only [Function.update_of_ne heq]
      rw [splits_append (by simp [heq])]
      simpa using h.waits r' t
  · simp only [List.filterMap_append]
    exact h.asked_once_snoc hr
  · intro r' cause hmem
    simp only [List.mem_append, List.mem_singleton, reduceCtorEq, or_false] at hmem
    have hold := h.fired_asked r' cause hmem
    have hne : r' ≠ r := by
      rintro rfl
      exact hr hold.1
    simp only [Function.update_of_ne hne]
    exact ⟨List.mem_append_left _ hold.1, hold.2⟩
  · apply h.latched.append
    · have hsilent : ([.asked r] : List (LatchEvent τ ρ)).filterMap firing = [] := rfl
      rw [List.filterMap_append, hsilent, List.append_nil]
      exact h.latched.once
    · intro pre r' post hsplit hidle
      cases pre with
      | nil =>
        cases hsplit
        obtain ⟨t, ht⟩ := Finset.nonempty_iff_ne_empty.mpr hsome
        rw [List.append_nil] at hidle
        exact absurd (h.waits_new.mpr ((hwaits t).mp ht)) (hidle t)
      | cons x rest =>
        have htail := (List.cons.inj hsplit).2
        exact absurd (mem_of_split htail) (by simp)
    · intro pre t' post hsplit
      exact absurd (mem_of_split hsplit) (by simp)
    · intro pre r' post hsplit
      exact absurd (mem_of_split hsplit) (by simp)
    · intro pre r' t' post hsplit
      exact absurd (mem_of_split hsplit) (by simp)

theorem Sound.ask [DecidableEq τ] [DecidableEq ρ] [∀ r, DecidablePred (needs r)]
    (h : l.Sound needs) (hr : .asked r ∉ l.log) : (l.ask needs r).Sound needs := by
  have hmem : ∀ t, t ∈ l.live.filter (needs r) ↔ t ∈ l.live ∧ needs r t := fun t =>
    Finset.mem_filter
  unfold Latch.ask
  dsimp only
  split
  · rename_i hempty
    apply h.ask_idle hr
    intro t ht hneeds
    have hin := (hmem t).mpr ⟨ht, hneeds⟩
    rw [hempty] at hin
    cases hin
  · rename_i hsome
    exact h.ask_waits hr hmem hsome

/-- A request waits for one task alone when this is the last that it waited for. -/
theorem Sound.lastOpen_iff (h : l.Sound needs) (hlog : l.log = pre ++ .asked r :: mid) :
    LastOpen needs pre mid r t ↔ l.waits r = {t} := by
  have hspec : ∀ t', t' ∈ l.waits r ↔ WaitsAfter needs pre r t' ∧ .closed t' ∉ mid := by
    intro t'
    rw [h.waits]
    constructor
    · rintro ⟨pre', mid', hlog', hw⟩
      obtain ⟨rfl, rfl⟩ := split_unique h.asked_once hlog hlog'
      exact hw
    · intro hw
      exact ⟨pre, mid, hlog, hw⟩
  rw [Finset.eq_singleton_iff_unique_mem, hspec]
  constructor
  · rintro ⟨hwaits, hopen, hothers⟩
    refine ⟨⟨hwaits, hopen⟩, fun t' ht' => ?_⟩
    obtain ⟨hwaits', hopen'⟩ := (hspec t').mp ht'
    exact (hothers t' hwaits').resolve_right hopen'
  · rintro ⟨⟨hwaits, hopen⟩, hothers⟩
    refine ⟨hwaits, hopen, fun t' hwaits' => ?_⟩
    by_cases hopen' : .closed t' ∈ mid
    · exact Or.inr hopen'
    · exact Or.inl (hothers t' ((hspec t').mpr ⟨hwaits', hopen'⟩))

theorem firing_fires (fires : List ρ) :
    (.closed t :: fires.map fun r => LatchEvent.fired r (some t)).filterMap firing = fires := by
  induction fires with
  | nil => rfl
  | cons r rest ih => exact congrArg (r :: ·) ih

theorem asking_fires (fires : List ρ) :
    (.closed t :: fires.map fun r => LatchEvent.fired r (some t)).filterMap asking = [] := by
  rw [List.filterMap_eq_nil_iff]
  intro e he
  rw [List.mem_cons, List.mem_map] at he
  obtain rfl | ⟨r, -, rfl⟩ := he
  · rfl
  · rfl

theorem opening_fires (fires : List ρ) :
    (.closed t :: fires.map fun r => LatchEvent.fired r (some t)).filterMap opening = [] := by
  rw [List.filterMap_eq_nil_iff]
  intro e he
  rw [List.mem_cons, List.mem_map] at he
  obtain rfl | ⟨r, -, rfl⟩ := he
  · rfl
  · rfl

/-- The requests that fire in the end of a task are those that wait for it alone. -/
theorem Sound.close_latched {fires : List ρ} (h : l.Sound needs)
    (hfires : ∀ r, r ∈ fires ↔ l.waits r = {t}) (hnodup : fires.Nodup) :
    Latched needs (l.log ++ .closed t :: fires.map fun r => .fired r (some t)) := by
  apply h.latched.append
  · rw [List.filterMap_append, firing_fires, List.nodup_append]
    refine ⟨h.latched.once, hnodup, ?_⟩
    intro r hr s hs heq
    subst heq
    obtain ⟨cause, hmem⟩ := mem_firing.mp hr
    have hwaits := (hfires r).mp hs
    rw [(h.fired_asked r cause hmem).2] at hwaits
    exact Finset.singleton_ne_empty t hwaits.symm
  · intro pre r post hsplit
    exact absurd (mem_of_split hsplit) (by simp)
  · intro pre t' post hsplit before r mid hbefore hlast
    cases pre with
    | cons x rest =>
      have htail := (List.cons.inj hsplit).2
      exact absurd (mem_of_split htail) (by simp)
    | nil =>
      rw [List.nil_append] at hsplit
      obtain ⟨ht, rfl⟩ := List.cons.inj hsplit
      cases ht
      rw [List.append_nil] at hbefore
      obtain ⟨first, rest, rfl⟩ := List.append_of_mem
        ((hfires r).mpr ((h.lastOpen_iff hbefore).mp hlast))
      refine ⟨first.map fun r => .fired r (some t), rest.map fun r => .fired r (some t), ?_, ?_⟩
      · rw [List.map_append, List.map_cons]
      · intro e he
        obtain ⟨r', -, rfl⟩ := List.mem_map.mp he
        exact ⟨r', rfl⟩
  · intro pre r post hsplit
    exact absurd (mem_of_split hsplit) (by simp)
  · intro pre r t' post hsplit
    cases pre with
    | nil => cases hsplit
    | cons x rest =>
      rw [List.cons_append] at hsplit
      obtain ⟨hx, hfire⟩ := List.cons.inj hsplit
      obtain ⟨first, last, rfl, hfirst, hlast⟩ := List.map_eq_append_iff.mp hfire
      obtain ⟨s, last', rfl, hs, -⟩ := List.map_eq_cons_iff.mp hlast
      cases hs
      have hwaits := (hfires r).mp (by simp)
      have hmem : t ∈ l.waits r := by simp [hwaits]
      obtain ⟨before, mid, hlog, -⟩ := (h.waits r t).mp hmem
      refine ⟨before, mid, rest, by rw [hlog, ← hx]; simp, (h.lastOpen_iff hlog).mpr hwaits, ?_⟩
      intro e he
      rw [← hfirst] at he
      obtain ⟨r', -, rfl⟩ := List.mem_map.mp he
      exact ⟨r', rfl⟩

theorem Sound.closeTask [DecidableEq τ] {fires : List ρ} (h : l.Sound needs) (ht : t ∈ l.live)
    (hfires : ∀ r, r ∈ fires ↔ l.waits r = {t}) (hnodup : fires.Nodup) :
    (l.closeTask t fires).Sound needs := by
  obtain ⟨hopened, hopen⟩ := (h.live t).mp ht
  constructor
  · intro t'
    simp only [Latch.closeTask, Finset.mem_erase, h.live, List.mem_append, List.mem_cons,
      List.mem_map, LatchEvent.closed.injEq, reduceCtorEq, and_false, exists_false, or_false,
      not_or]
    tauto
  · intro t' hmem
    simp only [Latch.closeTask, List.mem_append, List.mem_cons, List.mem_map,
      LatchEvent.closed.injEq, reduceCtorEq, and_false, exists_false, or_false] at hmem ⊢
    obtain hold | rfl := hmem
    · exact h.closed_opened t' hold
    · exact hopened
  · intro r t'
    simp only [Latch.closeTask]
    rw [splits_append (by simp), Finset.mem_erase, h.waits]
    simp [and_comm]
  · simp only [Latch.closeTask]
    rw [List.filterMap_append, asking_fires, List.append_nil]
    exact h.asked_once
  · intro r cause hmem
    simp only [Latch.closeTask, List.mem_append, List.mem_cons, List.mem_map, reduceCtorEq,
      false_or, LatchEvent.fired.injEq] at hmem ⊢
    obtain hold | ⟨r', hr', rfl, -⟩ := hmem
    · obtain ⟨hasked, hnone⟩ := h.fired_asked r cause hold
      exact ⟨Or.inl hasked, by rw [hnone, Finset.erase_empty]⟩
    · have hwaits := (hfires r').mp hr'
      have hmem : t ∈ l.waits r' := by simp [hwaits]
      obtain ⟨before, mid, hlog, -⟩ := (h.waits r' t).mp hmem
      exact ⟨Or.inl (mem_of_split hlog), by rw [hwaits, Finset.erase_singleton]⟩
  · exact h.close_latched hfires hnodup

end Latch

end Lib
