import Mathlib.Data.List.Basic
import Mathlib.Data.List.Induction

/-!
Requests that wait together for one answer. They gather while the answer is out, leave one
by one once it is here, and may still join those that are leaving. A history that follows
these rules returns the requests in the order they entered, each once and each behind the
answer it waited for.
-/

namespace Lib

universe u

variable {α : Type u}

inductive ServiceEvent (α : Type u) where
  | entered (x : α)
  | answered
  | returned (x : α)
  deriving DecidableEq

/-- No request, requests that wait for the answer, or requests that leave with it. -/
inductive Service (α : Type u) where
  | idle
  | waiting (queue : List α)
  | draining (queue : List α)

namespace ServiceEvent

def entered? : ServiceEvent α → Option α
  | entered x => some x
  | answered | returned _ => none

def returned? : ServiceEvent α → Option α
  | returned x => some x
  | answered | entered _ => none

end ServiceEvent

/-- The requests that entered, in their order. -/
def entries (log : List (ServiceEvent α)) : List α := log.filterMap ServiceEvent.entered?

/-- The requests that were returned, in their order. -/
def returns (log : List (ServiceEvent α)) : List α := log.filterMap ServiceEvent.returned?

namespace Service

/-- One event of the service; a request leaves from the front. -/
inductive Step : Service α → ServiceEvent α → Service α → Prop where
  | first (x : α) : Step idle (.entered x) (waiting [x])
  | join (queue : List α) (x : α) : Step (waiting queue) (.entered x) (waiting (queue ++ [x]))
  | answer (queue : List α) : Step (waiting queue) .answered (draining queue)
  | late (queue : List α) (x : α) : Step (draining queue) (.entered x) (draining (queue ++ [x]))
  | leave (x y : α) (queue : List α) :
      Step (draining (x :: y :: queue)) (.returned x) (draining (y :: queue))
  | last (x : α) : Step (draining [x]) (.returned x) idle

/-- A history of the service, from idle. -/
inductive Run : List (ServiceEvent α) → Service α → Prop where
  | nil : Run [] idle
  | next {log : List (ServiceEvent α)} {s t : Service α} {e : ServiceEvent α} :
      Run log s → Step s e t → Run (log ++ [e]) t

/-- The requests that have not been returned. -/
def pending : Service α → List α
  | idle => []
  | waiting queue => queue
  | draining queue => queue

variable {log : List (ServiceEvent α)} {s t : Service α} {e : ServiceEvent α} {x : α}

@[simp] theorem entries_entered (x : α) : entries [.entered x] = [x] := rfl

@[simp] theorem entries_answered : entries ([.answered] : List (ServiceEvent α)) = [] := rfl

@[simp] theorem entries_returned (x : α) : entries [.returned x] = [] := rfl

@[simp] theorem returns_entered (x : α) : returns [.entered x] = [] := rfl

@[simp] theorem returns_answered : returns ([.answered] : List (ServiceEvent α)) = [] := rfl

@[simp] theorem returns_returned (x : α) : returns [.returned x] = [x] := rfl

theorem entries_append (log rest : List (ServiceEvent α)) :
    entries (log ++ rest) = entries log ++ entries rest := List.filterMap_append

theorem returns_append (log rest : List (ServiceEvent α)) :
    returns (log ++ rest) = returns log ++ returns rest := List.filterMap_append

/-- What entered is what was returned and what is pending, in this order. -/
theorem Run.fifo (h : Run log s) : entries log = returns log ++ s.pending := by
  induction h with
  | nil => rfl
  | @next log s t e _ hstep ih =>
    rw [entries_append, returns_append, ih]
    cases hstep with
    | first x => simp [pending]
    | join queue x => simp [pending]
    | answer queue => simp [pending]
    | late queue x => simp [pending]
    | leave x y queue => simp [pending]
    | last x => simp [pending]

/-- The history since the service was last idle: requests gathered in `gathered`. -/
def Gathering (log : List (ServiceEvent α)) : Prop :=
  ∃ before gathered, log = before ++ gathered ∧ entries before = returns before ∧
    ∀ e ∈ gathered, ∃ x, e = .entered x

/-- The answer has come since the service was last idle. -/
def Answered (log : List (ServiceEvent α)) : Prop :=
  ∃ before gathered after, log = before ++ gathered ++ .answered :: after ∧
    entries before = returns before ∧ (∀ e ∈ gathered, ∃ x, e = .entered x) ∧
    ServiceEvent.answered ∉ after

theorem Answered.concat (h : Answered log) (he : e ≠ .answered) : Answered (log ++ [e]) := by
  obtain ⟨before, gathered, after, rfl, hidle, hgathered, hafter⟩ := h
  refine ⟨before, gathered, after ++ [e], by simp, hidle, hgathered, ?_⟩
  rw [List.mem_append, List.mem_singleton, not_or]
  exact ⟨hafter, he.symm⟩

theorem Run.phase (h : Run log s) :
    (∀ queue, s = .waiting queue → Gathering log) ∧
    (∀ queue, s = .draining queue → Answered log) := by
  induction h with
  | nil => exact ⟨nofun, nofun⟩
  | @next log s t e hrun hstep ih =>
    cases hstep with
    | first x =>
      refine ⟨fun queue _ => ⟨log, [.entered x], rfl, ?_, ?_⟩, nofun⟩
      · have hfifo := hrun.fifo
        rwa [pending, List.append_nil] at hfifo
      · intro e he
        exact ⟨x, List.mem_singleton.mp he⟩
    | join queue x =>
      refine ⟨fun _ _ => ?_, nofun⟩
      obtain ⟨before, gathered, rfl, hidle, hgathered⟩ := ih.1 queue rfl
      refine ⟨before, gathered ++ [ServiceEvent.entered x], by simp, hidle, ?_⟩
      intro e he
      rcases List.mem_append.mp he with he | he
      · exact hgathered e he
      · exact ⟨x, List.mem_singleton.mp he⟩
    | answer queue =>
      refine ⟨nofun, fun _ _ => ?_⟩
      obtain ⟨before, gathered, rfl, hidle, hgathered⟩ := ih.1 queue rfl
      exact ⟨before, gathered, [], rfl, hidle, hgathered, List.not_mem_nil⟩
    | late queue x =>
      exact ⟨nofun,
        fun _ _ => (ih.2 queue rfl).concat nofun⟩
    | leave x y queue =>
      exact ⟨nofun,
        fun _ _ => (ih.2 _ rfl).concat nofun⟩
    | last x => exact ⟨nofun, nofun⟩

/-- A prefix of a history is a history. -/
theorem Run.prefix {rest : List (ServiceEvent α)} (h : Run (log ++ rest) s) :
    ∃ t, Run log t := by
  induction rest using List.reverseRecOn generalizing s with
  | nil =>
    rw [List.append_nil] at h
    exact ⟨s, h⟩
  | append_singleton rest e ih =>
    rw [← List.append_assoc] at h
    generalize hall : log ++ rest ++ [e] = all at h
    cases h with
    | nil => exact absurd hall (List.append_ne_nil_of_right_ne_nil _ (List.cons_ne_nil _ _))
    | next hrun _ =>
      obtain ⟨hlog, -⟩ := List.append_inj' hall rfl
      rw [← hlog] at hrun
      exact ih hrun

/-- A request is returned behind the answer that came since the service was idle. -/
theorem Run.answered {rest : List (ServiceEvent α)}
    (h : Run (log ++ .returned x :: rest) s) : Answered log := by
  rw [← List.singleton_append, ← List.append_assoc] at h
  obtain ⟨t, hrun⟩ := h.prefix
  generalize hall : log ++ [ServiceEvent.returned x] = all at hrun
  cases hrun with
  | nil => exact absurd hall (List.append_ne_nil_of_right_ne_nil _ (List.cons_ne_nil _ _))
  | @next log' s' t' e hrun hstep =>
    obtain ⟨hlog, he⟩ := List.append_inj' hall rfl
    cases he
    rw [hlog]
    cases hstep with
    | leave x y queue => exact hrun.phase.2 _ rfl
    | last x => exact hrun.phase.2 _ rfl

end Service

end Lib
