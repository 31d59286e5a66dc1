import Mathlib.Data.Finset.Basic
import Mathlib.Order.Bounds.Basic

/-!
Asynchronous transactions that a client commits in groups. It adds transactions, makes
those added so far the next group, and waits until all groups but the most recent ones
are complete. Transactions finish in any order.
-/

namespace Lib

universe u

variable {τ : Type u}

/-- The transactions that are not finished: those added since the last commit, and those
of each group, oldest group first. A client that waits does so for a number of groups. -/
structure CommitLog (τ : Type u) where
  known : Finset τ := ∅
  opened : Finset τ := ∅
  groups : List (Finset τ) := []
  waiting : Option Nat := none

/-- The oldest `n` groups have no unfinished transaction. -/
def DoneUpTo (groups : List (Finset τ)) (n : Nat) : Prop :=
  ∀ i s, i < n → groups[i]? = some s → s = ∅

/-- All groups but the `n` most recent ones are complete. -/
def DoneExcept (groups : List (Finset τ)) (n : Nat) : Prop :=
  DoneUpTo groups (groups.length - n)

section Front

variable {groups : List (Finset τ)} {s : Finset τ} {k n : Nat}

/-- The first `k` groups are complete and the next one is not. -/
structure Front (groups : List (Finset τ)) (k : Nat) : Prop where
  le : k ≤ groups.length
  complete : ∀ i < k, groups[i]? = some ∅
  incomplete : groups[k]? ≠ some ∅

theorem Front.done_iff (h : Front groups k) (hn : n ≤ groups.length) :
    DoneUpTo groups n ↔ n ≤ k := by
  constructor
  · intro hdone
    by_contra hlt
    obtain ⟨s, hs⟩ : ∃ s, groups[k]? = some s :=
      ⟨_, List.getElem?_eq_getElem (show k < groups.length by omega)⟩
    apply h.incomplete
    rw [hs, hdone k s (by omega) hs]
  · intro hle i s hi hs
    have hempty := h.complete i (by omega)
    rw [hs] at hempty
    exact Option.some.inj hempty

/-- The front is the largest number of groups that are complete. -/
theorem Front.isGreatest (h : Front groups k) :
    IsGreatest {n | n ≤ groups.length ∧ DoneUpTo groups n} k := by
  refine ⟨⟨h.le, (h.done_iff h.le).mpr le_rfl⟩, ?_⟩
  rintro n ⟨hn, hdone⟩
  exact (h.done_iff hn).mp hdone

theorem front_nil : Front ([] : List (Finset τ)) 0 := ⟨le_rfl, by simp, by simp⟩

/-- A group behind an incomplete one. -/
theorem Front.append_of_lt (h : Front groups k) (hk : k < groups.length) (s : Finset τ) :
    Front (groups ++ [s]) k := by
  refine ⟨?_, fun i hi => ?_, ?_⟩
  · rw [List.length_append]
    exact h.le.trans (Nat.le_add_right _ _)
  · rw [List.getElem?_append_left (by omega)]
    exact h.complete i hi
  · rw [List.getElem?_append_left hk]
    exact h.incomplete

theorem Front.append_nonempty (h : Front groups k) (hs : s ≠ ∅) : Front (groups ++ [s]) k := by
  rcases h.le.lt_or_eq with hlt | rfl
  · exact h.append_of_lt hlt s
  · refine ⟨by simp, fun i hi => ?_, by simpa using hs⟩
    rw [List.getElem?_append_left hi]
    exact h.complete i hi

/-- An empty group behind complete ones. -/
theorem Front.append_empty (h : Front groups groups.length) :
    Front (groups ++ [∅]) (groups.length + 1) := by
  refine ⟨by simp, fun i hi => ?_, by simp⟩
  rcases (Nat.lt_succ_iff.mp hi).lt_or_eq with hlt | rfl
  · rw [List.getElem?_append_left hlt]
    exact h.complete i hlt
  · simp

/-- A change behind the front, or one that leaves the group at the front incomplete. -/
theorem Front.set (h : Front groups k) {i : Nat} (hi : k ≤ i) {r : Finset τ}
    (hr : i = k → r ≠ ∅) : Front (groups.set i r) k := by
  refine ⟨by simpa using h.le, fun j hj => ?_, ?_⟩
  · rw [List.getElem?_set_ne (by omega)]
    exact h.complete j hj
  · rw [List.getElem?_set]
    split
    · rename_i hik
      split
      · exact fun hempty => hr hik (Option.some.inj hempty)
      · nofun
    · exact h.incomplete

/-- A group with an unfinished transaction is at the front or behind it. -/
theorem Front.le_of_mem (h : Front groups k) {i : Nat} (hs : groups[i]? = some s) {t : τ}
    (ht : t ∈ s) : k ≤ i := by
  by_contra hlt
  have hempty := h.complete i (by omega)
  rw [hs] at hempty
  rw [Option.some.inj hempty] at ht
  exact Finset.notMem_empty t ht

/-- A new group says nothing about the older ones. -/
theorem doneUpTo_append (hn : n ≤ groups.length) (s : Finset τ) :
    DoneUpTo (groups ++ [s]) n ↔ DoneUpTo groups n := by
  constructor <;> intro h i r hi hr
  · apply h i r hi
    rw [List.getElem?_append_left (by omega)]
    exact hr
  · apply h i r hi
    rw [List.getElem?_append_left (by omega)] at hr
    exact hr

end Front

namespace CommitLog

def commit (log : CommitLog τ) : CommitLog τ :=
  { log with groups := log.groups ++ [log.opened], opened := ∅ }

variable {log : CommitLog τ} {i : Nat} {s : Finset τ}

/-- Each unfinished transaction is in one place, and a client waits for groups of which
some is incomplete. -/
structure Sound (log : CommitLog τ) : Prop where
  opened_known : log.opened ⊆ log.known
  group_known : ∀ (i : Nat) (s : Finset τ), log.groups[i]? = some s → s ⊆ log.known
  opened_apart : ∀ (i : Nat) (s : Finset τ) (t : τ), log.groups[i]? = some s → t ∈ s →
    t ∉ log.opened
  groups_apart : ∀ (i j : Nat) (s r : Finset τ) (t : τ), log.groups[i]? = some s →
    log.groups[j]? = some r → t ∈ s → t ∈ r → i = j
  waiting_le : ∀ n ∈ log.waiting, n ≤ log.groups.length
  waiting_open : ∀ n ∈ log.waiting, ¬ DoneUpTo log.groups n

theorem sound_empty : Sound ({} : CommitLog τ) where
  opened_known := Finset.Subset.refl _
  group_known := by simp
  opened_apart := by simp
  groups_apart := by simp
  waiting_le := by simp
  waiting_open := by simp

theorem getElem?_commit (hs : log.commit.groups[i]? = some s) :
    log.groups[i]? = some s ∨ (i = log.groups.length ∧ s = log.opened) := by
  simp only [commit, List.getElem?_append] at hs
  split at hs
  · exact .inl hs
  · rename_i hi
    rw [List.getElem?_singleton] at hs
    split at hs
    · exact .inr ⟨by omega, (Option.some.inj hs).symm⟩
    · cases hs

theorem Sound.commit (h : log.Sound) : log.commit.Sound where
  opened_known := Finset.empty_subset _
  group_known i s hs := by
    obtain hold | ⟨-, rfl⟩ := getElem?_commit hs
    · exact h.group_known i s hold
    · exact h.opened_known
  opened_apart i s t hs ht := Finset.notMem_empty t
  groups_apart i j s r t hs hr hts htr := by
    obtain hs | ⟨rfl, rfl⟩ := getElem?_commit hs <;> obtain hr | ⟨rfl, rfl⟩ := getElem?_commit hr
    · exact h.groups_apart i j s r t hs hr hts htr
    · exact absurd htr (h.opened_apart i s t hs hts)
    · exact absurd hts (h.opened_apart j r t hr htr)
    · rfl
  waiting_le n hn := by
    simp only [CommitLog.commit, List.length_append]
    exact (h.waiting_le n hn).trans (Nat.le_add_right _ _)
  waiting_open n hn := by
    simp only [CommitLog.commit]
    rw [doneUpTo_append (h.waiting_le n hn)]
    exact h.waiting_open n hn

/-- A transaction that was added and is not finished. -/
def Incomplete (log : CommitLog τ) (t : τ) : Prop := t ∈ log.opened ∨ ∃ s ∈ log.groups, t ∈ s

theorem incomplete_commit {t : τ} : log.commit.Incomplete t ↔ log.Incomplete t := by
  simp only [Incomplete, CommitLog.commit, Finset.notMem_empty, false_or, List.mem_append,
    List.mem_singleton]
  constructor
  · rintro ⟨s, hs | rfl, ht⟩
    · exact .inr ⟨s, hs, ht⟩
    · exact .inl ht
  · rintro (ht | ⟨s, hs, ht⟩)
    · exact ⟨log.opened, .inr rfl, ht⟩
    · exact ⟨s, .inl hs, ht⟩

theorem Sound.known (h : log.Sound) {t : τ} (ht : log.Incomplete t) : t ∈ log.known := by
  rcases ht with ht | ⟨s, hs, ht⟩
  · exact h.opened_known ht
  · obtain ⟨i, hi⟩ := List.mem_iff_getElem?.mp hs
    exact h.group_known i s hi ht

end CommitLog

variable [DecidableEq τ]

instance (groups : List (Finset τ)) (n : Nat) : Decidable (DoneUpTo groups n) :=
  decidable_of_iff (∀ i < n, ∀ s ∈ groups[i]?, s = ∅)
    ⟨fun h i s hi hs => h i hi s hs, fun h i hi s hs => h i s hi hs⟩

instance (groups : List (Finset τ)) (n : Nat) : Decidable (DoneExcept groups n) :=
  inferInstanceAs (Decidable (DoneUpTo _ _))

inductive GroupOp (τ : Type u)
  | add (t : τ)
  | commit
  | wait (n : Nat)
  | finish (t : τ)

namespace CommitLog

variable (log : CommitLog τ)

def add (t : τ) : CommitLog τ :=
  { log with known := insert t log.known, opened := insert t log.opened }

/-- The groups after a transaction finished. -/
def groupsWithout (t : τ) : List (Finset τ) := log.groups.map (fun s => s.erase t)

/-- Waiting is over at once if the groups are complete. -/
def wait (n : Nat) : Bool × CommitLog τ :=
  if DoneExcept log.groups n then (true, log)
  else (false, { log with waiting := some (log.groups.length - n) })

/-- A finished transaction releases a client whose groups are complete then. -/
def released (t : τ) : Bool :=
  log.waiting.any (fun n => decide (DoneUpTo (log.groupsWithout t) n))

def finish (t : τ) : Bool × CommitLog τ :=
  (log.released t,
    { log with
      opened := log.opened.erase t
      groups := log.groupsWithout t
      waiting := if log.released t then none else log.waiting })

/-- The answer to a wait, or whether a finished transaction released the client. -/
def call : GroupOp τ → Bool × CommitLog τ
  | .add t => (false, log.add t)
  | .commit => (false, log.commit)
  | .wait n => log.wait n
  | .finish t => log.finish t

end CommitLog

namespace CommitLog

variable {log : CommitLog τ} {t : τ}

theorem Sound.add (h : log.Sound) (ht : t ∉ log.known) : (log.add t).Sound where
  opened_known := Finset.insert_subset_insert t h.opened_known
  group_known i s hs := (h.group_known i s hs).trans (Finset.subset_insert t _)
  opened_apart i s r hs hr hopen := by
    rcases Finset.mem_insert.mp hopen with rfl | hold
    · exact ht (h.group_known i s hs hr)
    · exact h.opened_apart i s r hs hr hold
  groups_apart := h.groups_apart
  waiting_le := h.waiting_le
  waiting_open := h.waiting_open

theorem Sound.wait (h : log.Sound) (n : Nat) : (log.wait n).2.Sound := by
  unfold CommitLog.wait
  split
  · exact h
  · rename_i hopen
    refine ⟨h.opened_known, h.group_known, h.opened_apart, h.groups_apart, ?_, ?_⟩
    · rintro _ ⟨⟩
      exact Nat.sub_le _ _
    · rintro _ ⟨⟩
      exact hopen

theorem getElem?_groupsWithout (log : CommitLog τ) (t : τ) (i : Nat) :
    (log.groupsWithout t)[i]? = log.groups[i]?.map (fun s => s.erase t) := List.getElem?_map

theorem length_groupsWithout (log : CommitLog τ) (t : τ) :
    (log.groupsWithout t).length = log.groups.length := List.length_map _

theorem groupsWithout_of_notMem
    (ht : ∀ (i : Nat) (s : Finset τ), log.groups[i]? = some s → t ∉ s) :
    log.groupsWithout t = log.groups := by
  apply List.ext_getElem?
  intro i
  rw [getElem?_groupsWithout]
  cases hs : log.groups[i]? with
  | none => rfl
  | some s => exact congrArg some (Finset.erase_eq_of_notMem (ht i s hs))

/-- A finished transaction of no group. -/
theorem Sound.finish_of_notMem (h : log.Sound)
    (ht : ∀ (i : Nat) (s : Finset τ), log.groups[i]? = some s → t ∉ s) :
    log.finish t = (false, { log with opened := log.opened.erase t }) := by
  have hgroups := groupsWithout_of_notMem ht
  have hreleased : log.released t = false := by
    unfold released
    rw [hgroups]
    cases hwaiting : log.waiting with
    | none => rfl
    | some n => exact decide_eq_false (h.waiting_open n hwaiting)
  unfold finish
  rw [hreleased, hgroups]
  rfl

/-- A finished transaction leaves the one group that has it. -/
theorem Sound.groupsWithout_of_mem (h : log.Sound) {i : Nat} {s : Finset τ}
    (hs : log.groups[i]? = some s) (ht : t ∈ s) :
    log.groupsWithout t = log.groups.set i (s.erase t) := by
  apply List.ext_getElem?
  intro j
  rw [getElem?_groupsWithout, List.getElem?_set]
  split
  · rename_i hij
    subst hij
    rw [hs, if_pos (List.getElem?_eq_some_iff.mp hs).1]
    rfl
  · rename_i hij
    cases hr : log.groups[j]? with
    | none => rfl
    | some r =>
      have hnot : t ∉ r := fun htr => hij (h.groups_apart i j s r t hs hr ht htr)
      exact congrArg some (Finset.erase_eq_of_notMem hnot)

theorem Sound.opened_of_mem (h : log.Sound) {i : Nat} {s : Finset τ}
    (hs : log.groups[i]? = some s) (ht : t ∈ s) : log.opened.erase t = log.opened :=
  Finset.erase_eq_of_notMem (h.opened_apart i s t hs ht)

/-- A release is an end of the wait with the groups complete. -/
theorem released_eq {k : Nat} (hwaiting : ∀ n ∈ log.waiting, n ≤ log.groups.length)
    (hfront : Front (log.groupsWithout t) k) :
    log.released t = log.waiting.any (fun n => decide (n ≤ k)) := by
  unfold released
  cases hlog : log.waiting with
  | none => rfl
  | some n =>
    apply decide_eq_decide.mpr
    apply hfront.done_iff
    rw [length_groupsWithout]
    exact hwaiting n hlog

theorem Sound.finish (h : log.Sound) (t : τ) : (log.finish t).2.Sound where
  opened_known := (Finset.erase_subset t _).trans h.opened_known
  group_known i s hs := by
    change (log.groupsWithout t)[i]? = some s at hs
    rw [getElem?_groupsWithout, Option.map_eq_some_iff] at hs
    obtain ⟨r, hr, rfl⟩ := hs
    exact (Finset.erase_subset t r).trans (h.group_known i r hr)
  opened_apart i s u hs hu hopen := by
    change (log.groupsWithout t)[i]? = some s at hs
    rw [getElem?_groupsWithout, Option.map_eq_some_iff] at hs
    obtain ⟨r, hr, rfl⟩ := hs
    exact h.opened_apart i r u hr (Finset.mem_of_mem_erase hu) (Finset.mem_of_mem_erase hopen)
  groups_apart i j s r u hs hr hus hur := by
    change (log.groupsWithout t)[i]? = some s at hs
    change (log.groupsWithout t)[j]? = some r at hr
    rw [getElem?_groupsWithout, Option.map_eq_some_iff] at hs hr
    obtain ⟨s, hs, rfl⟩ := hs
    obtain ⟨r, hr, rfl⟩ := hr
    exact h.groups_apart i j s r u hs hr (Finset.mem_of_mem_erase hus)
      (Finset.mem_of_mem_erase hur)
  waiting_le n hn := by
    simp only [CommitLog.finish] at hn ⊢
    rw [length_groupsWithout]
    split at hn
    · cases hn
    · exact h.waiting_le n hn
  waiting_open n hn hdone := by
    simp only [CommitLog.finish] at hn hdone
    split at hn
    · cases hn
    · rename_i hreleased
      apply hreleased
      unfold released
      rw [Option.mem_def.mp hn]
      exact decide_eq_true hdone

theorem incomplete_add {u : τ} : (log.add t).Incomplete u ↔ log.Incomplete u ∨ u = t := by
  simp only [Incomplete, CommitLog.add, Finset.mem_insert]
  rw [or_assoc, or_comm]

theorem incomplete_finish {u : τ} :
    (log.finish t).2.Incomplete u ↔ log.Incomplete u ∧ u ≠ t := by
  simp only [Incomplete, CommitLog.finish, groupsWithout, Finset.mem_erase, List.mem_map]
  constructor
  · rintro (⟨hne, hu⟩ | ⟨_, ⟨s, hs, rfl⟩, hu⟩)
    · exact ⟨.inl hu, hne⟩
    · exact ⟨.inr ⟨s, hs, Finset.mem_of_mem_erase hu⟩, Finset.ne_of_mem_erase hu⟩
  · rintro ⟨hu | ⟨s, hs, hu⟩, hne⟩
    · exact .inl ⟨hne, hu⟩
    · exact .inr ⟨_, ⟨s, hs, rfl⟩, Finset.mem_erase.mpr ⟨hne, hu⟩⟩

end CommitLog

section Unfinished

variable {groups : List (Finset τ)} {s r : Finset τ} {i n : Nat}

/-- How many groups have an unfinished transaction. -/
def unfinished (groups : List (Finset τ)) : Nat := groups.countP (fun s => decide (s ≠ ∅))

theorem unfinished_append (groups : List (Finset τ)) (s : Finset τ) :
    unfinished (groups ++ [s]) = unfinished groups + if s = ∅ then 0 else 1 := by
  unfold unfinished
  rw [List.countP_append, List.countP_singleton]
  by_cases hs : s = ∅ <;> simp [hs]

/-- The groups that a client waits for, and the more recent ones. -/
theorem unfinished_split (groups : List (Finset τ)) (n : Nat) :
    unfinished groups = unfinished (groups.take n) + unfinished (groups.drop n) := by
  unfold unfinished
  rw [← List.countP_append, List.take_append_drop]

theorem doneUpTo_iff : DoneUpTo groups n ↔ unfinished (groups.take n) = 0 := by
  unfold unfinished
  rw [List.countP_eq_zero]
  constructor
  · intro h s hs
    obtain ⟨i, hi⟩ := List.mem_iff_getElem?.mp hs
    rw [List.getElem?_take] at hi
    split at hi
    · rename_i hlt
      simp [h i s hlt hi]
    · cases hi
  · intro h i s hi hs
    have hmem : s ∈ groups.take n := by
      apply List.mem_of_getElem? (i := i)
      rw [List.getElem?_take_of_lt hi]
      exact hs
    simpa using h s hmem

theorem unfinished_le_length (groups : List (Finset τ)) :
    unfinished groups ≤ groups.length := List.countP_le_length

theorem unfinished_eq_length (h : ∀ s ∈ groups, s ≠ ∅) :
    unfinished groups = groups.length := by
  unfold unfinished
  rw [List.countP_eq_length]
  intro s hs
  exact decide_eq_true (h s hs)

/-- A change of one group. -/
theorem unfinished_set (hs : groups[i]? = some s) (r : Finset τ) :
    unfinished (groups.set i r) + (if s = ∅ then 0 else 1) =
      unfinished groups + if r = ∅ then 0 else 1 := by
  induction groups generalizing i with
  | nil => cases hs
  | cons head tail ih =>
    cases i with
    | zero =>
      have hhead : head = s := Option.some.inj hs
      subst hhead
      simp only [List.set_cons_zero, unfinished, List.countP_cons, decide_eq_true_eq]
      by_cases hhead : head = ∅ <;> by_cases hr : r = ∅ <;> simp [hhead, hr]
    | succ i =>
      have htail := ih hs
      simp only [List.set_cons_succ, unfinished, List.countP_cons] at htail ⊢
      omega

/-- Where the older groups are complete, only recent ones can be incomplete. -/
theorem DoneExcept.unfinished_le (h : DoneExcept groups n) : unfinished groups ≤ n := by
  have hsplit := unfinished_split groups (groups.length - n)
  have hle := unfinished_le_length (groups.drop (groups.length - n))
  rw [List.length_drop] at hle
  rw [doneUpTo_iff.mp h] at hsplit
  omega

theorem unfinished_groupsWithout_le (log : CommitLog τ) (t : τ) :
    unfinished (log.groupsWithout t) ≤ unfinished log.groups := by
  unfold unfinished CommitLog.groupsWithout
  rw [List.countP_map]
  apply List.countP_mono_left
  intro s _ hs
  rw [Function.comp_apply, decide_eq_true_eq] at hs
  rw [decide_eq_true_eq]
  rintro rfl
  exact hs (Finset.erase_empty t)

end Unfinished

end Lib
