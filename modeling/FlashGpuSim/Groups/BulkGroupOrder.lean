import FlashGpuSim.Groups.BulkGroup
import FlashGpuSim.Lib.Reach

/-!
The groups of a warp complete in the order of their commits, whatever the order in which
their transactions do: the record of a warp follows a log of the groups.
-/

namespace FlashGpuSim

open Lib

theorem inc32_of_lt {a : Nat} (h : a + 1 < 2 ^ 32) : inc32 a = a + 1 := Nat.mod_eq_of_lt h

theorem sub32_of_le {a b : Nat} (h : b ≤ a) (ha : a < 2 ^ 32) : sub32 a b = a - b := by
  unfold sub32
  omega

theorem sub32_sub32_one {a b : Nat} (h : b < a) (ha : a < 2 ^ 32) :
    sub32 (sub32 a b) 1 = a - b - 1 := by
  unfold sub32
  omega

namespace WarpBulkInfo

variable {info : WarpBulkInfo} {log : CommitLog Nat} {t k n : Nat}

/-- The record of a warp with fewer than `2 ^ 32 - 1` commits, and its log. -/
structure Tracks (info : WarpBulkInfo) (log : CommitLog Nat) : Prop where
  sound : log.Sound
  next : info.nextGroupId = log.groups.length + 1
  bounded : log.groups.length + 1 < 2 ^ 32
  pending : info.pendingTxs = log.opened
  tx_group : ∀ (i : Nat) (s : Finset Nat) (t : Nat), log.groups[i]? = some s → t ∈ s →
    info.txToGroup t = some (i + 1)
  group_tx : ∀ t g, info.txToGroup t = some g → ∃ i s, g = i + 1 ∧ log.groups[i]? = some s ∧ t ∈ s
  groups : ∀ (i : Nat) (s : Finset Nat), log.groups[i]? = some s →
    info.pendingGroups.lookup (i + 1) = if s = ∅ then none else some ⟨i + 1, s⟩
  fresh : ∀ g, log.groups.length < g → info.pendingGroups.lookup g = none
  front : Front log.groups info.latestCompletedGroupId
  waiting : log.waiting = if info.isWaiting then some info.waitingGroupId else none

theorem tracks_fresh : Tracks {} {} where
  sound := CommitLog.sound_empty
  next := rfl
  bounded := by decide
  pending := rfl
  tx_group := by simp
  group_tx := nofun
  groups := by simp
  fresh _ _ := rfl
  front := front_nil
  waiting := rfl

theorem Tracks.latest_le (h : info.Tracks log) :
    info.latestCompletedGroupId ≤ log.groups.length := h.front.le

theorem Tracks.add (h : info.Tracks log) (ht : t ∉ log.known) :
    (info.addTx t).Tracks (log.add t) where
  sound := h.sound.add ht
  next := h.next
  bounded := h.bounded
  pending := congrArg (insert t) h.pending
  tx_group := h.tx_group
  group_tx := h.group_tx
  groups := h.groups
  fresh := h.fresh
  front := h.front
  waiting := h.waiting

/-- The commit of a group with transactions. -/
theorem Tracks.commit_nonempty (h : info.Tracks log) (hbound : info.nextGroupId + 1 < 2 ^ 32)
    (hopened : info.pendingTxs ≠ ∅) :
    Tracks { info with
      txToGroup := fun txUid =>
        if txUid ∈ info.pendingTxs then some info.nextGroupId else info.txToGroup txUid
      pendingGroups := info.pendingGroups.insert info.nextGroupId
        ⟨info.nextGroupId, info.pendingTxs⟩
      pendingTxs := ∅
      nextGroupId := info.nextGroupId + 1 } log.commit where
  sound := h.sound.commit
  next := by
    simp only [CommitLog.commit, List.length_append, List.length_singleton, h.next]
  bounded := by
    have hnext := h.next
    simp only [CommitLog.commit, List.length_append, List.length_singleton]
    omega
  pending := rfl
  tx_group i s t hs ht := by
    obtain hold | ⟨rfl, rfl⟩ := CommitLog.getElem?_commit hs
    · have hnot : t ∉ info.pendingTxs := by
        rw [h.pending]
        exact h.sound.opened_apart i s t hold ht
      exact (if_neg hnot).trans (h.tx_group i s t hold ht)
    · rw [← h.pending] at ht
      exact (if_pos ht).trans (congrArg some h.next)
  group_tx t g htg := by
    simp only at htg
    split at htg
    · rename_i ht
      refine ⟨log.groups.length, log.opened, ?_, by simp [CommitLog.commit], h.pending ▸ ht⟩
      rw [← h.next]
      exact (Option.some.inj htg).symm
    · obtain ⟨i, s, hg, hs, ht⟩ := h.group_tx t g htg
      refine ⟨i, s, hg, ?_, ht⟩
      simp only [CommitLog.commit]
      rw [List.getElem?_append_left (List.getElem?_eq_some_iff.mp hs).1]
      exact hs
  groups i s hs := by
    simp only [Table.lookup_insert, h.next]
    obtain hold | ⟨rfl, rfl⟩ := CommitLog.getElem?_commit hs
    · have hlt := (List.getElem?_eq_some_iff.mp hold).1
      rw [if_neg (by omega)]
      exact h.groups i s hold
    · rw [if_pos rfl, if_neg (h.pending ▸ hopened), h.pending]
  fresh g hg := by
    simp only [CommitLog.commit, List.length_append, List.length_singleton] at hg
    simp only [Table.lookup_insert, h.next]
    rw [if_neg (by omega)]
    exact h.fresh g (by omega)
  front := h.front.append_nonempty (h.pending ▸ hopened)
  waiting := h.waiting

/-- The commit of an empty group, which is complete at once. -/
theorem Tracks.commit_empty (h : info.Tracks log) (hbound : info.nextGroupId + 1 < 2 ^ 32)
    (hopened : info.pendingTxs = ∅) {latest : Nat}
    (hfront : Front (log.groups ++ [∅]) latest) :
    Tracks { info with
      latestCompletedGroupId := latest
      nextGroupId := info.nextGroupId + 1 } log.commit where
  sound := h.sound.commit
  next := by
    simp only [CommitLog.commit, List.length_append, List.length_singleton, h.next]
  bounded := by
    have hnext := h.next
    simp only [CommitLog.commit, List.length_append, List.length_singleton]
    omega
  pending := hopened
  tx_group i s t hs ht := by
    obtain hold | ⟨rfl, rfl⟩ := CommitLog.getElem?_commit hs
    · exact h.tx_group i s t hold ht
    · rw [← h.pending, hopened] at ht
      cases ht
  group_tx t g htg := by
    obtain ⟨i, s, hg, hs, ht⟩ := h.group_tx t g htg
    refine ⟨i, s, hg, ?_, ht⟩
    simp only [CommitLog.commit]
    rw [List.getElem?_append_left (List.getElem?_eq_some_iff.mp hs).1]
    exact hs
  groups i s hs := by
    obtain hold | ⟨rfl, rfl⟩ := CommitLog.getElem?_commit hs
    · exact h.groups i s hold
    · rw [if_pos (h.pending.symm.trans hopened)]
      exact h.fresh _ (Nat.lt_succ_self _)
  fresh g hg := by
    simp only [CommitLog.commit, List.length_append, List.length_singleton] at hg
    exact h.fresh g (by omega)
  front := by
    simp only [CommitLog.commit, ← h.pending, hopened]
    exact hfront
  waiting := h.waiting

/-- The commit of an empty group behind an incomplete one. -/
theorem commitGroup_behind (hfresh : info.pendingGroups.lookup info.nextGroupId = none)
    (hopened : info.pendingTxs = ∅)
    (hbehind : info.nextGroupId ≠ inc32 info.latestCompletedGroupId) :
    info.commitGroup = .ok { info with nextGroupId := inc32 info.nextGroupId } := by
  unfold commitGroup
  simp only [hfresh, hopened, hbehind]
  rfl

theorem Tracks.commit (h : info.Tracks log) (hbound : info.nextGroupId + 1 < 2 ^ 32) :
    ∃ info', info.commitGroup = .ok info' ∧ info'.Tracks log.commit := by
  have hle := h.latest_le
  have hnext := h.next
  have hlatest : inc32 info.latestCompletedGroupId = info.latestCompletedGroupId + 1 :=
    inc32_of_lt (by omega)
  have hfresh : require (info.pendingGroups.lookup info.nextGroupId = none)
      BulkFailure.groupExists = .ok ⟨⟩ := by
    rw [h.fresh info.nextGroupId (by omega)]
    rfl
  unfold commitGroup
  rw [hfresh, inc32_of_lt hbound, hlatest]
  by_cases hopened : info.pendingTxs = ∅
  · by_cases hall : info.nextGroupId = info.latestCompletedGroupId + 1
    · refine ⟨_, by simp only [hopened, hall]; rfl, h.commit_empty hbound hopened ?_⟩
      have hfront := h.front
      rw [show info.latestCompletedGroupId = log.groups.length by omega] at hfront ⊢
      exact hfront.append_empty
    · refine ⟨_, by simp only [hopened, hall]; rfl, h.commit_empty hbound hopened ?_⟩
      exact h.front.append_of_lt (by omega) ∅
  · exact ⟨_, by simp only [ne_eq, hopened]; rfl, h.commit_nonempty hbound hopened⟩

theorem Tracks.wait (h : info.Tracks log) (hwaiting : info.isWaiting = false) (n : Nat) :
    ∃ info', info.waitGroup n = .ok info' ∧ info'.Tracks (log.wait n).2 ∧
      (!info'.isWaiting) = (log.wait n).1 := by
  have hle := h.latest_le
  have hnext := h.next
  have hbounded := h.bounded
  have hcount : sub32 (sub32 info.nextGroupId info.latestCompletedGroupId) 1 =
      log.groups.length - info.latestCompletedGroupId := by
    rw [sub32_sub32_one (by omega) (by omega)]
    omega
  have hdone := h.front.done_iff (Nat.sub_le log.groups.length n)
  have hsound := h.sound.wait n
  unfold waitGroup
  rw [hwaiting, hcount]
  unfold CommitLog.wait at hsound ⊢
  by_cases hlt : n < log.groups.length - info.latestCompletedGroupId
  · have hopen : ¬ DoneExcept log.groups n := fun hall => by
      have hsmall := hdone.mp hall
      omega
    rw [if_neg hopen] at hsound ⊢
    refine ⟨_, by simp only [hlt]; rfl, ?_, rfl⟩
    have htarget : sub32 (sub32 info.nextGroupId n) 1 = log.groups.length - n := by
      rw [sub32_sub32_one (by omega) (by omega)]
      omega
    exact ⟨hsound, h.next, h.bounded, h.pending, h.tx_group, h.group_tx, h.groups, h.fresh,
      h.front, congrArg some htarget.symm⟩
  · have hall : DoneExcept log.groups n := hdone.mpr (by omega)
    rw [if_pos hall]
    exact ⟨info, by simp only [hlt]; rfl, h, by rw [hwaiting]; rfl⟩

/-- The loop stops at the first incomplete group. -/
theorem skipEmpty_front {groups : List (Finset Nat)} {pendingGroups : Table BulkGroup}
    (hbound : groups.length + 1 < 2 ^ 32)
    (hpending : ∀ (i : Nat) (s : Finset Nat), groups[i]? = some s →
      (pendingGroups.lookup (i + 1) = none ↔ s = ∅))
    (rounds latest : Nat) (hlatest : latest ≤ groups.length)
    (hrounds : groups.length ≤ latest + rounds)
    (hcomplete : ∀ i < latest, groups[i]? = some ∅) :
    Front groups (skipEmpty pendingGroups (groups.length + 1) rounds latest) := by
  induction rounds generalizing latest with
  | zero =>
    refine ⟨hlatest, hcomplete, ?_⟩
    unfold skipEmpty
    rw [List.getElem?_eq_none (by omega)]
    nofun
  | succ rounds ih =>
    unfold skipEmpty
    rw [inc32_of_lt (by omega)]
    split
    · rename_i hnext
      obtain ⟨s, hs⟩ : ∃ s, groups[latest]? = some s :=
        ⟨_, List.getElem?_eq_getElem (show latest < groups.length by omega)⟩
      have hempty := (hpending latest s hs).mp hnext.2
      apply ih (latest + 1) (by omega) (by omega)
      intro i hi
      rcases (Nat.lt_succ_iff.mp hi).lt_or_eq with hlt | rfl
      · exact hcomplete i hlt
      · rw [hs, hempty]
    · rename_i hstop
      refine ⟨hlatest, hcomplete, fun hempty => hstop ⟨?_, ?_⟩⟩
      · have hlt := (List.getElem?_eq_some_iff.mp hempty).1
        omega
      · exact (hpending latest ∅ hempty).mpr rfl

/-- The groups that are pending after the last transaction of one of them completed. -/
theorem Tracks.pending_erase (h : info.Tracks log) {i : Nat} {s : Finset Nat}
    (hs : log.groups[i]? = some s) (hlast : s.erase t = ∅) (j : Nat) (r : Finset Nat)
    (hr : (log.groups.set i (s.erase t))[j]? = some r) :
    (info.pendingGroups.erase (i + 1)).lookup (j + 1) = if r = ∅ then none else some ⟨j + 1, r⟩ := by
  rw [List.getElem?_set] at hr
  rw [Table.lookup_erase]
  split at hr
  · rename_i hij
    subst hij
    rw [if_pos (List.getElem?_eq_some_iff.mp hs).1, hlast] at hr
    rw [if_pos rfl, if_pos (Option.some.inj hr).symm]
  · rename_i hij
    rw [if_neg (by omega)]
    exact h.groups j r hr

/-- The record after a transaction of a group completed, given what it does to the pending
groups and to the front. -/
theorem Tracks.finish_of_mem (h : info.Tracks log) {i : Nat} {s : Finset Nat}
    (hs : log.groups[i]? = some s) (ht : t ∈ s) {pendingGroups : Table BulkGroup}
    {latest : Nat} {isWaiting : Bool}
    (hgroups : ∀ (j : Nat) (r : Finset Nat), (log.groups.set i (s.erase t))[j]? = some r →
      pendingGroups.lookup (j + 1) = if r = ∅ then none else some ⟨j + 1, r⟩)
    (hfresh : ∀ g, log.groups.length < g → pendingGroups.lookup g = none)
    (hfront : Front (log.groups.set i (s.erase t)) latest)
    (hwaiting : isWaiting = (info.isWaiting && !decide (info.waitingGroupId ≤ latest))) :
    Tracks { info with
      txToGroup := Function.update info.txToGroup t none
      pendingGroups := pendingGroups
      latestCompletedGroupId := latest
      isWaiting := isWaiting } (log.finish t).2 ∧
      (info.isWaiting && !isWaiting) = (log.finish t).1 := by
  have hwithout := h.sound.groupsWithout_of_mem hs ht
  have hreleased : log.released t =
      (info.isWaiting && decide (info.waitingGroupId ≤ latest)) := by
    rw [CommitLog.released_eq h.sound.waiting_le (hwithout ▸ hfront), h.waiting]
    cases info.isWaiting <;> rfl
  have hopened := h.sound.opened_of_mem hs ht
  refine ⟨⟨h.sound.finish t, ?_, ?_, ?_, ?_, ?_, ?_, ?_, ?_, ?_⟩, ?_⟩
  · simp only [CommitLog.finish, hwithout, List.length_set, h.next]
  · simp only [CommitLog.finish, hwithout, List.length_set, h.bounded]
  · simp only [CommitLog.finish, hopened, h.pending]
  · intro j r u hr hu
    change (log.groupsWithout t)[j]? = some r at hr
    rw [CommitLog.getElem?_groupsWithout, Option.map_eq_some_iff] at hr
    obtain ⟨r, hr, rfl⟩ := hr
    obtain ⟨hne, hu⟩ := Finset.mem_erase.mp hu
    exact (Function.update_of_ne hne _ _).trans (h.tx_group j r u hr hu)
  · intro u g hu
    change Function.update info.txToGroup t none u = some g at hu
    have hne : u ≠ t := by
      rintro rfl
      rw [Function.update_self] at hu
      cases hu
    rw [Function.update_of_ne hne] at hu
    obtain ⟨j, r, hg, hr, hur⟩ := h.group_tx u g hu
    refine ⟨j, r.erase t, hg, ?_, Finset.mem_erase.mpr ⟨hne, hur⟩⟩
    change (log.groupsWithout t)[j]? = some (r.erase t)
    rw [CommitLog.getElem?_groupsWithout, hr]
    rfl
  · simp only [CommitLog.finish, hwithout]
    exact hgroups
  · simp only [CommitLog.finish, hwithout, List.length_set]
    exact hfresh
  · simp only [CommitLog.finish, hwithout]
    exact hfront
  · simp only [CommitLog.finish, hreleased, h.waiting, hwaiting]
    cases info.isWaiting <;> cases decide (info.waitingGroupId ≤ latest) <;> rfl
  · simp only [CommitLog.finish, hreleased, hwaiting]
    cases info.isWaiting <;> cases decide (info.waitingGroupId ≤ latest) <;> rfl

/-- A waiting client waits for a group at the front or behind it. -/
theorem Tracks.not_reached (h : info.Tracks log) :
    (info.isWaiting && !decide (info.waitingGroupId ≤ info.latestCompletedGroupId)) =
      info.isWaiting := by
  cases hwaiting : info.isWaiting with
  | false => rfl
  | true =>
    have hlog := h.waiting
    rw [hwaiting] at hlog
    have hopen := h.sound.waiting_open _ hlog
    rw [h.front.done_iff (h.sound.waiting_le _ hlog)] at hopen
    rw [decide_eq_false hopen]
    rfl

/-- The test on unsigned differences compares the group waited for with the front. -/
theorem Tracks.reached (h : info.Tracks log) (hn : n ≤ log.groups.length) :
    (info.isWaiting && !decide (sub32 info.nextGroupId info.waitingGroupId ≥
        sub32 info.nextGroupId n)) =
      (info.isWaiting && !decide (info.waitingGroupId ≤ n)) := by
  cases hwaiting : info.isWaiting with
  | false => simp only [Bool.false_and]
  | true =>
    have hlog := h.waiting
    rw [hwaiting] at hlog
    have hle := h.sound.waiting_le _ hlog
    have hnext := h.next
    have hbounded := h.bounded
    have hiff : sub32 info.nextGroupId info.waitingGroupId ≥ sub32 info.nextGroupId n ↔
        info.waitingGroupId ≤ n := by
      rw [sub32_of_le (by omega) (by omega), sub32_of_le (by omega) (by omega)]
      omega
    simp only [hiff]

/-- The front after the oldest incomplete group completed. -/
theorem Tracks.skipEmpty_front (h : info.Tracks log) {i : Nat} {s : Finset Nat}
    (hs : log.groups[i]? = some s) (hlast : s.erase t = ∅)
    (hnext : i + 1 = inc32 info.latestCompletedGroupId) :
    Front (log.groups.set i (s.erase t))
      (skipEmpty (info.pendingGroups.erase (i + 1)) info.nextGroupId info.nextGroupId
        (inc32 info.latestCompletedGroupId)) := by
  have hlt := (List.getElem?_eq_some_iff.mp hs).1
  have hbounded := h.bounded
  have hle := h.latest_le
  rw [inc32_of_lt (by omega)] at hnext ⊢
  have hlength : (log.groups.set i (s.erase t)).length = log.groups.length := List.length_set
  rw [h.next, ← hlength]
  apply WarpBulkInfo.skipEmpty_front
  · omega
  · intro j r hr
    rw [h.pending_erase hs hlast j r hr]
    split
    · rename_i hempty
      exact iff_of_true rfl hempty
    · rename_i hfull
      exact iff_of_false nofun hfull
  · omega
  · omega
  · intro j hj
    rw [List.getElem?_set]
    split
    · rw [hlast]
    · exact h.front.complete j (by omega)

theorem Tracks.finish (h : info.Tracks log) (t : Nat) :
    ∃ info', info.completeTx t = .ok info' ∧ info'.Tracks (log.finish t).2 ∧
      (info.isWaiting && !info'.isWaiting) = (log.finish t).1 := by
  unfold completeTx
  cases htx : info.txToGroup t with
  | none =>
    have hnot : ∀ (i : Nat) (s : Finset Nat), log.groups[i]? = some s → t ∉ s := by
      intro i s hs ht
      rw [h.tx_group i s t hs ht] at htx
      cases htx
    have hsound := h.sound.finish t
    rw [h.sound.finish_of_notMem hnot] at hsound ⊢
    refine ⟨_, rfl, ⟨hsound, h.next, h.bounded, ?_, h.tx_group, h.group_tx, h.groups, h.fresh,
      h.front, h.waiting⟩, by simp⟩
    exact congrArg (fun s => s.erase t) h.pending
  | some g =>
    obtain ⟨i, s, rfl, hs, ht⟩ := h.group_tx t g htx
    have hlt := (List.getElem?_eq_some_iff.mp hs).1
    have hfront := h.front.le_of_mem hs ht
    have hlookup : info.pendingGroups.lookup (i + 1) = some ⟨i + 1, s⟩ := by
      rw [h.groups i s hs, if_neg (Finset.ne_empty_of_mem ht)]
    simp only [hlookup]
    by_cases hlast : s.erase t = ∅
    · have herase := h.pending_erase hs hlast
      have hfresh (g : Nat) (hg : log.groups.length < g) :
          (info.pendingGroups.erase (i + 1)).lookup g = none := by
        rw [Table.lookup_erase, if_neg (by omega)]
        exact h.fresh g hg
      rw [if_pos hlast]
      unfold completeGroup
      by_cases hnext : i + 1 = inc32 info.latestCompletedGroupId
      · rw [if_pos hnext]
        have hskip := h.skipEmpty_front hs hlast hnext
        have hle := hskip.le
        rw [List.length_set] at hle
        exact ⟨_, rfl, h.finish_of_mem hs ht herase hfresh hskip (h.reached hle)⟩
      · rw [if_neg hnext]
        have hne : i ≠ info.latestCompletedGroupId := by
          rintro rfl
          exact hnext (inc32_of_lt (by have hbounded := h.bounded; omega)).symm
        exact ⟨_, rfl, h.finish_of_mem hs ht herase hfresh
          (h.front.set hfront fun heq => absurd heq hne) h.not_reached.symm⟩
    · rw [if_neg hlast]
      refine ⟨_, rfl, h.finish_of_mem hs ht ?_ ?_ (h.front.set hfront fun _ => hlast)
        h.not_reached.symm⟩
      · intro j r hr
        rw [List.getElem?_set] at hr
        rw [Table.lookup_insert]
        split at hr
        · rename_i hij
          subst hij
          cases hr
          rw [if_pos rfl, if_neg hlast]
        · rename_i hij
          rw [if_neg (by omega)]
          exact h.groups j r hr
      · intro g hg
        rw [Table.lookup_insert, if_neg (by omega)]
        exact h.fresh g hg

end WarpBulkInfo

/-- A call for one warp: an answer to a wait, or whether a completion ends a wait. -/
def BulkGroupManager.call (mgr : BulkGroupManager) (key : Nat × Nat) :
    GroupOp Nat → Except BulkFailure (Bool × BulkGroupManager)
  | .add txUid => .ok (false, mgr.addTx key txUid)
  | .commit => return (false, ← mgr.commitBulkGroup key)
  | .wait latestGroupNum => mgr.waitBulkGroup key latestGroupNum
  | .finish txUid => mgr.completeTx key txUid

/-- The manager, and the log of what each warp asked for. -/
structure BulkRun where
  mgr : BulkGroupManager := {}
  logs : Nat × Nat → CommitLog Nat := fun _ => {}

inductive BulkOp
  | warp (key : Nat × Nat) (op : GroupOp Nat)
  | cleanupCta (ctaId : Nat)

namespace BulkRun

def step (r : BulkRun) : BulkOp → Except BulkFailure BulkRun
  | .warp key op => do
    let (_, mgr) ← r.mgr.call key op
    return { mgr := mgr, logs := Function.update r.logs key ((r.logs key).call op).2 }
  | .cleanupCta ctaId => .ok
      { mgr := r.mgr.cleanupCta ctaId
        logs := fun key => if key.1 = ctaId then {} else r.logs key }

/-- The identifier of a new transaction is new. -/
def Distinct (r : BulkRun) : BulkOp → Prop
  | .warp key (.add txUid) => txUid ∉ (r.logs key).known
  | _ => True

/-- The group identifiers of a warp do not run out. -/
def Bounded (r : BulkRun) : BulkOp → Prop
  | .warp key .commit => (r.mgr.infoOf key).nextGroupId + 1 < 2 ^ 32
  | _ => True

/-- The groups complete in order, and a warp waits for groups of which some is not. -/
structure InOrder (r : BulkRun) : Prop where
  latest : ∀ key, IsGreatest {n | n ≤ (r.logs key).groups.length ∧
    DoneUpTo (r.logs key).groups n} (r.mgr.infoOf key).latestCompletedGroupId
  waiting : ∀ key, (r.logs key).waiting =
    if r.mgr.isWaiting key then some (r.mgr.infoOf key).waitingGroupId else none
  incomplete : ∀ key, ∀ n ∈ (r.logs key).waiting, ¬ DoneUpTo (r.logs key).groups n

/-- A call gives the answer of the log: a wait is over at once if all but the most recent
groups are complete, and the completion that makes the groups complete that a warp waits
for is the one that releases it. -/
def Answers (r : BulkRun) (key : Nat × Nat) (op : GroupOp Nat) : Prop :=
  (∀ n, op = .wait n → r.mgr.isWaiting key = false) →
    (∀ t, op = .finish t → r.mgr.warpBulkInfo key ≠ none) →
      ∃ mgr', r.mgr.call key op = .ok (((r.logs key).call op).1, mgr')

def Tracked (r : BulkRun) : Prop := ∀ key, (r.mgr.infoOf key).Tracks (r.logs key)

variable {r : BulkRun} {key : Nat × Nat} {op : GroupOp Nat}

theorem isWaiting_eq (mgr : BulkGroupManager) (key : Nat × Nat) :
    mgr.isWaiting key = (mgr.infoOf key).isWaiting := by
  unfold BulkGroupManager.isWaiting BulkGroupManager.infoOf
  cases mgr.warpBulkInfo key <;> rfl

theorem infoOf_put (mgr : BulkGroupManager) (key other : Nat × Nat) (info : WarpBulkInfo) :
    (mgr.put key info).infoOf other = if other = key then info else mgr.infoOf other := by
  unfold BulkGroupManager.infoOf BulkGroupManager.put
  by_cases hkey : other = key
  · simp only [hkey, Function.update_self, if_true, Option.getD_some]
  · simp only [Function.update_of_ne hkey, if_neg hkey]

theorem infoOf_of_some {mgr : BulkGroupManager} {info : WarpBulkInfo}
    (h : mgr.warpBulkInfo key = some info) : mgr.infoOf key = info := by
  unfold BulkGroupManager.infoOf
  rw [h]
  rfl

/-- A warp without a record has no groups to wait for. -/
theorem waitGroup_fresh (n : Nat) : ({} : WarpBulkInfo).waitGroup n = .ok {} := by
  have hcount : sub32 (sub32 1 0) 1 = 0 := by decide
  unfold WarpBulkInfo.waitGroup
  simp only [hcount, Nat.not_lt_zero, if_false]
  rfl

/-- A call succeeds with the answer of the log, and the record follows the log. -/
theorem Tracked.call (h : r.Tracked) (hdistinct : r.Distinct (.warp key op))
    (hbounded : r.Bounded (.warp key op)) (hwait : ∀ n, op = .wait n → r.mgr.isWaiting key = false)
    (hfinish : ∀ t, op = .finish t → r.mgr.warpBulkInfo key ≠ none) :
    ∃ mgr' info, r.mgr.call key op = .ok (((r.logs key).call op).1, mgr') ∧
      info.Tracks ((r.logs key).call op).2 ∧
      ∀ other, mgr'.infoOf other = if other = key then info else r.mgr.infoOf other := by
  have htracks := h key
  cases op with
  | add t => exact ⟨_, _, rfl, htracks.add hdistinct, fun other => infoOf_put _ _ other _⟩
  | commit =>
    obtain ⟨info, hcommit, htracks'⟩ := htracks.commit hbounded
    refine ⟨_, info, ?_, htracks', fun other => infoOf_put r.mgr key other info⟩
    simp only [BulkGroupManager.call, BulkGroupManager.commitBulkGroup, hcommit]
    rfl
  | wait n =>
    have hidle := hwait n rfl
    rw [isWaiting_eq] at hidle
    obtain ⟨info, hinfo, htracks', hanswer⟩ := htracks.wait hidle n
    simp only [BulkGroupManager.call, BulkGroupManager.waitBulkGroup]
    cases hrecord : r.mgr.warpBulkInfo key with
    | none =>
      have hfresh : r.mgr.infoOf key = {} := by
        unfold BulkGroupManager.infoOf
        rw [hrecord]
        rfl
      rw [hfresh, waitGroup_fresh] at hinfo
      cases hinfo
      refine ⟨r.mgr, {}, ?_, htracks', fun other => ?_⟩
      · simp only [CommitLog.call, ← hanswer]
        rfl
      · split
        · rename_i hkey
          rw [hkey, hfresh]
        · rfl
    | some record =>
      rw [infoOf_of_some hrecord] at hinfo
      refine ⟨_, info, ?_, htracks', fun other => infoOf_put r.mgr key other info⟩
      simp only [hinfo, CommitLog.call, ← hanswer]
      rfl
  | finish t =>
    obtain ⟨record, hrecord⟩ := Option.ne_none_iff_exists'.mp (hfinish t rfl)
    obtain ⟨info, hinfo, htracks', hanswer⟩ := htracks.finish t
    rw [infoOf_of_some hrecord] at hinfo hanswer
    refine ⟨_, info, ?_, htracks', fun other => infoOf_put r.mgr key other info⟩
    simp only [BulkGroupManager.call, BulkGroupManager.completeTx, hrecord, hinfo,
      CommitLog.call, ← hanswer]
    rfl

/-- A call that succeeds found the warp as its assertions ask for. -/
theorem call_asserts {mgr mgr' : BulkGroupManager} {result : Bool}
    (h : mgr.call key op = .ok (result, mgr')) :
    (∀ n, op = .wait n → mgr.isWaiting key = false) ∧
      ∀ t, op = .finish t → mgr.warpBulkInfo key ≠ none := by
  constructor
  · rintro n rfl
    simp only [BulkGroupManager.call, BulkGroupManager.waitBulkGroup] at h
    unfold BulkGroupManager.isWaiting
    cases hrecord : mgr.warpBulkInfo key with
    | none => rfl
    | some record =>
      rw [hrecord] at h
      obtain ⟨info, hwait, -⟩ := bind_eq_ok h
      obtain ⟨_, hrequire, _⟩ := bind_eq_ok hwait
      cases hwaiting : record.isWaiting with
      | false => exact hwaiting
      | true =>
        rw [hwaiting] at hrequire
        cases hrequire
  · rintro t rfl hrecord
    simp only [BulkGroupManager.call, BulkGroupManager.completeTx, hrecord] at h
    cases h

theorem tracked_init : Tracked {} := fun _ => WarpBulkInfo.tracks_fresh

theorem Tracked.step (h : r.Tracked) {r' : BulkRun} {op : BulkOp} (hdistinct : r.Distinct op)
    (hbounded : r.Bounded op) (hstep : r.step op = .ok r') : r'.Tracked := by
  cases op with
  | warp key op =>
    obtain ⟨⟨result, mgr'⟩, hcall, heq⟩ := bind_eq_ok hstep
    cases heq
    obtain ⟨hwait, hfinish⟩ := call_asserts hcall
    obtain ⟨mgr₁, info, hcall₁, htracks, hinfo⟩ := h.call hdistinct hbounded hwait hfinish
    rw [hcall] at hcall₁
    cases hcall₁
    intro other
    simp only [hinfo other]
    by_cases hkey : other = key
    · simp only [hkey, if_true, Function.update_self]
      exact htracks
    · simp only [if_neg hkey, Function.update_of_ne hkey]
      exact h other
  | cleanupCta ctaId =>
    cases hstep
    intro other
    simp only [BulkGroupManager.infoOf, BulkGroupManager.cleanupCta]
    split
    · exact WarpBulkInfo.tracks_fresh
    · exact h other

theorem Tracked.inOrder (h : r.Tracked) : r.InOrder where
  latest key := (h key).front.isGreatest
  waiting key := by
    rw [isWaiting_eq]
    exact (h key).waiting
  incomplete key := (h key).sound.waiting_open

/-- In a run in which no warp runs out of group identifiers, the groups of each warp
complete in order, and the next call of an allowed operation gives the answer of the log. -/
theorem bulk_groups_complete_in_order
    (h : Reaches step (fun r op => r.Distinct op ∧ r.Bounded op) {} r) :
    r.InOrder ∧ ∀ key op, r.Distinct (.warp key op) → r.Bounded (.warp key op) →
      r.Answers key op := by
  have htracked : r.Tracked := by
    apply h.invariant Tracked tracked_init
    rintro r r' op htracked ⟨hdistinct, hbounded⟩ hstep
    exact htracked.step hdistinct hbounded hstep
  refine ⟨htracked.inOrder, fun key op hdistinct hbounded hwait hfinish => ?_⟩
  obtain ⟨mgr', info, hcall, -⟩ := htracked.call hdistinct hbounded hwait hfinish
  exact ⟨mgr', hcall⟩

instance (r : BulkRun) (op : BulkOp) : Decidable (r.Distinct op) := by
  unfold Distinct
  split <;> infer_instance

instance (r : BulkRun) (op : BulkOp) : Decidable (r.Bounded op) := by
  unfold Bounded
  split <;> infer_instance

/-- A warp waits for the older of two groups, and the newer one completes first. -/
theorem bulk_groups_complete_in_order_witness :
    ∃ r : BulkRun, r.mgr.isWaiting (0, 0) = true ∧ r.InOrder ∧
      r.Answers (0, 0) (.finish 1) := by
  have hrun : ((runAllowed step (fun r op => r.Distinct op ∧ r.Bounded op) {}
      [.warp (0, 0) (.add 1), .warp (0, 0) .commit, .warp (0, 0) (.add 2), .warp (0, 0) .commit,
        .warp (0, 0) (.wait 1), .warp (0, 0) (.finish 2)]).any
      fun r => r.mgr.isWaiting (0, 0)) = true := by
    decide
  obtain ⟨r, hr, hwaiting⟩ := (Option.any_eq_true _ _).mp hrun
  have hmain := bulk_groups_complete_in_order (Reaches.of_runAllowed .refl hr)
  exact ⟨r, hwaiting, hmain.1, hmain.2 (0, 0) (.finish 1) trivial trivial⟩

section Wrap

/-- A run of one warp with the given record and log. -/
def oneWarp (info : WarpBulkInfo) (log : CommitLog Nat) : BulkRun :=
  ⟨⟨Function.update (fun _ => none) (0, 0) (some info)⟩, Function.update (fun _ => {}) (0, 0) log⟩

theorem oneWarp_call {info : WarpBulkInfo} {log : CommitLog Nat} {result : Bool}
    {info' : WarpBulkInfo}
    (hcall : (oneWarp info log).mgr.call (0, 0) op =
      .ok (result, (oneWarp info log).mgr.put (0, 0) info')) :
    (oneWarp info log).step (.warp (0, 0) op) = .ok (oneWarp info' (log.call op).2) := by
  simp only [step]
  rw [hcall]
  simp only [oneWarp, BulkGroupManager.put, Function.update_idem, Function.update_self]
  rfl

theorem oneWarp_infoOf (info : WarpBulkInfo) (log : CommitLog Nat) :
    (oneWarp info log).mgr.infoOf (0, 0) = info := by
  simp only [BulkGroupManager.infoOf, oneWarp, Function.update_self, Option.getD_some]

theorem oneWarp_logs (info : WarpBulkInfo) (log : CommitLog Nat) :
    (oneWarp info log).logs (0, 0) = log := by
  simp only [oneWarp, Function.update_self]

theorem oneWarp_commit {info info' : WarpBulkInfo} (hcommit : info.commitGroup = .ok info')
    (log : CommitLog Nat) :
    (oneWarp info log).step (.warp (0, 0) .commit) = .ok (oneWarp info' log.commit) := by
  apply oneWarp_call
  simp only [BulkGroupManager.call, BulkGroupManager.commitBulkGroup, oneWarp_infoOf, hcommit]
  rfl

/-- The record of a warp after `n` commits without transactions. -/
def emptyCommits (n : Nat) : WarpBulkInfo where
  nextGroupId := n + 1
  latestCompletedGroupId := n

theorem emptyCommits_commit {n : Nat} (hn : n + 2 < 2 ^ 32) :
    (emptyCommits n).commitGroup = .ok (emptyCommits (n + 1)) := by
  have hlatest : inc32 n = n + 1 := inc32_of_lt (by omega)
  have hnext : inc32 (n + 1) = n + 2 := inc32_of_lt (by omega)
  simp only [WarpBulkInfo.commitGroup, emptyCommits, hlatest, hnext]
  rfl

/-- The first commit of a warp makes its record. -/
theorem first_commit :
    ({} : BulkRun).step (.warp (0, 0) .commit) =
      .ok (oneWarp (emptyCommits 1) { groups := [∅] }) := rfl

theorem reaches_emptyCommits (n : Nat) (hn : n + 2 < 2 ^ 32) :
    Reaches step Distinct {}
      (oneWarp (emptyCommits (n + 1)) { groups := List.replicate (n + 1) ∅ }) := by
  induction n with
  | zero => exact .next (o := .warp (0, 0) .commit) .refl trivial first_commit
  | succ n ih =>
    refine .next (o := .warp (0, 0) .commit) (ih (by omega)) trivial ?_
    rw [oneWarp_commit (emptyCommits_commit (by omega))]
    simp only [CommitLog.commit, ← List.replicate_succ']

/-- The record after a transaction was committed as group `n + 1`. -/
def lastGroup (n nextGroupId : Nat) : WarpBulkInfo where
  nextGroupId := nextGroupId
  txToGroup := fun txUid => if txUid ∈ ({7} : Finset Nat) then some (n + 1) else none
  pendingGroups := (∅ : Table BulkGroup).insert (n + 1) ⟨n + 1, {7}⟩
  latestCompletedGroupId := n

theorem emptyCommits_add (n : Nat) (log : CommitLog Nat) :
    (oneWarp (emptyCommits n) log).step (.warp (0, 0) (.add 7)) =
      .ok (oneWarp { emptyCommits n with pendingTxs := {7} } (log.add 7)) := by
  apply oneWarp_call
  simp only [BulkGroupManager.call, BulkGroupManager.addTx, oneWarp_infoOf]
  rfl

theorem emptyCommits_commit_tx {n : Nat} (hn : n + 2 < 2 ^ 32) :
    ({ emptyCommits n with pendingTxs := {7} } : WarpBulkInfo).commitGroup =
      .ok (lastGroup n (n + 2)) := by
  have hnext : inc32 (n + 1) = n + 2 := inc32_of_lt (by omega)
  simp only [WarpBulkInfo.commitGroup, emptyCommits, hnext]
  rfl

/-- The next commit takes the last identifier, and the counter starts again. -/
theorem lastGroup_commit {n : Nat} (hn : n + 3 = 2 ^ 32) :
    (lastGroup n (n + 2)).commitGroup = .ok (lastGroup n 0) := by
  have hlatest : inc32 n = n + 1 := inc32_of_lt (by omega)
  have hnext : inc32 (n + 2) = 0 := by
    unfold inc32
    omega
  have hfresh : (lastGroup n (n + 2)).pendingGroups.lookup (n + 2) = none := by
    simp only [lastGroup, Table.lookup_insert]
    rw [if_neg (by omega)]
    rfl
  have hbehind : n + 2 ≠ inc32 n := by omega
  rw [WarpBulkInfo.commitGroup_behind hfresh rfl hbehind]
  simp only [lastGroup, hnext]

/-- The completion does not skip the group behind, which is complete. -/
theorem lastGroup_complete {n : Nat} (hn : n + 3 = 2 ^ 32) :
    ∃ info, (lastGroup n 0).completeTx 7 = .ok info ∧ info.latestCompletedGroupId = n + 1 := by
  have hlatest : inc32 n = n + 1 := inc32_of_lt (by omega)
  have hgroup : (lastGroup n 0).pendingGroups.lookup (n + 1) = some ⟨n + 1, {7}⟩ := by
    simp only [lastGroup, Table.lookup_insert, if_true]
  have htx : (lastGroup n 0).txToGroup 7 = some (n + 1) := rfl
  have hlast : ({7} : Finset Nat).erase 7 = ∅ := rfl
  unfold WarpBulkInfo.completeTx
  simp only [htx, hgroup, hlast, if_true, WarpBulkInfo.completeGroup]
  rw [show (lastGroup n 0).latestCompletedGroupId = n from rfl, hlatest, if_pos rfl]
  exact ⟨_, rfl, rfl⟩

theorem oneWarp_finish {info info' : WarpBulkInfo} {t : Nat}
    (hcomplete : info.completeTx t = .ok info') (log : CommitLog Nat) :
    (oneWarp info log).step (.warp (0, 0) (.finish t)) =
      .ok (oneWarp info' (log.finish t).2) := by
  have hrecord : (oneWarp info log).mgr.warpBulkInfo (0, 0) = some info := by
    simp only [oneWarp, Function.update_self]
  apply oneWarp_call
  · simp only [BulkGroupManager.call, BulkGroupManager.completeTx, hrecord, hcomplete]
    rfl

/-- All groups are complete after the only transaction finished. -/
theorem finish_only (n : Nat) :
    n + 2 ≤ (({ groups := List.replicate n ∅ } : CommitLog Nat).add 7 |>.commit.commit.finish
      7).2.groups.length ∧
    ∀ s ∈ (({ groups := List.replicate n ∅ } : CommitLog Nat).add 7 |>.commit.commit.finish
      7).2.groups, s = ∅ := by
  constructor
  · simp [CommitLog.finish, CommitLog.groupsWithout, CommitLog.commit, CommitLog.add]
  · intro s hs
    simp only [CommitLog.finish, CommitLog.groupsWithout, CommitLog.commit, CommitLog.add,
      List.mem_map, List.mem_append, List.mem_replicate, List.mem_singleton] at hs
    obtain ⟨r, (⟨-, rfl⟩ | rfl) | rfl, rfl⟩ := hs
    · rfl
    · rfl
    · rfl

/-- A transaction is committed, then a group without transactions, which takes the last
identifier. -/
theorem bulk_groups_complete_in_order_counterexample :
    ¬ ∀ r : BulkRun, Reaches step Distinct {} r → r.InOrder := by
  intro hclaim
  obtain ⟨n, hn⟩ : ∃ n, n + 4 = 2 ^ 32 := ⟨2 ^ 32 - 4, by norm_num⟩
  let log : CommitLog Nat := { groups := List.replicate (n + 1) ∅ }
  have hempty := finish_only (n + 1)
  obtain ⟨info, hcomplete, hlatest⟩ := lastGroup_complete (n := n + 1) (by omega)
  have hadded : Reaches step Distinct {}
      (oneWarp { emptyCommits (n + 1) with pendingTxs := {7} } (log.add 7)) := by
    refine .next (o := .warp (0, 0) (.add 7)) (reaches_emptyCommits n (by omega)) ?_
      (emptyCommits_add (n + 1) log)
    rw [Distinct, oneWarp_logs]
    exact Finset.notMem_empty 7
  have hcommitted : Reaches step Distinct {}
      (oneWarp (lastGroup (n + 1) (n + 3)) (log.add 7).commit) :=
    .next (o := .warp (0, 0) .commit) hadded trivial
      (oneWarp_commit (emptyCommits_commit_tx (by omega)) _)
  have hwrapped : Reaches step Distinct {}
      (oneWarp (lastGroup (n + 1) 0) (log.add 7).commit.commit) :=
    .next (o := .warp (0, 0) .commit) hcommitted trivial
      (oneWarp_commit (lastGroup_commit (by omega)) _)
  have hfinished : Reaches step Distinct {}
      (oneWarp info ((log.add 7).commit.commit.finish 7).2) :=
    .next (o := .warp (0, 0) (.finish 7)) hwrapped trivial (oneWarp_finish hcomplete _)
  have hgreatest := (hclaim _ hfinished).latest (0, 0)
  rw [oneWarp_infoOf, hlatest, oneWarp_logs] at hgreatest
  have hall : n + 3 ≤ n + 2 :=
    hgreatest.2 ⟨hempty.1, fun i s _ hs => hempty.2 s (List.mem_of_getElem? hs)⟩
  omega

end Wrap

end BulkRun

end FlashGpuSim
