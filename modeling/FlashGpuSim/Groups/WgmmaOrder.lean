import FlashGpuSim.Groups.CpAsyncOrder
import FlashGpuSim.Groups.WgmmaUnit

/-!
A wait of a warpgroup is over when at most as many groups are incomplete as it allows. While no
recent group is complete before an older one, these are the most recent groups, and the waits
are those that the warpgroups asked for.
-/

namespace FlashGpuSim

open Lib

namespace WarpgroupInfo

variable {info : WarpgroupInfo} {log : CommitLog Nat} {opUid n : Nat}

/-- The groups of a warpgroup are kept as those of `cp.async`. -/
def counted (info : WarpgroupInfo) : CpAsyncGroupInfo where
  nextGroupId := info.nextGroupId
  pendingTxs := info.pendingOps
  pendingGroups := info.pendingGroups
  txToGroup := info.opToGroup

/-- The record of a warpgroup and the log of its groups. -/
structure Tracks (info : WarpgroupInfo) (log : CommitLog Nat) : Prop where
  follows : info.counted.Follows log.opened log.groups
  sound : log.Sound
  idle : log.waiting = none

theorem tracks_fresh : Tracks {} {} :=
  ⟨CpAsyncGroupInfo.tracks_fresh.toFollows, CommitLog.sound_empty, rfl⟩

theorem Tracks.size (h : info.Tracks log) : info.pendingGroups.size = unfinished log.groups :=
  h.follows.size

theorem Tracks.add (h : info.Tracks log) (hnew : opUid ∉ log.known) :
    (info.addOp opUid).Tracks (log.add opUid) where
  follows := {
    next := h.follows.next
    pending := congrArg (insert opUid) h.follows.pending
    tx_group := h.follows.tx_group
    group_tx := h.follows.group_tx
    lookup := h.follows.lookup
    size := h.follows.size }
  sound := h.sound.add hnew
  idle := h.idle

theorem Tracks.commit (h : info.Tracks log)
    (hfresh : info.pendingOps ≠ ∅ → info.pendingGroups.lookup info.nextGroupId = none) :
    info.commitGroup.Tracks log.commit where
  follows := by
    unfold commitGroup
    split
    · rename_i hempty
      exact h.follows.commit_empty hempty
    · rename_i hsome
      exact h.follows.commit_nonempty h.sound hsome (hfresh hsome)
  sound := h.sound.commit
  idle := h.idle

/-- An operation leaves its group. -/
theorem Tracks.remove (h : info.Tracks log) (opUid : Nat) :
    ∃ info', info.removeOp opUid = .ok info' ∧ info'.Tracks (log.finish opUid).2 ∧
      info'.isWaiting = info.isWaiting ∧ info'.waitAllowance = info.waitAllowance ∧
        info'.waitingWarps = info.waitingWarps := by
  have hidle : (log.finish opUid).2.waiting = none := by
    unfold CommitLog.finish
    dsimp only
    split
    · rfl
    · exact h.idle
  have htracks : ∀ info' : WarpgroupInfo, info'.counted.Follows (log.opened.erase opUid)
      (log.groupsWithout opUid) → info'.Tracks (log.finish opUid).2 :=
    fun info' hf => ⟨hf, h.sound.finish opUid, hidle⟩
  unfold removeOp
  by_cases hpending : opUid ∈ info.pendingOps
  · rw [if_pos hpending]
    refine ⟨_, rfl, htracks _ ?_, rfl, rfl, rfl⟩
    have hnone : ∀ (i : Nat) (s : Finset Nat), log.groups[i]? = some s → opUid ∉ s := by
      intro i s hs hin
      exact h.sound.opened_apart i s opUid hs hin (h.follows.pending ▸ hpending)
    rw [CommitLog.groupsWithout_of_notMem hnone]
    exact ⟨h.follows.next, congrArg (fun s => s.erase opUid) h.follows.pending,
      h.follows.tx_group, h.follows.group_tx, h.follows.lookup, h.follows.size⟩
  · rw [if_neg hpending]
    cases hgroup : info.opToGroup opUid with
    | none =>
      refine ⟨info, rfl, htracks _ ?_, rfl, rfl, rfl⟩
      have hf := h.follows.remove_of_notMem hgroup
      have hsame : info.counted.pendingTxs.erase opUid = info.counted.pendingTxs :=
        Finset.erase_eq_of_notMem hpending
      rw [hsame] at hf
      exact hf
    | some groupId =>
      obtain ⟨i, s, rfl, hs, hin⟩ := h.follows.group_tx opUid groupId hgroup
      have hlookup := h.follows.lookup i s hs (Finset.ne_empty_of_mem hin)
      have hlookup : info.pendingGroups.lookup (CpAsyncGroupInfo.groupIdAt i) = some s := hlookup
      simp only [hlookup]
      exact ⟨_, rfl, htracks _ (h.follows.remove_of_mem h.sound hs hin), rfl, rfl, rfl⟩

end WarpgroupInfo

namespace WgmmaGroups

variable {groups groups' : WgmmaGroups}

theorem infoOf_put (groups : WgmmaGroups) (key other : Nat × Nat) (info : WarpgroupInfo) :
    (groups.put key info).infoOf other = if other = key then info else groups.infoOf other := by
  unfold infoOf put
  rcases eq_or_ne other key with rfl | hne
  · rw [Function.update_self, if_pos rfl]
    rfl
  · rw [Function.update_of_ne hne, if_neg hne]

/-- The groups in the middle of a cycle that started with `groups`: some operations are complete,
and the warpgroups whose count is down to their allowance are released. -/
structure Completing (groups : WgmmaGroups) (logs : Nat × Nat → CommitLog Nat)
    (s : List Nat × WgmmaGroups) : Prop where
  tracks : ∀ key, (s.2.infoOf key).Tracks (logs key)
  allowance : ∀ key, (s.2.infoOf key).waitAllowance = (groups.infoOf key).waitAllowance
  waiting : ∀ key, (s.2.infoOf key).isWaiting = ((groups.infoOf key).isWaiting &&
    decide ((groups.infoOf key).waitAllowance < unfinished (logs key).groups))
  warps : ∀ key, (s.2.infoOf key).isWaiting = true →
    (s.2.infoOf key).waitingWarps = (groups.infoOf key).waitingWarps
  released : ∀ w, w ∈ s.1 ↔ ∃ key, (groups.infoOf key).isWaiting = true ∧
    (s.2.infoOf key).isWaiting = false ∧ w ∈ (groups.infoOf key).waitingWarps
  nodup : s.1.Nodup

/-- The warps that wait, each for one warpgroup. -/
structure WaitsApart (groups : WgmmaGroups) : Prop where
  nodup : ∀ key, (groups.infoOf key).isWaiting = true → (groups.infoOf key).waitingWarps.Nodup
  apart : ∀ key key' w, (groups.infoOf key).isWaiting = true →
    (groups.infoOf key').isWaiting = true → w ∈ (groups.infoOf key).waitingWarps →
      w ∈ (groups.infoOf key').waitingWarps → key = key'

theorem complete_ok {s : List Nat × WgmmaGroups} {p : PendingCompletion} {info : WarpgroupInfo}
    (h : (s.2.infoOf p.key).removeOp p.opUid = .ok info) :
    ∃ groups', WgmmaUnit.complete s p = .ok (s.1 ++ info.releaseIfSatisfied.1, groups') ∧
      ∀ other, groups'.infoOf other =
        if other = p.key then info.releaseIfSatisfied.2 else s.2.infoOf other := by
  unfold WgmmaUnit.complete completeOp
  cases hrecord : s.2 p.key with
  | none =>
    have hfresh : s.2.infoOf p.key = {} := by
      unfold infoOf
      rw [hrecord]
      rfl
    rw [hfresh] at h
    cases h
    refine ⟨s.2, rfl, ?_⟩
    intro other
    split
    · rename_i hkey
      rw [hkey, hfresh]
      rfl
    · rfl
  | some record =>
    have hsome : s.2.infoOf p.key = record := by
      unfold infoOf
      rw [hrecord]
      rfl
    rw [hsome] at h
    refine ⟨s.2.put p.key info.releaseIfSatisfied.2, ?_, fun other => infoOf_put _ _ other _⟩
    unfold WarpgroupInfo.completeOp
    dsimp only
    rw [h]
    rfl

theorem releaseIfSatisfied_waiting (info : WarpgroupInfo) :
    info.releaseIfSatisfied.2.isWaiting =
      (info.isWaiting && decide (info.waitAllowance < info.pendingGroups.size)) := by
  unfold WarpgroupInfo.releaseIfSatisfied WarpgroupInfo.waitSatisfied
  split
  · rename_i hend
    rw [Bool.and_eq_true, decide_eq_true_eq] at hend
    rw [decide_eq_false (not_lt.mpr hend.2), Bool.and_false]
  · rename_i hend
    rw [Bool.and_eq_true, decide_eq_true_eq, not_and, not_le] at hend
    cases hwaiting : info.isWaiting with
    | false => rfl
    | true => exact (decide_eq_true (hend hwaiting)).symm

theorem mem_releaseIfSatisfied {info : WarpgroupInfo} {w : Nat} :
    w ∈ info.releaseIfSatisfied.1 ↔ info.isWaiting = true ∧
      info.releaseIfSatisfied.2.isWaiting = false ∧ w ∈ info.waitingWarps := by
  rw [releaseIfSatisfied_waiting]
  unfold WarpgroupInfo.releaseIfSatisfied WarpgroupInfo.waitSatisfied
  split
  · rename_i hend
    rw [Bool.and_eq_true, decide_eq_true_eq] at hend
    simp [hend.1, hend.2]
  · rename_i hend
    rw [Bool.and_eq_true, decide_eq_true_eq, not_and, not_le] at hend
    constructor
    · intro hw
      exact absurd hw List.not_mem_nil
    · rintro ⟨hwaiting, hdone, -⟩
      rw [hwaiting, decide_eq_true (hend hwaiting)] at hdone
      cases hdone

theorem releaseIfSatisfied_same (info : WarpgroupInfo) :
    info.releaseIfSatisfied.2.counted = info.counted ∧
      info.releaseIfSatisfied.2.waitAllowance = info.waitAllowance ∧
        (info.releaseIfSatisfied.2.isWaiting = true →
          info.releaseIfSatisfied.2.waitingWarps = info.waitingWarps) := by
  unfold WarpgroupInfo.releaseIfSatisfied
  split
  · exact ⟨rfl, rfl, nofun⟩
  · exact ⟨rfl, rfl, fun _ => rfl⟩

theorem Completing.step {logs : Nat × Nat → CommitLog Nat} {s : List Nat × WgmmaGroups}
    (h : Completing groups logs s) (hapart : WaitsApart groups) (p : PendingCompletion) :
    ∃ s', WgmmaUnit.complete s p = .ok s' ∧
      Completing groups (Function.update logs p.key ((logs p.key).finish p.opUid).2) s' := by
  obtain ⟨info, hremove, htracks, hwaiting, hallowance, hwarps⟩ := (h.tracks p.key).remove p.opUid
  obtain ⟨groups', hok, hinfo⟩ := complete_ok hremove
  obtain ⟨hcounted, hallow, hkept⟩ := releaseIfSatisfied_same info
  have hend := releaseIfSatisfied_waiting info
  rw [htracks.size] at hend
  have hle : unfinished ((logs p.key).finish p.opUid).2.groups ≤ unfinished (logs p.key).groups :=
    unfinished_groupsWithout_le _ _
  have hstill : info.releaseIfSatisfied.2.isWaiting = true → info.isWaiting = true := by
    intro hw
    rw [hend, Bool.and_eq_true] at hw
    exact hw.1
  refine ⟨_, hok, ?_, ?_, ?_, ?_, ?_, ?_⟩
  · intro key
    rw [hinfo]
    rcases eq_or_ne key p.key with rfl | hne
    · rw [if_pos rfl, Function.update_self]
      exact ⟨hcounted ▸ htracks.follows, htracks.sound, htracks.idle⟩
    · rw [if_neg hne, Function.update_of_ne hne]
      exact h.tracks key
  · intro key
    rw [hinfo]
    split
    · rename_i hkey
      rw [hallow, hallowance, ← hkey]
      exact h.allowance key
    · exact h.allowance key
  · intro key
    rw [hinfo]
    rcases eq_or_ne key p.key with rfl | hne
    · rw [if_pos rfl, Function.update_self, hend, hwaiting, h.waiting, hallowance, h.allowance,
        Bool.and_assoc]
      congr 1
      rw [← Bool.decide_and]
      apply decide_eq_decide.mpr
      constructor
      · exact fun hx => hx.2
      · exact fun hx => ⟨hx.trans_le hle, hx⟩
    · rw [if_neg hne, Function.update_of_ne hne]
      exact h.waiting key
  · intro key
    rw [hinfo]
    split
    · rename_i hkey
      intro hw
      rw [hkept hw, hwarps, hkey]
      apply h.warps
      rw [← hwaiting]
      exact hstill hw
    · exact h.warps key
  · intro w
    dsimp only
    rw [List.mem_append, h.released, mem_releaseIfSatisfied]
    constructor
    · rintro (⟨key, hstart, hdone, hw⟩ | ⟨hw, hdone, hin⟩)
      · refine ⟨key, hstart, ?_, hw⟩
        rw [hinfo]
        split
        · rename_i hkey
          rw [hend, hwaiting, ← hkey, hdone]
          rfl
        · exact hdone
      · rw [hwaiting] at hw
        have hstart := hw
        rw [h.waiting, Bool.and_eq_true] at hstart
        refine ⟨p.key, hstart.1, ?_, ?_⟩
        · rw [hinfo, if_pos rfl]
          exact hdone
        · rw [← h.warps p.key hw, ← hwarps]
          exact hin
    · rintro ⟨key, hstart, hdone, hw⟩
      rw [hinfo] at hdone
      split at hdone
      · rename_i hkey
        rw [hkey] at hstart hw
        cases hx : (s.2.infoOf p.key).isWaiting with
        | false => exact .inl ⟨p.key, hstart, hx, hw⟩
        | true =>
          refine .inr ⟨hwaiting.trans hx, hdone, ?_⟩
          rw [hwarps, h.warps p.key hx]
          exact hw
      · exact .inl ⟨key, hstart, hdone, hw⟩
  · dsimp only
    rw [List.nodup_append]
    refine ⟨h.nodup, ?_, ?_⟩
    · unfold WarpgroupInfo.releaseIfSatisfied
      split
      · rename_i hrelease
        rw [Bool.and_eq_true, hwaiting] at hrelease
        dsimp only
        rw [hwarps, h.warps p.key hrelease.1]
        have hstart := hrelease.1
        rw [h.waiting, Bool.and_eq_true] at hstart
        exact hapart.nodup p.key hstart.1
      · exact List.nodup_nil
    · intro w hw w' hw' heq
      obtain ⟨key, hstart, hdone, hin⟩ := (h.released w).mp hw
      obtain ⟨hx, -, hin'⟩ := mem_releaseIfSatisfied.mp hw'
      rw [hwaiting] at hx
      have hstart' := hx
      rw [h.waiting, Bool.and_eq_true] at hstart'
      rw [hwarps, h.warps p.key hx, ← heq] at hin'
      rw [hapart.apart key p.key w hstart hstart'.1 hin hin', hx] at hdone
      cases hdone

/-- The completions of a cycle, newest first. -/
theorem completing_all {logs : Nat × Nat → CommitLog Nat} {s : List Nat × WgmmaGroups}
    (h : Completing groups logs s) (hapart : WaitsApart groups) (ops : List PendingCompletion) :
    ∃ s', ops.foldlM WgmmaUnit.complete s = .ok s' ∧
      Completing groups (ops.foldl (fun logs p =>
        Function.update logs p.key ((logs p.key).finish p.opUid).2) logs) s' := by
  induction ops generalizing logs s with
  | nil => exact ⟨s, rfl, h⟩
  | cons p rest ih =>
    obtain ⟨s₁, hok, h₁⟩ := h.step hapart p
    obtain ⟨s₂, hrest, h₂⟩ := ih h₁
    refine ⟨s₂, ?_, h₂⟩
    rw [List.foldlM_cons, hok]
    exact hrest

end WgmmaGroups

/-! ### The barrier set -/

namespace BarrierSet

variable {u u' : BarrierSet} {w : Nat} {warps : List Nat}

theorem releaseWgmmaWarps_ok (hwait : ∀ w ∈ warps, u.Waiting w .wgmmaGroup) (hnodup : warps.Nodup) :
    ∃ u', u.releaseWgmmaWarps warps = .ok u' ∧
      ∀ w, w ∉ warps → u.Waiting w .wgmmaGroup → u'.Waiting w .wgmmaGroup := by
  unfold releaseWgmmaWarps
  induction warps generalizing u with
  | nil => exact ⟨u, rfl, fun _ _ h => h⟩
  | cons x rest ih =>
    obtain ⟨hnew, hnodup⟩ := List.nodup_cons.mp hnodup
    have hclear : u.clearWarpWaiting x .wgmmaGroup = .ok (u.dropWaiting x) := by
      unfold clearWarpWaiting
      rw [require_pass (decide_eq_true (hwait x List.mem_cons_self))]
      rfl
    have hdrop : ∀ w, w ≠ x → u.Waiting w .wgmmaGroup → (u.dropWaiting x).Waiting w .wgmmaGroup :=
      fun w hne hw => ⟨hw.1, Finset.mem_erase.mpr ⟨hne, hw.2.1⟩, hw.2.2⟩
    have hrest : ∀ w ∈ rest, (u.dropWaiting x).Waiting w .wgmmaGroup := by
      intro w hw
      apply hdrop w _ (hwait w (List.mem_cons_of_mem _ hw))
      rintro rfl
      exact hnew hw
    obtain ⟨u', hok, hkeep⟩ := ih hrest hnodup
    refine ⟨u', ?_, ?_⟩
    · rw [List.foldlM_cons, hclear]
      exact hok
    · intro w hw hwaits
      rw [List.mem_cons, not_or] at hw
      exact hkeep w hw.2 (hdrop w hw.1 hwaits)

theorem setWgmmaWaitingWarps_ok (hidle : ∀ w ∈ warps, w < u.config.maxWarpsPerCore ∧
    w ∉ u.warpAtBarrier) (hnodup : warps.Nodup) :
    ∃ u', u.setWgmmaWaitingWarps warps = .ok u' ∧ u'.config = u.config ∧
      (∀ w ∈ warps, u'.Waiting w .wgmmaGroup) ∧
        ∀ w, u.Waiting w .wgmmaGroup → u'.Waiting w .wgmmaGroup := by
  unfold setWgmmaWaitingWarps
  induction warps generalizing u with
  | nil => exact ⟨u, rfl, rfl, nofun, fun _ h => h⟩
  | cons x rest ih =>
    obtain ⟨hnew, hnodup⟩ := List.nodup_cons.mp hnodup
    obtain ⟨hlt, hnot⟩ := hidle x List.mem_cons_self
    have henter : u.enterWait x .wgmmaGroup = .ok (u.setWaiting x .wgmmaGroup none) := by
      unfold enterWait
      rw [require_pass (decide_eq_true hnot)]
      rfl
    have hkept : ∀ w, u.Waiting w .wgmmaGroup →
        (u.setWaiting x .wgmmaGroup none).Waiting w .wgmmaGroup := by
      intro w hw
      have hne : w ≠ x := fun heq => hnot (heq ▸ hw.2.1)
      exact ⟨hw.1, Finset.mem_insert_of_mem hw.2.1, (Function.update_of_ne hne _ _).trans hw.2.2⟩
    have hrest : ∀ w ∈ rest, w < u.config.maxWarpsPerCore ∧
        w ∉ (u.setWaiting x .wgmmaGroup none).warpAtBarrier := by
      intro w hw
      obtain ⟨hlt, hnot⟩ := hidle w (List.mem_cons_of_mem _ hw)
      refine ⟨hlt, ?_⟩
      intro hin
      rcases Finset.mem_insert.mp hin with rfl | hin
      · exact hnew hw
      · exact hnot hin
    obtain ⟨u', hok, hconfig, hset, hkeep⟩ :=
      ih (u := u.setWaiting x .wgmmaGroup none) hrest hnodup
    refine ⟨u', ?_, hconfig, ?_, fun w hw => hkeep w (hkept w hw)⟩
    · rw [List.foldlM_cons, henter]
      exact hok
    · intro w hw
      rcases List.mem_cons.mp hw with rfl | hw
      · apply hkeep
        exact ⟨hlt, Finset.mem_insert_self _ _, Function.update_self _ _ _⟩
      · exact hset w hw

end BarrierSet

end FlashGpuSim
