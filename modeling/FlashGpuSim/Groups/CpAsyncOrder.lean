import FlashGpuSim.Groups.CpAsync

/-!
When the count of incomplete `cp.async` groups tells whether the older ones are complete.
-/

namespace FlashGpuSim

open Lib

namespace CpAsyncGroupInfo

variable {info : CpAsyncGroupInfo} {log : CommitLog Nat} {t n : Nat}

/-- The identifier of the group at a place of the log. -/
def groupIdAt (i : Nat) : Nat := (i + 1) % 2 ^ 32

/-- The record of the transactions that were added since the last commit, and of the
groups. -/
structure Follows (info : CpAsyncGroupInfo) (opened : Finset Nat) (groups : List (Finset Nat)) :
    Prop where
  next : info.nextGroupId = groupIdAt groups.length
  pending : info.pendingTxs = opened
  tx_group : ∀ (i : Nat) (s : Finset Nat) (t : Nat), groups[i]? = some s → t ∈ s →
    info.txToGroup t = some (groupIdAt i)
  group_tx : ∀ t g, info.txToGroup t = some g →
    ∃ i s, g = groupIdAt i ∧ groups[i]? = some s ∧ t ∈ s
  lookup : ∀ (i : Nat) (s : Finset Nat), groups[i]? = some s → s ≠ ∅ →
    info.pendingGroups.lookup (groupIdAt i) = some s
  size : info.pendingGroups.size = unfinished groups

/-- The groups of a warp, and its log. -/
structure Tracks (info : CpAsyncGroupInfo) (log : CommitLog Nat) : Prop
    extends Follows info log.opened log.groups where
  sound : log.Sound
  waiting : log.waiting.isSome = info.isWaiting
  allowance : ∀ n ∈ log.waiting, unfinished (log.groups.drop n) = info.waitAllowance

/-- A commit takes an identifier that no pending group has, and the warp does not wait
while it commits transactions. -/
def CommitOk (info : CpAsyncGroupInfo) (log : CommitLog Nat) : Prop :=
  info.pendingTxs ≠ ∅ →
    info.pendingGroups.lookup info.nextGroupId = none ∧ log.waiting = none

/-- At a wait, no recent group is complete before an older one. -/
def WaitOk (log : CommitLog Nat) (n : Nat) : Prop :=
  DoneExcept log.groups n ∨ ∀ s ∈ log.groups.drop (log.groups.length - n), s ≠ ∅

/-- While the warp waits, none of the more recent groups becomes complete. -/
def FinishOk (log : CommitLog Nat) (t : Nat) : Prop :=
  ∀ n ∈ log.waiting, {t} ∉ log.groups.drop n

theorem tracks_fresh : Tracks {} {} where
  sound := CommitLog.sound_empty
  next := rfl
  pending := rfl
  tx_group := by simp
  group_tx := nofun
  lookup := by simp
  size := rfl
  waiting := rfl
  allowance := nofun

theorem Tracks.add (h : info.Tracks log) (ht : t ∉ log.known) :
    (info.addTx t).Tracks (log.add t) where
  sound := h.sound.add ht
  next := h.next
  pending := congrArg (insert t) h.pending
  tx_group := h.tx_group
  group_tx := h.group_tx
  lookup := h.lookup
  size := h.size
  waiting := h.waiting
  allowance := h.allowance

theorem inc32_groupIdAt (i : Nat) : inc32 (groupIdAt i) = groupIdAt (i + 1) := by
  unfold inc32 groupIdAt
  omega

/-- A commit of transactions. -/
theorem Follows.commit_nonempty (h : info.Follows log.opened log.groups) (hs : log.Sound)
    (hopened : info.pendingTxs ≠ ∅)
    (hfresh : info.pendingGroups.lookup info.nextGroupId = none) :
    Follows { info with
      txToGroup := fun txUid =>
        if txUid ∈ info.pendingTxs then some info.nextGroupId else info.txToGroup txUid
      pendingGroups := info.pendingGroups.insert info.nextGroupId info.pendingTxs
      pendingTxs := ∅
      nextGroupId := inc32 info.nextGroupId } log.commit.opened log.commit.groups where
  next := by
    simp only [CommitLog.commit, List.length_append, List.length_singleton, h.next,
      inc32_groupIdAt]
  pending := rfl
  tx_group i s t hsome ht := by
    obtain hold | ⟨rfl, rfl⟩ := CommitLog.getElem?_commit hsome
    · have hnot : t ∉ info.pendingTxs := by
        rw [h.pending]
        exact hs.opened_apart i s t hold ht
      exact (if_neg hnot).trans (h.tx_group i s t hold ht)
    · rw [← h.pending] at ht
      exact (if_pos ht).trans (congrArg some h.next)
  group_tx t g htg := by
    simp only at htg
    split at htg
    · rename_i ht
      refine ⟨log.groups.length, log.opened, ?_, by simp [CommitLog.commit], h.pending ▸ ht⟩
      rw [← h.next]
      exact (Option.some.inj htg).symm
    · obtain ⟨i, s, hg, hsome, ht⟩ := h.group_tx t g htg
      refine ⟨i, s, hg, ?_, ht⟩
      simp only [CommitLog.commit]
      rw [List.getElem?_append_left (List.getElem?_eq_some_iff.mp hsome).1]
      exact hsome
  lookup i s hsome hne := by
    simp only [Table.lookup_insert]
    obtain hold | ⟨rfl, rfl⟩ := CommitLog.getElem?_commit hsome
    · have hlookup := h.lookup i s hold hne
      have hid : groupIdAt i ≠ info.nextGroupId := by
        intro heq
        rw [heq, hfresh] at hlookup
        cases hlookup
      rw [if_neg hid]
      exact hlookup
    · rw [if_pos h.next.symm, h.pending]
  size := by
    rw [Table.size_insert_new hfresh, h.size]
    simp only [CommitLog.commit]
    rw [unfinished_append, if_neg (h.pending ▸ hopened)]

/-- A commit without transactions. -/
theorem Follows.commit_empty (h : info.Follows log.opened log.groups)
    (hopened : info.pendingTxs = ∅) :
    Follows { info with nextGroupId := inc32 info.nextGroupId } log.commit.opened
      log.commit.groups where
  next := by
    simp only [CommitLog.commit, List.length_append, List.length_singleton, h.next,
      inc32_groupIdAt]
  pending := hopened
  tx_group i s t hsome ht := by
    obtain hold | ⟨rfl, rfl⟩ := CommitLog.getElem?_commit hsome
    · exact h.tx_group i s t hold ht
    · rw [← h.pending, hopened] at ht
      cases ht
  group_tx t g htg := by
    obtain ⟨i, s, hg, hsome, ht⟩ := h.group_tx t g htg
    refine ⟨i, s, hg, ?_, ht⟩
    simp only [CommitLog.commit]
    rw [List.getElem?_append_left (List.getElem?_eq_some_iff.mp hsome).1]
    exact hsome
  lookup i s hsome hne := by
    obtain hold | ⟨rfl, rfl⟩ := CommitLog.getElem?_commit hsome
    · exact h.lookup i s hold hne
    · exact absurd (h.pending.symm.trans hopened) hne
  size := by
    rw [h.size]
    simp only [CommitLog.commit]
    rw [unfinished_append, if_pos (h.pending.symm.trans hopened)]
    rfl

theorem Tracks.commit_nonempty (h : info.Tracks log) (hopened : info.pendingTxs ≠ ∅)
    (hfresh : info.pendingGroups.lookup info.nextGroupId = none) (hidle : log.waiting = none) :
    Tracks { info with
      txToGroup := fun txUid =>
        if txUid ∈ info.pendingTxs then some info.nextGroupId else info.txToGroup txUid
      pendingGroups := info.pendingGroups.insert info.nextGroupId info.pendingTxs
      pendingTxs := ∅
      nextGroupId := inc32 info.nextGroupId } log.commit where
  toFollows := h.toFollows.commit_nonempty h.sound hopened hfresh
  sound := h.sound.commit
  waiting := h.waiting
  allowance n hn := by
    have hsome : some n = none := (Option.mem_def.mp hn).symm.trans hidle
    cases hsome

theorem Tracks.commit_empty (h : info.Tracks log) (hopened : info.pendingTxs = ∅) :
    Tracks { info with nextGroupId := inc32 info.nextGroupId } log.commit where
  toFollows := h.toFollows.commit_empty hopened
  sound := h.sound.commit
  waiting := h.waiting
  allowance n hn := by
    simp only [CommitLog.commit]
    rw [List.drop_append_of_le_length (h.sound.waiting_le n hn), unfinished_append,
      if_pos (h.pending.symm.trans hopened)]
    exact h.allowance n hn

theorem Tracks.commit (h : info.Tracks log) (hok : info.CommitOk log) :
    info.commitGroup.Tracks log.commit := by
  unfold commitGroup
  by_cases hopened : info.pendingTxs = ∅
  · rw [if_neg (not_not.mpr hopened)]
    exact h.commit_empty hopened
  · obtain ⟨hfresh, hidle⟩ := hok hopened
    rw [if_pos hopened, if_pos hfresh]
    exact h.commit_nonempty hopened hfresh hidle

/-- The count of groups that are not complete, where no recent one is complete before an
older one. -/
theorem WaitOk.count (h : WaitOk log n) :
    unfinished log.groups ≤ n ↔ DoneExcept log.groups n := by
  have hsplit := unfinished_split log.groups (log.groups.length - n)
  have hle := unfinished_le_length (log.groups.drop (log.groups.length - n))
  rw [List.length_drop] at hle
  constructor
  · intro hcount
    rcases h with hdone | hfull
    · exact hdone
    · have hrecent := unfinished_eq_length hfull
      rw [List.length_drop] at hrecent
      have hall := unfinished_le_length log.groups
      apply doneUpTo_iff.mpr
      omega
  · exact DoneExcept.unfinished_le

theorem Tracks.wait (h : info.Tracks log) (hidle : info.isWaiting = false) (hok : WaitOk log n) :
    ∃ info', info.waitGroup n = .ok ((log.wait n).1, info') ∧ info'.Tracks (log.wait n).2 := by
  have hsound := h.sound.wait n
  unfold waitGroup
  unfold CommitLog.wait at hsound ⊢
  rw [h.size, hidle]
  by_cases hdone : DoneExcept log.groups n
  · rw [if_pos hdone, if_pos (hok.count.mpr hdone)]
    exact ⟨info, rfl, h⟩
  · rw [if_neg hdone] at hsound ⊢
    rw [if_neg (fun hle => hdone (hok.count.mp hle))]
    refine ⟨_, rfl, ⟨h.next, h.pending, h.tx_group, h.group_tx, h.lookup, h.size⟩, hsound,
      rfl, ?_⟩
    rintro _ ⟨⟩
    change unfinished (log.groups.drop (log.groups.length - n)) = n
    have hfull := unfinished_eq_length (hok.resolve_left hdone)
    rw [List.length_drop] at hfull
    have hlt : n < log.groups.length := by
      by_contra hle
      apply hdone
      intro i s hi
      omega
    omega

/-- Two groups with unfinished transactions have different identifiers. -/
theorem Follows.groupIdAt_ne (h : info.Follows log.opened log.groups) (hsound : log.Sound)
    {i j : Nat} {s r : Finset Nat} (hs : log.groups[i]? = some s) (ht : t ∈ s)
    (hr : log.groups[j]? = some r) (hne : r ≠ ∅) (hij : i ≠ j) :
    groupIdAt j ≠ groupIdAt i := by
  intro hid
  have hlookup := h.lookup j r hr hne
  rw [hid, h.lookup i s hs (Finset.ne_empty_of_mem ht)] at hlookup
  cases hlookup
  exact hij (hsound.groups_apart i j s s t hs hr ht ht)

/-- The transaction of a group leaves it, and the last one takes the group with it. -/
theorem Follows.remove_of_mem (h : info.Follows log.opened log.groups) (hsound : log.Sound)
    {i : Nat} {s : Finset Nat} (hs : log.groups[i]? = some s) (ht : t ∈ s) :
    Follows { info with
      txToGroup := Function.update info.txToGroup t none
      pendingGroups :=
        if s.erase t = ∅ then info.pendingGroups.erase (groupIdAt i)
        else info.pendingGroups.insert (groupIdAt i) (s.erase t) }
      (log.opened.erase t) (log.groupsWithout t) := by
  have hwithout := hsound.groupsWithout_of_mem hs ht
  have hlookup := h.lookup i s hs (Finset.ne_empty_of_mem ht)
  have hset := unfinished_set hs (s.erase t)
  rw [if_neg (Finset.ne_empty_of_mem ht)] at hset
  refine ⟨?_, ?_, ?_, ?_, ?_, ?_⟩
  · rw [CommitLog.length_groupsWithout]
    exact h.next
  · rw [hsound.opened_of_mem hs ht]
    exact h.pending
  · intro j r u hr hu
    rw [CommitLog.getElem?_groupsWithout, Option.map_eq_some_iff] at hr
    obtain ⟨r, hr, rfl⟩ := hr
    obtain ⟨hne, hu⟩ := Finset.mem_erase.mp hu
    exact (Function.update_of_ne hne _ _).trans (h.tx_group j r u hr hu)
  · intro u g hu
    change Function.update info.txToGroup t none u = some g at hu
    have hne : u ≠ t := by
      rintro rfl
      rw [Function.update_self] at hu
      cases hu
    rw [Function.update_of_ne hne] at hu
    obtain ⟨j, r, hg, hr, hur⟩ := h.group_tx u g hu
    refine ⟨j, r.erase t, hg, ?_, Finset.mem_erase.mpr ⟨hne, hur⟩⟩
    rw [CommitLog.getElem?_groupsWithout, hr]
    rfl
  · intro j r hr hne
    rw [hwithout, List.getElem?_set] at hr
    split at hr
    · rename_i hij
      subst hij
      rw [if_pos (List.getElem?_eq_some_iff.mp hs).1] at hr
      cases hr
      rw [if_neg hne, Table.lookup_insert, if_pos rfl]
    · rename_i hij
      have hid := h.groupIdAt_ne hsound hs ht hr hne hij
      have hold := h.lookup j r hr hne
      split
      · rw [Table.lookup_erase, if_neg hid]
        exact hold
      · rw [Table.lookup_insert, if_neg hid]
        exact hold
  · rw [hwithout]
    by_cases hlast : s.erase t = ∅
    · rw [if_pos hlast] at hset ⊢
      have hsize := Table.size_erase_present hlookup
      rw [h.size] at hsize
      change Table.size (info.pendingGroups.erase (groupIdAt i)) = _
      omega
    · rw [if_neg hlast] at hset ⊢
      rw [Table.size_insert_present hlookup, h.size]
      omega

/-- A transaction that no group has. -/
theorem Follows.remove_of_notMem (h : info.Follows log.opened log.groups)
    (htx : info.txToGroup t = none) :
    Follows { info with pendingTxs := info.pendingTxs.erase t } (log.opened.erase t)
      (log.groupsWithout t) := by
  have hwithout : log.groupsWithout t = log.groups := by
    apply CommitLog.groupsWithout_of_notMem
    intro i s hs ht
    rw [h.tx_group i s t hs ht] at htx
    cases htx
  rw [hwithout]
  exact ⟨h.next, congrArg (fun s => s.erase t) h.pending, h.tx_group, h.group_tx, h.lookup,
    h.size⟩

theorem Follows.remove (h : info.Follows log.opened log.groups) (hsound : log.Sound) (t : Nat) :
    ∃ info', info.removeTx t = .ok info' ∧
      Follows info' (log.opened.erase t) (log.groupsWithout t) ∧
      info'.isWaiting = info.isWaiting ∧ info'.waitAllowance = info.waitAllowance := by
  unfold removeTx
  cases htx : info.txToGroup t with
  | none => exact ⟨_, rfl, h.remove_of_notMem htx, rfl, rfl⟩
  | some g =>
    obtain ⟨i, s, rfl, hs, ht⟩ := h.group_tx t g htx
    simp only [h.lookup i s hs (Finset.ne_empty_of_mem ht)]
    exact ⟨_, rfl, h.remove_of_mem hsound hs ht, rfl, rfl⟩

/-- The more recent groups keep their number while the warp waits. -/
theorem Tracks.allowance_finish (h : info.Tracks log) (hok : FinishOk log t) :
    ∀ n ∈ log.waiting, unfinished ((log.groupsWithout t).drop n) = info.waitAllowance := by
  intro n hn
  rw [← h.allowance n hn]
  unfold CommitLog.groupsWithout unfinished
  rw [← List.map_drop, List.countP_map]
  apply List.countP_congr
  intro s hs
  have hne : s ≠ {t} := by
    rintro rfl
    exact hok n hn hs
  simp only [Function.comp_apply, decide_eq_true_eq, ne_eq, Finset.erase_eq_empty_iff,
    or_iff_left hne]

theorem Tracks.finish (h : info.Tracks log) (hok : FinishOk log t) :
    ∃ info', info.completeTx t = .ok ((log.finish t).1, info') ∧
      info'.Tracks (log.finish t).2 := by
  obtain ⟨info₁, hremove, hfollows, hwaiting, hallowance⟩ := h.toFollows.remove h.sound t
  have hrecent := h.allowance_finish hok
  have hsound := h.sound.finish t
  have hreleased : log.released t =
      decide (info₁.isWaiting ∧ info₁.pendingGroups.size ≤ info₁.waitAllowance) := by
    rw [hfollows.size, hwaiting, hallowance, ← h.waiting]
    unfold CommitLog.released
    cases hlog : log.waiting with
    | none => rfl
    | some n =>
      apply decide_eq_decide.mpr
      have hsplit := unfinished_split (log.groupsWithout t) n
      rw [hrecent n hlog] at hsplit
      rw [doneUpTo_iff]
      constructor
      · intro hzero
        exact ⟨rfl, by omega⟩
      · rintro ⟨-, hle⟩
        omega
  unfold completeTx CpAsyncGroupInfo.checkWait CommitLog.finish at *
  rw [hremove]
  by_cases hend : info₁.isWaiting ∧ info₁.pendingGroups.size ≤ info₁.waitAllowance
  · rw [decide_eq_true hend] at hreleased
    rw [hreleased] at hsound ⊢
    refine ⟨{ info₁ with isWaiting := false }, ?_, ?_⟩
    · change Except.ok (if info₁.isWaiting ∧ info₁.pendingGroups.size ≤ info₁.waitAllowance then
        _ else _) = _
      rw [if_pos hend]
    · exact ⟨⟨hfollows.next, hfollows.pending, hfollows.tx_group, hfollows.group_tx,
        hfollows.lookup, hfollows.size⟩, hsound, rfl, nofun⟩
  · rw [decide_eq_false hend] at hreleased
    rw [hreleased] at hsound ⊢
    refine ⟨info₁, ?_, ?_⟩
    · change Except.ok (if info₁.isWaiting ∧ info₁.pendingGroups.size ≤ info₁.waitAllowance then
        _ else _) = _
      rw [if_neg hend]
    · exact ⟨hfollows, hsound, h.waiting.trans hwaiting.symm,
        fun n hn => (hrecent n hn).trans hallowance.symm⟩

end CpAsyncGroupInfo

/-- A call for one warp: whether the warp goes on, at a wait or at a completion. -/
def CpAsyncUnit.call (u : CpAsyncUnit) (key : Nat × Nat) :
    GroupOp Nat → Except CpAsyncFailure (Bool × CpAsyncUnit)
  | .add txUid => .ok (false, u.warpReachesCpAsync key txUid)
  | .commit => .ok (false, u.commitCpAsyncGroup key)
  | .wait maxPendingGroups => u.waitCpAsyncGroup key maxPendingGroups
  | .finish txUid => u.finalizeCpAsyncTransaction txUid

/-- The unit, and the log of what each warp asked for. -/
structure CpAsyncRun where
  unit : CpAsyncUnit := {}
  logs : Nat × Nat → CommitLog Nat := fun _ => {}

inductive CpAsyncOp
  | warp (key : Nat × Nat) (op : GroupOp Nat)
  | cleanupCta (ctaId : Nat)

namespace CpAsyncRun

def step (r : CpAsyncRun) : CpAsyncOp → Except CpAsyncFailure CpAsyncRun
  | .warp key op => do
    let (_, unit) ← r.unit.call key op
    return { unit := unit, logs := Function.update r.logs key ((r.logs key).call op).2 }
  | .cleanupCta ctaId => .ok
      { unit := r.unit.cleanupCta ctaId
        logs := fun key => if key.1 = ctaId then {} else r.logs key }

/-- A new transaction has a new identifier, and a live one of the warp completes. -/
def Valid (r : CpAsyncRun) : CpAsyncOp → Prop
  | .warp key (.add txUid) => txUid ∉ (r.logs key).known
  | .warp key (.finish txUid) => r.unit.transactions txUid = some key
  | _ => True

/-- The groups complete such that their count tells which of them have. -/
def InStep (r : CpAsyncRun) : CpAsyncOp → Prop
  | .warp key .commit => (r.unit.infoOf key).CommitOk (r.logs key)
  | .warp key (.wait n) => CpAsyncGroupInfo.WaitOk (r.logs key) n
  | .warp key (.finish txUid) => CpAsyncGroupInfo.FinishOk (r.logs key) txUid
  | _ => True

/-- A call gives the answer of the log: a wait is over at once if all but the most recent
groups are complete, and the completion that makes the groups complete that a warp waits
for is the one that releases it. -/
def Answers (r : CpAsyncRun) (key : Nat × Nat) (op : GroupOp Nat) : Prop :=
  (∀ n, op = .wait n → (r.unit.infoOf key).isWaiting = false) →
    (∀ t, op = .finish t → r.unit.groupInfo key ≠ none) →
      ∃ unit, r.unit.call key op = .ok (((r.logs key).call op).1, unit)

/-- A warp waits as long as some group that it waits for is not complete. -/
def Waits (r : CpAsyncRun) : Prop :=
  ∀ key, (r.logs key).waiting.isSome = (r.unit.infoOf key).isWaiting ∧
    ∀ n ∈ (r.logs key).waiting, ¬ DoneUpTo (r.logs key).groups n

def Tracked (r : CpAsyncRun) : Prop := ∀ key, (r.unit.infoOf key).Tracks (r.logs key)

variable {r : CpAsyncRun} {key : Nat × Nat} {op : GroupOp Nat}

theorem infoOf_put (u : CpAsyncUnit) (key other : Nat × Nat) (info : CpAsyncGroupInfo) :
    (u.put key info).infoOf other = if other = key then info else u.infoOf other := by
  unfold CpAsyncUnit.infoOf CpAsyncUnit.put
  by_cases hkey : other = key
  · simp only [hkey, Function.update_self, if_true, Option.getD_some]
  · simp only [Function.update_of_ne hkey, if_neg hkey]

theorem infoOf_of_some {u : CpAsyncUnit} {info : CpAsyncGroupInfo}
    (h : u.groupInfo key = some info) : u.infoOf key = info := by
  unfold CpAsyncUnit.infoOf
  rw [h]
  rfl

/-- A call succeeds with the answer of the log, and the record follows the log. -/
theorem Tracked.call (h : r.Tracked) (hvalid : r.Valid (.warp key op))
    (hin : r.InStep (.warp key op))
    (hwait : ∀ n, op = .wait n → (r.unit.infoOf key).isWaiting = false)
    (hfinish : ∀ t, op = .finish t → r.unit.groupInfo key ≠ none) :
    ∃ unit info, r.unit.call key op = .ok (((r.logs key).call op).1, unit) ∧
      info.Tracks ((r.logs key).call op).2 ∧
      ∀ other, unit.infoOf other = if other = key then info else r.unit.infoOf other := by
  have htracks := h key
  cases op with
  | add t => exact ⟨_, _, rfl, htracks.add hvalid, fun other => infoOf_put _ _ other _⟩
  | commit => exact ⟨_, _, rfl, htracks.commit hin, fun other => infoOf_put _ _ other _⟩
  | wait n =>
    have hidle := hwait n rfl
    obtain ⟨info, hinfo, htracks'⟩ := htracks.wait hidle hin
    simp only [CpAsyncUnit.call, CpAsyncUnit.waitCpAsyncGroup, hidle]
    cases hrecord : r.unit.groupInfo key with
    | none =>
      have hfresh : r.unit.infoOf key = {} := by
        unfold CpAsyncUnit.infoOf
        rw [hrecord]
        rfl
      rw [hfresh] at hinfo
      obtain ⟨hanswer, rfl⟩ := Prod.mk.inj (Except.ok.inj hinfo)
      refine ⟨r.unit, {}, ?_, htracks', fun other => ?_⟩
      · simp only [CommitLog.call, ← hanswer]
        rfl
      · split
        · rename_i hkey
          rw [hkey, hfresh]
        · rfl
    | some record =>
      rw [infoOf_of_some hrecord] at hinfo
      refine ⟨_, info, ?_, htracks', fun other => infoOf_put r.unit key other info⟩
      simp only [hinfo, CommitLog.call]
      rfl
  | finish t =>
    obtain ⟨record, hrecord⟩ := Option.ne_none_iff_exists'.mp (hfinish t rfl)
    obtain ⟨info, hinfo, htracks'⟩ := htracks.finish hin
    rw [infoOf_of_some hrecord] at hinfo
    have hlive : r.unit.transactions t = some key := hvalid
    refine ⟨{ r.unit.put key info with
        transactions := Function.update r.unit.transactions t none }, info, ?_, htracks',
      fun other => infoOf_put r.unit key other info⟩
    simp only [CpAsyncUnit.call, CpAsyncUnit.finalizeCpAsyncTransaction, hlive, hrecord, hinfo,
      CommitLog.call]
    rfl

/-- A call that succeeds found the warp as its assertions ask for. -/
theorem call_asserts {unit : CpAsyncUnit} {result : Bool} (hvalid : r.Valid (.warp key op))
    (h : r.unit.call key op = .ok (result, unit)) :
    (∀ n, op = .wait n → (r.unit.infoOf key).isWaiting = false) ∧
      ∀ t, op = .finish t → r.unit.groupInfo key ≠ none := by
  constructor
  · rintro n rfl
    obtain ⟨_, hrequire, -⟩ := bind_eq_ok h
    cases hwaiting : (r.unit.infoOf key).isWaiting with
    | false => rfl
    | true =>
      rw [hwaiting] at hrequire
      cases hrequire
  · rintro t rfl hrecord
    have hlive : r.unit.transactions t = some key := hvalid
    simp only [CpAsyncUnit.call, CpAsyncUnit.finalizeCpAsyncTransaction, hlive, hrecord] at h
    cases h

theorem tracked_init : Tracked {} := fun _ => CpAsyncGroupInfo.tracks_fresh

theorem Tracked.step (h : r.Tracked) {r' : CpAsyncRun} {op : CpAsyncOp} (hvalid : r.Valid op)
    (hin : r.InStep op) (hstep : r.step op = .ok r') : r'.Tracked := by
  cases op with
  | warp key op =>
    obtain ⟨⟨result, unit⟩, hcall, heq⟩ := bind_eq_ok hstep
    cases heq
    obtain ⟨hwait, hfinish⟩ := call_asserts hvalid hcall
    obtain ⟨unit₁, info, hcall₁, htracks, hinfo⟩ := h.call hvalid hin hwait hfinish
    rw [hcall] at hcall₁
    cases hcall₁
    intro other
    simp only [hinfo other]
    by_cases hkey : other = key
    · simp only [hkey, if_true, Function.update_self]
      exact htracks
    · simp only [if_neg hkey, Function.update_of_ne hkey]
      exact h other
  | cleanupCta ctaId =>
    cases hstep
    intro other
    simp only [CpAsyncUnit.infoOf, CpAsyncUnit.cleanupCta]
    split
    · exact CpAsyncGroupInfo.tracks_fresh
    · exact h other

/-- In a run in which no recent group is complete before the groups that a warp waits for,
each wait ends when these are complete, at the wait itself or at the completion that makes
them so. -/
theorem cp_async_waits_follow_groups
    (h : Reaches step (fun r op => r.Valid op ∧ r.InStep op) {} r) :
    r.Waits ∧ ∀ key op, r.Valid (.warp key op) → r.InStep (.warp key op) →
      r.Answers key op := by
  have htracked : r.Tracked := by
    apply h.invariant Tracked tracked_init
    rintro r r' op htracked ⟨hvalid, hin⟩ hstep
    exact htracked.step hvalid hin hstep
  refine ⟨fun key => ⟨(htracked key).waiting, (htracked key).sound.waiting_open⟩,
    fun key op hvalid hin hwait hfinish => ?_⟩
  obtain ⟨unit, info, hcall, -⟩ := htracked.call hvalid hin hwait hfinish
  exact ⟨unit, hcall⟩

instance (r : CpAsyncRun) (op : CpAsyncOp) : Decidable (r.Valid op) := by
  unfold Valid
  split <;> infer_instance

instance (r : CpAsyncRun) (op : CpAsyncOp) : Decidable (r.InStep op) := by
  unfold InStep
  split
  · exact inferInstanceAs (Decidable (_ → _))
  · exact inferInstanceAs (Decidable (_ ∨ _))
  · exact inferInstanceAs (Decidable (∀ n ∈ _, _))
  · infer_instance

/-- A warp waits for the older of two groups, and the older one completes first. -/
theorem cp_async_waits_follow_groups_witness :
    ∃ r : CpAsyncRun, (r.unit.infoOf (0, 0)).isWaiting = true ∧ r.Waits ∧
      r.Answers (0, 0) (.finish 1) := by
  have hrun : ((runAllowed step (fun r op => r.Valid op ∧ r.InStep op) {}
      [.warp (0, 0) (.add 1), .warp (0, 0) .commit, .warp (0, 0) (.add 2), .warp (0, 0) .commit,
        .warp (0, 0) (.wait 1)]).any
      fun r => decide ((r.unit.infoOf (0, 0)).isWaiting = true ∧
        r.Valid (.warp (0, 0) (.finish 1)) ∧ r.InStep (.warp (0, 0) (.finish 1)))) = true := by
    decide
  obtain ⟨r, hr, htest⟩ := (Option.any_eq_true _ _).mp hrun
  obtain ⟨hwaiting, hvalid, hin⟩ := of_decide_eq_true htest
  have hmain := cp_async_waits_follow_groups (Reaches.of_runAllowed .refl hr)
  exact ⟨r, hwaiting, hmain.1, hmain.2 (0, 0) (.finish 1) hvalid hin⟩

/-- The newer of two groups completes, and a wait for the older one is over at once. -/
theorem cp_async_waits_follow_groups_counterexample :
    ¬ ∀ r : CpAsyncRun, Reaches step Valid {} r → ∀ key op, r.Valid (.warp key op) →
      r.Answers key op := by
  intro hclaim
  have hrun : ((runAllowed step Valid {}
      [.warp (0, 0) (.add 1), .warp (0, 0) .commit, .warp (0, 0) (.add 2), .warp (0, 0) .commit,
        .warp (0, 0) (.finish 2)]).any
      fun r => decide ((r.unit.infoOf (0, 0)).isWaiting = false ∧
        (match r.unit.call (0, 0) (.wait 1) with
          | .ok (released, _) => released
          | .error _ => false) = true ∧ ((r.logs (0, 0)).wait 1).1 = false)) = true := by
    decide
  obtain ⟨r, hr, htest⟩ := (Option.any_eq_true _ _).mp hrun
  obtain ⟨hidle, hreleased, hlog⟩ := of_decide_eq_true htest
  obtain ⟨unit, hcall⟩ := hclaim r (Reaches.of_runAllowed .refl hr) (0, 0) (.wait 1) trivial
    (fun _ _ => hidle) nofun
  rw [hcall] at hreleased
  change ((r.logs (0, 0)).wait 1).1 = true at hreleased
  rw [hlog] at hreleased
  cases hreleased

end CpAsyncRun

end FlashGpuSim
