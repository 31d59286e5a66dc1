import FlashGpuSim.Groups.WgmmaOrder

/-!
The waits of the warpgroups over whole runs, beside the groups that they committed.
-/

namespace FlashGpuSim

open Lib

/-- The unit, and what the warpgroups asked for. -/
structure WgmmaRun where
  unit : WgmmaUnit
  asked : WgmmaAsked := {}

namespace WgmmaRun

variable {r r' : WgmmaRun} {key : Nat × Nat} {opUid n : Nat}

def step (r : WgmmaRun) (op : WgmmaOp) : Except WgmmaFailure WgmmaRun := do
  let (_, unit) ← r.unit.call op
  return { unit := unit, asked := r.asked.next r.unit op }

/-- The identifier of an operation is new, and a warpgroup that waits is not at a barrier. -/
def Valid (r : WgmmaRun) : WgmmaOp → Prop
  | .addOp key opUid _ _ _ => opUid ∉ (r.asked.logs key).known
  | .waitGroup key _ warpIds => (r.unit.groups.infoOf key).isWaiting = false ∧ warpIds.Nodup ∧
      ∀ w ∈ warpIds, w < r.unit.barriers.config.maxWarpsPerCore ∧
        w ∉ r.unit.barriers.warpAtBarrier
  | _ => True

/-- At a wait, and after a cycle in which a warpgroup waits, no recent group is complete before
an older one. The identifiers of the groups and the cycles do not wrap. -/
def InStep (r : WgmmaRun) : WgmmaOp → Prop
  | .addOp _ _ computeLatency _ _ => r.unit.computeTail + max 1 computeLatency < 2 ^ 32
  | .commitGroup key => (r.unit.groups.infoOf key).pendingOps ≠ ∅ →
      (r.unit.groups.infoOf key).pendingGroups.lookup (r.unit.groups.infoOf key).nextGroupId = none
  | .waitGroup key n _ => CpAsyncGroupInfo.WaitOk (r.asked.logs key) n
  | .cycle => ∀ p ∈ r.unit.completing, ∀ wait ∈ r.asked.waits p.key,
      CpAsyncGroupInfo.WaitOk (r.asked.finish r.unit.completing p.key) wait.1
  | _ => True

/-- An operation is incomplete as long as the unit has it, a warpgroup waits as long as some group
but for the most recent ones is incomplete, and the operations compute one after the other. -/
structure Sound (r : WgmmaRun) : Prop where
  alive : ∀ key opUid, (key, opUid) ∈ r.unit.pendingCompletions.map (fun p => (p.key, p.opUid)) ↔
    (r.asked.logs key).Incomplete opUid
  waits : ∀ key, r.asked.waits key = if (r.unit.groups.infoOf key).isWaiting then
    some ((r.unit.groups.infoOf key).waitAllowance, (r.unit.groups.infoOf key).waitingWarps)
      else none
  incomplete : ∀ key, ∀ wait ∈ r.asked.waits key, ¬ DoneExcept (r.asked.logs key).groups wait.1
  computing : ∀ p ∈ r.unit.pendingCompletions, p.computeRemaining = p.stop - r.unit.now
  disjoint : r.unit.pendingCompletions.Pairwise fun p q => p.stop ≤ q.start

/-- The answer to a wait, the warps that a cycle releases, and what a clean-up leaves. -/
def Answered (r : WgmmaRun) (op : WgmmaOp) (answer : WgmmaAnswer) (unit : WgmmaUnit) : Prop :=
  match op with
  | .waitGroup key n _ => answer.satisfied = decide (DoneExcept (r.asked.logs key).groups n)
  | .cycle => answer.released.Nodup ∧ ∀ w, w ∈ answer.released ↔
      ∃ key wait, r.asked.waits key = some wait ∧ w ∈ wait.2 ∧
        DoneExcept (r.asked.finish r.unit.completing key).groups wait.1
  | .cleanupCta ctaId => (∀ p ∈ unit.pendingCompletions, p.key.1 ≠ ctaId) ∧
      ∀ key, key.1 ≠ ctaId → unit.groups key = r.unit.groups key ∧
        unit.pendingCompletions.filter (fun p => p.key = key) =
          r.unit.pendingCompletions.filter fun p => p.key = key
  | _ => True

structure Inv (r : WgmmaRun) : Prop where
  tracks : ∀ key, (r.unit.groups.infoOf key).Tracks (r.asked.logs key)
  waits : ∀ key, r.asked.waits key = if (r.unit.groups.infoOf key).isWaiting then
    some ((r.unit.groups.infoOf key).waitAllowance, (r.unit.groups.infoOf key).waitingWarps)
      else none
  count : ∀ key, (r.unit.groups.infoOf key).isWaiting = true →
    (r.unit.groups.infoOf key).waitAllowance < unfinished (r.asked.logs key).groups
  alive : ∀ key opUid, (key, opUid) ∈ r.unit.pendingCompletions.map (fun p => (p.key, p.opUid)) ↔
    (r.asked.logs key).Incomplete opUid
  distinct : (r.unit.pendingCompletions.map fun p => (p.key, p.opUid)).Nodup
  computing : ∀ p ∈ r.unit.pendingCompletions, p.computeRemaining = p.stop - r.unit.now
  disjoint : r.unit.pendingCompletions.Pairwise fun p q => p.stop ≤ q.start
  apart : r.unit.groups.WaitsApart
  barriers : ∀ key, (r.unit.groups.infoOf key).isWaiting = true →
    ∀ w ∈ (r.unit.groups.infoOf key).waitingWarps, r.unit.barriers.Waiting w .wgmmaGroup

theorem Inv.wait_some (h : r.Inv) {wait : Nat × List Nat} (hw : r.asked.waits key = some wait) :
    (r.unit.groups.infoOf key).isWaiting = true ∧
      wait = ((r.unit.groups.infoOf key).waitAllowance,
        (r.unit.groups.infoOf key).waitingWarps) := by
  rw [h.waits] at hw
  split at hw
  · rename_i hwaiting
    exact ⟨hwaiting, (Option.some.inj hw).symm⟩
  · cases hw

theorem Inv.sound (h : r.Inv) : r.Sound := by
  refine ⟨h.alive, h.waits, ?_, h.computing, h.disjoint⟩
  intro key wait hwait hdone
  obtain ⟨hwaiting, rfl⟩ := h.wait_some hwait
  have hcount := h.count key hwaiting
  have hle := hdone.unfinished_le
  omega

/-! ### The calls -/

theorem le_foldl_max (l : List Nat) (a : Nat) : a ≤ l.foldl max a ∧ ∀ x ∈ l, x ≤ l.foldl max a := by
  induction l generalizing a with
  | nil => exact ⟨le_refl a, nofun⟩
  | cons y rest ih =>
    obtain ⟨hle, hall⟩ := ih (max a y)
    refine ⟨(le_max_left a y).trans hle, ?_⟩
    intro x hx
    rcases List.mem_cons.mp hx with rfl | hx
    · exact (le_max_right a x).trans hle
    · exact hall x hx

/-- A warpgroup waits as before. -/
def SameWait (info info' : WarpgroupInfo) : Prop :=
  info'.isWaiting = info.isWaiting ∧ (info.isWaiting = true →
    info'.waitAllowance = info.waitAllowance ∧ info'.waitingWarps = info.waitingWarps)

/-- A call for one warpgroup that leaves its wait alone. -/
theorem sameWait_put {groups : WgmmaGroups} {info : WarpgroupInfo}
    (h : SameWait (groups.infoOf key) info) (other : Nat × Nat) :
    SameWait (groups.infoOf other) ((groups.put key info).infoOf other) := by
  rw [WgmmaGroups.infoOf_put]
  split
  · rename_i hkey
    rw [hkey]
    exact h
  · exact ⟨rfl, fun _ => ⟨rfl, rfl⟩⟩

/-- A call after which all waits are as before, and no group has gone. -/
theorem Inv.keepWaits (h : r.Inv) {groups : WgmmaGroups} (logs : Nat × Nat → CommitLog Nat)
    {pendingCompletions : List PendingCompletion}
    (hsame : ∀ key, SameWait (r.unit.groups.infoOf key) (groups.infoOf key))
    (htracks : ∀ key, (groups.infoOf key).Tracks (logs key))
    (hcount : ∀ key, unfinished (r.asked.logs key).groups ≤ unfinished (logs key).groups)
    (halive : ∀ key opUid, (key, opUid) ∈ pendingCompletions.map (fun p => (p.key, p.opUid)) ↔
      (logs key).Incomplete opUid)
    (hdistinct : (pendingCompletions.map fun p => (p.key, p.opUid)).Nodup)
    (hcomputing : ∀ p ∈ pendingCompletions, p.computeRemaining = p.stop - r.unit.now)
    (hdisjoint : pendingCompletions.Pairwise fun p q => p.stop ≤ q.start) :
    Inv { unit := { r.unit with groups := groups, pendingCompletions := pendingCompletions }
          asked := { r.asked with logs := logs } } := by
  refine ⟨htracks, ?_, ?_, halive, hdistinct, hcomputing, hdisjoint, ⟨?_, ?_⟩, ?_⟩
  · intro key
    dsimp only
    rw [h.waits, (hsame key).1]
    split
    · rename_i hw
      rw [((hsame key).2 hw).1, ((hsame key).2 hw).2]
    · rfl
  · intro key hw
    rw [(hsame key).1] at hw
    dsimp only
    rw [((hsame key).2 hw).1]
    exact (h.count key hw).trans_le (hcount key)
  · intro key hw
    rw [(hsame key).1] at hw
    dsimp only
    rw [((hsame key).2 hw).2]
    exact h.apart.nodup key hw
  · intro key key' w hw hw'
    rw [(hsame key).1] at hw
    rw [(hsame key').1] at hw'
    dsimp only
    rw [((hsame key).2 hw).2, ((hsame key').2 hw').2]
    exact h.apart.apart key key' w hw hw'
  · intro key hw
    rw [(hsame key).1] at hw
    dsimp only
    rw [((hsame key).2 hw).2]
    exact h.barriers key hw

theorem Inv.addOp (h : r.Inv) {computeLatency tailLatency tokens : Nat}
    (hnew : opUid ∉ (r.asked.logs key).known)
    (hbound : r.unit.computeTail + max 1 computeLatency < 2 ^ 32) :
    Inv { unit := r.unit.addOp key opUid computeLatency tailLatency tokens
          asked := { r.asked with
            logs := Function.update r.asked.logs key ((r.asked.logs key).add opUid) } } := by
  have hfresh : (key, opUid) ∉ r.unit.pendingCompletions.map fun p => (p.key, p.opUid) := by
    intro hin
    exact hnew ((h.tracks key).sound.known ((h.alive key opUid).mp hin))
  apply h.keepWaits _
  · exact sameWait_put ⟨rfl, fun _ => ⟨rfl, rfl⟩⟩
  · intro other
    rw [WgmmaGroups.infoOf_put]
    rcases eq_or_ne other key with rfl | hne
    · rw [if_pos rfl, Function.update_self]
      exact (h.tracks other).add hnew
    · rw [if_neg hne, Function.update_of_ne hne]
      exact h.tracks other
  · intro other
    rcases eq_or_ne other key with rfl | hne
    · rw [Function.update_self]
      exact le_refl _
    · rw [Function.update_of_ne hne]
  · intro other uid
    rw [List.map_append, List.mem_append, h.alive]
    rcases eq_or_ne other key with rfl | hne
    · rw [Function.update_self, CommitLog.incomplete_add]
      simp
    · rw [Function.update_of_ne hne]
      simp [hne]
  · rw [List.map_append, List.nodup_append]
    refine ⟨h.distinct, List.nodup_singleton _, ?_⟩
    intro x hx y hy heq
    rw [List.map_singleton, List.mem_singleton] at hy
    rw [heq, hy] at hx
    exact hfresh hx
  · intro p hp
    rcases List.mem_append.mp hp with hp | hp
    · exact h.computing p hp
    · rw [List.mem_singleton.mp hp]
      dsimp only
      rw [Nat.mod_eq_of_lt hbound]
      omega
  · rw [List.pairwise_append]
    refine ⟨h.disjoint, List.pairwise_singleton _ _, ?_⟩
    intro p hp q hq
    rw [List.mem_singleton.mp hq]
    dsimp only
    have htail : p.computeRemaining ≤ r.unit.computeTail :=
      (le_foldl_max _ 0).2 _ (List.mem_map_of_mem hp)
    rw [h.computing p hp] at htail
    omega

theorem Inv.commitGroup (h : r.Inv)
    (hfresh : (r.unit.groups.infoOf key).pendingOps ≠ ∅ →
      (r.unit.groups.infoOf key).pendingGroups.lookup (r.unit.groups.infoOf key).nextGroupId =
        none) :
    Inv { unit := r.unit.commitGroup key
          asked := { r.asked with
            logs := Function.update r.asked.logs key (r.asked.logs key).commit } } := by
  have hsame : ∀ info : WarpgroupInfo, SameWait info info.commitGroup := by
    intro info
    unfold WarpgroupInfo.commitGroup
    split
    · exact ⟨rfl, fun _ => ⟨rfl, rfl⟩⟩
    · exact ⟨rfl, fun _ => ⟨rfl, rfl⟩⟩
  apply h.keepWaits _
  · exact sameWait_put (hsame _)
  · intro other
    rw [WgmmaGroups.infoOf_put]
    rcases eq_or_ne other key with rfl | hne
    · rw [if_pos rfl, Function.update_self]
      exact (h.tracks other).commit hfresh
    · rw [if_neg hne, Function.update_of_ne hne]
      exact h.tracks other
  · intro other
    rcases eq_or_ne other key with rfl | hne
    · rw [Function.update_self]
      unfold CommitLog.commit
      rw [unfinished_append]
      exact Nat.le_add_right _ _
    · rw [Function.update_of_ne hne]
  · intro other uid
    rw [h.alive]
    rcases eq_or_ne other key with rfl | hne
    · rw [Function.update_self, CommitLog.incomplete_commit]
    · rw [Function.update_of_ne hne]
  · exact h.distinct
  · exact h.computing
  · exact h.disjoint

/-- The traffic that is drained changes nothing else. -/
theorem map_drain {α : Type} (f : PendingCompletion → α)
    (hf : ∀ p tokens, f { p with rfTrafficRemaining := tokens } = f p) (bytes : Nat)
    (l : List PendingCompletion) : (WgmmaUnit.drain bytes l).2.map f = l.map f := by
  induction l generalizing bytes with
  | nil => rfl
  | cons p rest ih =>
    unfold WgmmaUnit.drain
    dsimp only
    rw [List.map_cons, List.map_cons, hf, ih]

theorem Inv.drainRfTraffic (h : r.Inv) (bytes : Nat) :
    Inv { r with unit := (r.unit.drainRfTraffic bytes).2 } := by
  have hops := map_drain (fun p => (p.key, p.opUid)) (fun _ _ => rfl) bytes
    r.unit.pendingCompletions
  have htimes := map_drain (fun p => (p.computeRemaining, p.start, p.stop)) (fun _ _ => rfl) bytes
    r.unit.pendingCompletions
  have hcomputing : ∀ x ∈ r.unit.pendingCompletions.map
      (fun p => (p.computeRemaining, p.start, p.stop)), x.1 = x.2.2 - r.unit.now := by
    intro x hx
    obtain ⟨p, hp, rfl⟩ := List.mem_map.mp hx
    exact h.computing p hp
  have hdisjoint : (r.unit.pendingCompletions.map
      (fun p => (p.computeRemaining, p.start, p.stop))).Pairwise (fun x y => x.2.2 ≤ y.2.1) :=
    List.pairwise_map.mpr h.disjoint
  apply h.keepWaits r.asked.logs
  · exact fun _ => ⟨rfl, fun _ => ⟨rfl, rfl⟩⟩
  · exact h.tracks
  · exact fun _ => le_refl _
  · intro key opUid
    rw [hops]
    exact h.alive key opUid
  · rw [hops]
    exact h.distinct
  · intro p hp
    rw [← htimes] at hcomputing
    exact hcomputing _ (List.mem_map_of_mem hp)
  · rw [← htimes] at hdisjoint
    exact List.pairwise_map.mp hdisjoint

theorem Inv.waitGroup (h : r.Inv) {warpIds : List Nat} (hvalid : r.Valid (.waitGroup key n warpIds))
    (hin : CpAsyncGroupInfo.WaitOk (r.asked.logs key) n) :
    ∃ unit, r.unit.waitGroup key n warpIds =
        .ok (decide (DoneExcept (r.asked.logs key).groups n), unit) ∧
      Inv { unit := unit, asked := r.asked.next r.unit (.waitGroup key n warpIds) } := by
  obtain ⟨hidle, hnodup, hwarps⟩ := hvalid
  have htracks := h.tracks key
  unfold WgmmaUnit.waitGroup WarpgroupInfo.waitGroup WarpgroupInfo.waitSatisfied WgmmaAsked.next
  simp only [hidle, htracks.size, hin.count]
  by_cases hdone : DoneExcept (r.asked.logs key).groups n
  · rw [if_pos hdone, decide_eq_true hdone]
    refine ⟨_, rfl, ?_⟩
    apply h.keepWaits r.asked.logs
    · apply sameWait_put
      refine ⟨hidle.symm, fun hw => ?_⟩
      cases hidle.symm.trans hw
    · intro other
      rw [WgmmaGroups.infoOf_put]
      split
      · rename_i hkey
        rw [hkey]
        exact ⟨htracks.follows, htracks.sound, htracks.idle⟩
      · exact h.tracks other
    · exact fun _ => le_refl _
    · exact h.alive
    · exact h.distinct
    · exact h.computing
    · exact h.disjoint
  · rw [if_neg hdone, decide_eq_false hdone]
    obtain ⟨barriers, hset, -, hwaits, hkeep⟩ :=
      BarrierSet.setWgmmaWaitingWarps_ok hwarps hnodup
    refine ⟨{ r.unit with
      barriers := barriers
      groups := r.unit.groups.put key { r.unit.groups.infoOf key with
        waitAllowance := n
        isWaiting := true
        waitingWarps := warpIds } }, ?_, ?_⟩
    · rw [hset]
      rfl
    · have hother : ∀ other, other ≠ key → ((r.unit.groups.put key
          { r.unit.groups.infoOf key with
            waitAllowance := n
            isWaiting := true
            waitingWarps := warpIds }).infoOf other) = r.unit.groups.infoOf other := by
        intro other hne
        rw [WgmmaGroups.infoOf_put, if_neg hne]
      have hself : ((r.unit.groups.put key
          { r.unit.groups.infoOf key with
            waitAllowance := n
            isWaiting := true
            waitingWarps := warpIds }).infoOf key) = { r.unit.groups.infoOf key with
            waitAllowance := n
            isWaiting := true
            waitingWarps := warpIds } := by
        rw [WgmmaGroups.infoOf_put, if_pos rfl]
      have hfresh : ∀ other w, (r.unit.groups.infoOf other).isWaiting = true →
          w ∈ (r.unit.groups.infoOf other).waitingWarps → w ∉ warpIds := by
        intro other w hw hin hmem
        exact (hwarps w hmem).2 (h.barriers other hw w hin).2.1
      refine ⟨?_, ?_, ?_, h.alive, h.distinct, h.computing, h.disjoint, ⟨?_, ?_⟩, ?_⟩
      · intro other
        rcases eq_or_ne other key with rfl | hne
        · dsimp only
          rw [hself]
          exact ⟨htracks.follows, htracks.sound, htracks.idle⟩
        · dsimp only
          rw [hother other hne]
          exact h.tracks other
      · intro other
        rcases eq_or_ne other key with rfl | hne
        · dsimp only
          rw [hself, Function.update_self]
          rfl
        · dsimp only
          rw [hother other hne, Function.update_of_ne hne]
          exact h.waits other
      · intro other hw
        rcases eq_or_ne other key with rfl | hne
        · dsimp only
          rw [hself]
          exact not_le.mp (fun hle => hdone (hin.count.mp hle))
        · dsimp only at hw ⊢
          rw [hother other hne] at hw ⊢
          exact h.count other hw
      · intro other hw
        rcases eq_or_ne other key with rfl | hne
        · dsimp only
          rw [hself]
          exact hnodup
        · dsimp only at hw ⊢
          rw [hother other hne] at hw ⊢
          exact h.apart.nodup other hw
      · intro a b w ha hb hwa hwb
        dsimp only at ha hb hwa hwb
        rcases eq_or_ne a key with rfl | hne
        · rcases eq_or_ne b a with rfl | hne'
          · rfl
          · rw [hother b hne'] at hb hwb
            rw [hself] at hwa
            exact absurd hwa (hfresh b w hb hwb)
        · rw [hother a hne] at ha hwa
          rcases eq_or_ne b key with rfl | hne'
          · rw [hself] at hwb
            exact absurd hwb (hfresh a w ha hwa)
          · rw [hother b hne'] at hb hwb
            exact h.apart.apart a b w ha hb hwa hwb
      · intro other hw w hin
        dsimp only at hw hin ⊢
        rcases eq_or_ne other key with rfl | hne
        · rw [hself] at hin
          exact hwaits w hin
        · rw [hother other hne] at hw hin
          exact hkeep w (h.barriers other hw w hin)

/-- The completions of other warpgroups. -/
theorem finish_elsewhere {ops : List PendingCompletion} {logs : Nat × Nat → CommitLog Nat}
    (hnone : ∀ p ∈ ops, p.key ≠ key) : ops.foldl (fun logs p =>
      Function.update logs p.key ((logs p.key).finish p.opUid).2) logs key = logs key := by
  induction ops generalizing logs with
  | nil => rfl
  | cons p rest ih =>
    rw [List.foldl_cons, ih (fun q hq => hnone q (List.mem_cons_of_mem _ hq)),
      Function.update_of_ne (hnone p List.mem_cons_self).symm]

/-- What is incomplete after some completions. -/
theorem incomplete_finish {ops : List PendingCompletion} {logs : Nat × Nat → CommitLog Nat} :
    (ops.foldl (fun logs p => Function.update logs p.key ((logs p.key).finish p.opUid).2) logs
      key).Incomplete opUid ↔
        (logs key).Incomplete opUid ∧ (key, opUid) ∉ ops.map fun p => (p.key, p.opUid) := by
  induction ops generalizing logs with
  | nil => simp
  | cons p rest ih =>
    rw [List.foldl_cons, ih, List.map_cons, List.mem_cons, not_or]
    rcases eq_or_ne key p.key with rfl | hne
    · rw [Function.update_self, CommitLog.incomplete_finish, and_assoc]
      simp
    · rw [Function.update_of_ne hne]
      simp [hne]

/-- A waiting warpgroup is released just when the groups are complete that it waits for. -/
theorem Inv.over_iff (h : r.Inv) (hin : r.InStep .cycle)
    (hwaiting : (r.unit.groups.infoOf key).isWaiting = true) :
    unfinished (r.asked.finish r.unit.completing key).groups ≤
        (r.unit.groups.infoOf key).waitAllowance ↔
      DoneExcept (r.asked.finish r.unit.completing key).groups
        (r.unit.groups.infoOf key).waitAllowance := by
  by_cases hsome : ∃ p ∈ r.unit.completing, p.key = key
  · obtain ⟨p, hp, rfl⟩ := hsome
    have hwait : r.asked.waits p.key = some ((r.unit.groups.infoOf p.key).waitAllowance,
        (r.unit.groups.infoOf p.key).waitingWarps) := by
      rw [h.waits, if_pos hwaiting]
    have hok := hin p hp _ hwait
    exact hok.count
  · have hnone : ∀ p ∈ r.unit.completing, p.key ≠ key := fun p hp heq => hsome ⟨p, hp, heq⟩
    unfold WgmmaAsked.finish
    rw [finish_elsewhere hnone]
    have hcount := h.count key hwaiting
    constructor
    · intro hle
      omega
    · exact DoneExcept.unfinished_le

/-- What is left of the operations when some of them complete. -/
theorem mem_unfinished {l : List PendingCompletion} {x : (Nat × Nat) × Nat}
    (hdistinct : (l.map fun p => (p.key, p.opUid)).Nodup) :
    x ∈ (l.filter fun p => !p.finished).map (fun p => (p.key, p.opUid)) ↔
      x ∈ l.map (fun p => (p.key, p.opUid)) ∧
        x ∉ (l.filter (·.finished)).map fun p => (p.key, p.opUid) := by
  constructor
  · intro hx
    obtain ⟨p, hp, rfl⟩ := List.mem_map.mp hx
    obtain ⟨hp, hnot⟩ := List.mem_filter.mp hp
    refine ⟨List.mem_map_of_mem hp, ?_⟩
    intro hin
    obtain ⟨q, hq, heq⟩ := List.mem_map.mp hin
    obtain ⟨hq, hdone⟩ := List.mem_filter.mp hq
    obtain rfl := List.inj_on_of_nodup_map hdistinct hq hp heq
    rw [hdone] at hnot
    cases hnot
  · rintro ⟨hx, hnot⟩
    obtain ⟨p, hp, rfl⟩ := List.mem_map.mp hx
    refine List.mem_map.mpr ⟨p, List.mem_filter.mpr ⟨hp, ?_⟩, rfl⟩
    cases hdone : p.finished with
    | false => rfl
    | true => exact absurd (List.mem_map.mpr ⟨p, List.mem_filter.mpr ⟨hp, hdone⟩, rfl⟩) hnot

theorem Inv.cycle (h : r.Inv) (hin : r.InStep .cycle) :
    ∃ released unit, r.unit.cycle = .ok (released, unit) ∧
      Inv { unit := unit, asked := r.asked.next r.unit .cycle } ∧
      r.Answered .cycle { released := released } unit := by
  have hstart : WgmmaGroups.Completing r.unit.groups r.asked.logs ([], r.unit.groups) := by
    refine ⟨h.tracks, fun _ => rfl, ?_, fun _ _ => rfl, ?_, List.nodup_nil⟩
    · intro key
      dsimp only
      cases hw : (r.unit.groups.infoOf key).isWaiting with
      | false => rfl
      | true => exact (decide_eq_true (h.count key hw)).symm
    · intro w
      constructor
      · intro hw
        exact absurd hw List.not_mem_nil
      · rintro ⟨key, hw, hdone, -⟩
        exact nomatch hw.symm.trans hdone
  obtain ⟨⟨released, groups⟩, hok, hend⟩ :=
    WgmmaGroups.completing_all hstart h.apart r.unit.completing
  generalize hlogs : r.asked.finish r.unit.completing = logs
  have hend : WgmmaGroups.Completing r.unit.groups logs (released, groups) := by
    rw [← hlogs]
    exact hend
  obtain ⟨htracks, hallowance, hwaiting, hwarps, hreleased, hnodup⟩ := hend
  dsimp only at htracks hallowance hwaiting hwarps hreleased hnodup
  have hover : ∀ key, (r.unit.groups.infoOf key).isWaiting = true →
      (unfinished (logs key).groups ≤ (r.unit.groups.infoOf key).waitAllowance ↔
        DoneExcept (logs key).groups (r.unit.groups.infoOf key).waitAllowance) := by
    intro key hw
    rw [← hlogs]
    exact h.over_iff hin hw
  have hbefore : ∀ key, (groups.infoOf key).isWaiting = true →
      (r.unit.groups.infoOf key).isWaiting = true := by
    intro key hw
    rw [hwaiting, Bool.and_eq_true] at hw
    exact hw.1
  have hwait : ∀ w ∈ released, r.unit.barriers.Waiting w .wgmmaGroup := by
    intro w hw
    obtain ⟨key, hstart, -, hin⟩ := (hreleased w).mp hw
    exact h.barriers key hstart w hin
  obtain ⟨barriers, hbarriers, hkeep⟩ := BarrierSet.releaseWgmmaWarps_ok hwait hnodup
  have hlate : ∀ key, (groups.infoOf key).isWaiting = false →
      (r.unit.groups.infoOf key).isWaiting = true →
        DoneExcept (logs key).groups (r.unit.groups.infoOf key).waitAllowance := by
    intro key hdone hw
    rw [hwaiting, hw, Bool.true_and, decide_eq_false_iff_not, not_lt] at hdone
    exact (hover key hw).mp hdone
  have hops : (r.unit.pendingCompletions.map (·.tick)).map (fun p => (p.key, p.opUid)) =
      r.unit.pendingCompletions.map fun p => (p.key, p.opUid) := List.map_map
  have hdistinct : ((r.unit.pendingCompletions.map (·.tick)).map
      fun p => (p.key, p.opUid)).Nodup := by
    rw [hops]
    exact h.distinct
  refine ⟨released, { r.unit with
    barriers := barriers
    groups := groups
    pendingCompletions := (r.unit.pendingCompletions.map (·.tick)).filter fun p => !p.finished
    now := r.unit.now + 1 }, ?_, ⟨?_, ?_, ?_, ?_, ?_, ?_, ?_, ⟨?_, ?_⟩, ?_⟩, hnodup, ?_⟩
  · unfold WgmmaUnit.cycle
    rw [hok]
    simp only [bind, Except.bind, hbarriers, liftBarriers]
    rfl
  · intro key
    simp only [WgmmaAsked.next, hlogs]
    exact htracks key
  · intro key
    simp only [WgmmaAsked.next, hlogs]
    rw [hallowance]
    cases hw : (groups.infoOf key).isWaiting with
    | true =>
      have hstart := hbefore key hw
      have hopen : r.asked.isOver logs key = false := by
        unfold WgmmaAsked.isOver
        rw [h.waits, if_pos hstart]
        apply decide_eq_false
        intro hdone
        rw [hwaiting, hstart, Bool.true_and, decide_eq_true_eq] at hw
        have hle := (hover key hstart).mpr hdone
        omega
      rw [hopen, h.waits, hstart, hwarps key hw]
      rfl
    | false =>
      cases hstart : (r.unit.groups.infoOf key).isWaiting with
      | false =>
        rw [h.waits, hstart]
        split <;> rfl
      | true =>
        have hclosed : r.asked.isOver logs key = true := by
          unfold WgmmaAsked.isOver
          rw [h.waits, if_pos hstart]
          exact decide_eq_true (hlate key hw hstart)
        rw [hclosed]
        rfl
  · intro key hw
    simp only [WgmmaAsked.next, hlogs]
    dsimp only at hw
    rw [hwaiting, Bool.and_eq_true, decide_eq_true_eq] at hw
    rw [hallowance]
    exact hw.2
  · intro key opUid
    simp only [WgmmaAsked.next, hlogs]
    rw [mem_unfinished hdistinct, hops, h.alive, ← hlogs]
    unfold WgmmaAsked.finish WgmmaUnit.completing
    rw [incomplete_finish, List.map_reverse, List.mem_reverse]
  · exact hdistinct.sublist (List.filter_sublist.map _)
  · intro p hp
    obtain ⟨q, hq, rfl⟩ := List.mem_map.mp (List.mem_of_mem_filter hp)
    have hremaining := h.computing q hq
    unfold PendingCompletion.tick
    dsimp only
    omega
  · exact (List.pairwise_map.mpr h.disjoint).sublist List.filter_sublist
  · intro key hw
    rw [hwarps key hw]
    exact h.apart.nodup key (hbefore key hw)
  · intro key key' w hw hw'
    rw [hwarps key hw, hwarps key' hw']
    exact h.apart.apart key key' w (hbefore key hw) (hbefore key' hw')
  · intro key hw w hin
    rw [hwarps key hw] at hin
    refine hkeep w ?_ (h.barriers key (hbefore key hw) w hin)
    intro hmem
    obtain ⟨key', hstart', hdone, hin'⟩ := (hreleased w).mp hmem
    have heq := h.apart.apart key key' w (hbefore key hw) hstart' hin hin'
    rw [heq] at hw
    exact nomatch hw.symm.trans hdone
  · intro w
    rw [hreleased]
    constructor
    · rintro ⟨key, hstart, hdone, hw⟩
      refine ⟨key, ((r.unit.groups.infoOf key).waitAllowance,
        (r.unit.groups.infoOf key).waitingWarps), ?_, hw, ?_⟩
      · rw [h.waits, if_pos hstart]
      · rw [hlogs]
        exact hlate key hdone hstart
    · rintro ⟨key, wait, hwait, hw, hdone⟩
      obtain ⟨hstart, rfl⟩ := h.wait_some hwait
      refine ⟨key, hstart, ?_, hw⟩
      rw [hwaiting, hstart, Bool.true_and, decide_eq_false_iff_not, not_lt]
      rw [hlogs] at hdone
      exact (hover key hstart).mpr hdone

/-- The records of the CTA are gone, and nothing else. -/
theorem Inv.cleanupCta (h : r.Inv) (ctaId : Nat) :
    Inv { unit := r.unit.cleanupCta ctaId, asked := r.asked.next r.unit (.cleanupCta ctaId) } ∧
      r.Answered (.cleanupCta ctaId) {} (r.unit.cleanupCta ctaId) := by
  have hgone : ∀ key : Nat × Nat, key.1 = ctaId →
      (r.unit.cleanupCta ctaId).groups.infoOf key = {} := by
    intro key hkey
    unfold WgmmaGroups.infoOf WgmmaUnit.cleanupCta
    dsimp only
    rw [if_pos hkey]
    rfl
  have hkept : ∀ key : Nat × Nat, key.1 ≠ ctaId →
      (r.unit.cleanupCta ctaId).groups.infoOf key = r.unit.groups.infoOf key := by
    intro key hkey
    unfold WgmmaGroups.infoOf WgmmaUnit.cleanupCta
    dsimp only
    rw [if_neg hkey]
  have hwaiting : ∀ key, ((r.unit.cleanupCta ctaId).groups.infoOf key).isWaiting = true →
      key.1 ≠ ctaId := by
    intro key hw heq
    rw [hgone key heq] at hw
    cases hw
  refine ⟨⟨?_, ?_, ?_, ?_, ?_, ?_, ?_, ⟨?_, ?_⟩, ?_⟩, ?_, ?_⟩
  · intro key
    simp only [WgmmaAsked.next]
    split
    · rename_i hkey
      rw [hgone key hkey]
      exact WarpgroupInfo.tracks_fresh
    · rename_i hkey
      rw [hkept key hkey]
      exact h.tracks key
  · intro key
    simp only [WgmmaAsked.next]
    split
    · rename_i hkey
      rw [hgone key hkey]
      rfl
    · rename_i hkey
      rw [hkept key hkey]
      exact h.waits key
  · intro key hw
    have hne := hwaiting key hw
    simp only [WgmmaAsked.next, if_neg hne]
    dsimp only at hw
    rw [hkept key hne] at hw ⊢
    exact h.count key hw
  · intro key opUid
    simp only [WgmmaAsked.next, WgmmaUnit.cleanupCta]
    split
    · rename_i hkey
      constructor
      · intro hin
        obtain ⟨p, hp, heq⟩ := List.mem_map.mp hin
        obtain ⟨rfl, -⟩ := Prod.mk.inj heq
        exact absurd hkey (of_decide_eq_true (List.mem_filter.mp hp).2)
      · rintro (hin | ⟨s, hs, -⟩)
        · exact absurd hin (Finset.notMem_empty _)
        · exact absurd hs List.not_mem_nil
    · rename_i hkey
      rw [← h.alive]
      constructor
      · intro hin
        obtain ⟨p, hp, heq⟩ := List.mem_map.mp hin
        exact List.mem_map.mpr ⟨p, List.mem_of_mem_filter hp, heq⟩
      · intro hin
        obtain ⟨p, hp, heq⟩ := List.mem_map.mp hin
        refine List.mem_map.mpr ⟨p, List.mem_filter.mpr ⟨hp, decide_eq_true ?_⟩, heq⟩
        rw [(Prod.mk.inj heq).1]
        exact hkey
  · exact h.distinct.sublist (List.filter_sublist.map _)
  · exact fun p hp => h.computing p (List.mem_of_mem_filter hp)
  · exact h.disjoint.sublist List.filter_sublist
  · intro key hw
    have hne := hwaiting key hw
    dsimp only
    rw [hkept key hne] at hw ⊢
    exact h.apart.nodup key hw
  · intro key key' w hw hw'
    have hne := hwaiting key hw
    have hne' := hwaiting key' hw'
    dsimp only
    rw [hkept key hne] at hw ⊢
    rw [hkept key' hne'] at hw' ⊢
    exact h.apart.apart key key' w hw hw'
  · intro key hw
    have hne := hwaiting key hw
    dsimp only at hw ⊢
    rw [hkept key hne] at hw ⊢
    exact h.barriers key hw
  · exact fun p hp => of_decide_eq_true (List.mem_filter.mp hp).2
  · intro key hkey
    refine ⟨if_neg hkey, ?_⟩
    unfold WgmmaUnit.cleanupCta
    dsimp only
    rw [List.filter_filter]
    apply List.filter_congr
    intro p _
    by_cases heq : p.key = key
    · simp [heq, hkey]
    · simp [heq]

/-! ### Runs -/

theorem Inv.call (h : r.Inv) {op : WgmmaOp} (hvalid : r.Valid op) (hin : r.InStep op) :
    ∃ answer unit, r.unit.call op = .ok (answer, unit) ∧
      Inv { unit := unit, asked := r.asked.next r.unit op } ∧ r.Answered op answer unit := by
  cases op with
  | addOp key opUid computeLatency tailLatency tokens =>
    exact ⟨_, _, rfl, h.addOp hvalid hin, trivial⟩
  | commitGroup key => exact ⟨_, _, rfl, h.commitGroup hin, trivial⟩
  | waitGroup key n warpIds =>
    obtain ⟨unit, hok, hinv⟩ := h.waitGroup hvalid hin
    refine ⟨{ satisfied := decide (DoneExcept (r.asked.logs key).groups n) }, unit, ?_, hinv, rfl⟩
    unfold WgmmaUnit.call
    dsimp only
    rw [hok]
    rfl
  | drainRfTraffic bytes => exact ⟨_, _, rfl, h.drainRfTraffic bytes, trivial⟩
  | cycle =>
    obtain ⟨released, unit, hok, hinv, hanswer⟩ := h.cycle hin
    refine ⟨_, unit, ?_, hinv, hanswer⟩
    unfold WgmmaUnit.call
    dsimp only
    rw [hok]
    rfl
  | cleanupCta ctaId =>
    obtain ⟨hinv, hanswer⟩ := h.cleanupCta ctaId
    exact ⟨_, _, rfl, hinv, hanswer⟩

theorem inv_init (barriers : BarrierSet) : Inv { unit := { barriers := barriers } } where
  tracks _ := WarpgroupInfo.tracks_fresh
  waits _ := rfl
  count _ := nofun
  alive key opUid := by
    constructor
    · intro hin
      exact absurd hin List.not_mem_nil
    · rintro (hin | ⟨s, hs, -⟩)
      · exact absurd hin (Finset.notMem_empty _)
      · exact absurd hs List.not_mem_nil
  distinct := List.nodup_nil
  computing := nofun
  disjoint := List.Pairwise.nil
  apart := ⟨fun _ => nofun, fun _ _ _ => nofun⟩
  barriers _ := nofun

instance (log : CommitLog Nat) (n : Nat) : Decidable (CpAsyncGroupInfo.WaitOk log n) :=
  inferInstanceAs (Decidable (DoneExcept _ _ ∨ ∀ s ∈ _, s ≠ ∅))

instance (r : WgmmaRun) : (op : WgmmaOp) → Decidable (r.Valid op)
  | .addOp key opUid _ _ _ => inferInstanceAs (Decidable (opUid ∉ (r.asked.logs key).known))
  | .waitGroup _ _ warpIds => inferInstanceAs (Decidable (_ ∧ warpIds.Nodup ∧ ∀ w ∈ warpIds, _ ∧ _))
  | .commitGroup _ | .drainRfTraffic _ | .cycle | .cleanupCta _ => .isTrue trivial

instance (r : WgmmaRun) : (op : WgmmaOp) → Decidable (r.InStep op)
  | .addOp _ _ _ _ _ => inferInstanceAs (Decidable (_ < _))
  | .commitGroup _ => inferInstanceAs (Decidable (_ ≠ _ → _ = none))
  | .waitGroup key n _ =>
    inferInstanceAs (Decidable (CpAsyncGroupInfo.WaitOk (r.asked.logs key) n))
  | .cycle => inferInstanceAs (Decidable (∀ p ∈ r.unit.completing, ∀ wait ∈ r.asked.waits p.key,
      CpAsyncGroupInfo.WaitOk (r.asked.finish r.unit.completing p.key) wait.1))
  | .drainRfTraffic _ | .cleanupCta _ => .isTrue trivial

/-- Every call succeeds with the right answer: a wait is over at once if all groups but the most
recent ones are complete, and otherwise in the first cycle after which they are. -/
theorem waits_follow_groups {barriers : BarrierSet}
    (h : Reaches step (fun r op => r.Valid op ∧ r.InStep op) { unit := { barriers := barriers } } r) :
    r.Sound ∧ ∀ op, r.Valid op → r.InStep op →
      ∃ answer unit, r.unit.call op = .ok (answer, unit) ∧ r.Answered op answer unit := by
  have hinv : r.Inv := by
    apply h.invariant Inv (inv_init barriers)
    rintro r r' op hr ⟨hvalid, hin⟩ hstep
    obtain ⟨answer, unit, hcall, hnext, -⟩ := hr.call hvalid hin
    unfold step at hstep
    rw [hcall] at hstep
    cases hstep
    exact hnext
  refine ⟨hinv.sound, ?_⟩
  intro op hvalid hin
  obtain ⟨answer, unit, hcall, -, hanswer⟩ := hinv.call hvalid hin
  exact ⟨answer, unit, hcall, hanswer⟩

/-- An SM with eight warps. -/
def idle : WgmmaRun where
  unit := {
    barriers := {
      config := { maxWarpsPerCore := 8, maxCtaPerCore := 2, maxBarriersPerCta := 16, warpSize := 32 } } }

/-- A warpgroup waits for the older one of two groups. -/
theorem waits_follow_groups_witness :
    ∃ r : WgmmaRun, (r.asked.waits (0, 0)).isSome = true ∧ r.Sound ∧
      ∃ answer unit, r.unit.call .cycle = .ok (answer, unit) ∧ r.Answered .cycle answer unit := by
  have hrun : ((runAllowed step (fun r op => r.Valid op ∧ r.InStep op) idle
      [.addOp (0, 0) 1 2 0 64, .commitGroup (0, 0), .addOp (0, 0) 2 1 0 0, .commitGroup (0, 0),
        .waitGroup (0, 0) 1 [0, 1, 2, 3], .drainRfTraffic 64, .cycle]).any
      fun r => decide ((r.asked.waits (0, 0)).isSome = true ∧ r.Valid .cycle ∧
        r.InStep .cycle)) = true := by
    decide
  obtain ⟨r, hr, htest⟩ := (Option.any_eq_true _ _).mp hrun
  obtain ⟨hwaits, hvalid, hin⟩ := of_decide_eq_true htest
  have hmain := waits_follow_groups (Reaches.of_runAllowed .refl hr)
  exact ⟨r, hwaits, hmain.1, hmain.2 .cycle hvalid hin⟩

/-- The newer of two groups completes first, and a wait for the older one is over at once. -/
theorem waits_follow_groups_counterexample :
    ¬ ∀ r : WgmmaRun, Reaches step Valid idle r → ∀ op, r.Valid op →
      ∃ answer unit, r.unit.call op = .ok (answer, unit) ∧ r.Answered op answer unit := by
  intro hclaim
  have hrun : ((runAllowed step Valid idle
      [.addOp (0, 0) 1 1 8 0, .commitGroup (0, 0), .addOp (0, 0) 2 1 0 0, .commitGroup (0, 0),
        .cycle, .cycle]).any
      fun r => decide (r.Valid (.waitGroup (0, 0) 1 [0, 1, 2, 3]) ∧
        ((r.unit.call (.waitGroup (0, 0) 1 [0, 1, 2, 3])).toOption.any
          fun result => result.1.satisfied) = true ∧
            ¬ DoneExcept (r.asked.logs (0, 0)).groups 1)) = true := by
    decide
  obtain ⟨r, hr, htest⟩ := (Option.any_eq_true _ _).mp hrun
  obtain ⟨hvalid, hsatisfied, hopen⟩ := of_decide_eq_true htest
  obtain ⟨answer, unit, hcall, hanswer⟩ :=
    hclaim r (Reaches.of_runAllowed .refl hr) (.waitGroup (0, 0) 1 [0, 1, 2, 3]) hvalid
  rw [hcall] at hsatisfied
  have hanswer : answer.satisfied = decide (DoneExcept (r.asked.logs (0, 0)).groups 1) := hanswer
  rw [decide_eq_false hopen] at hanswer
  exact nomatch hanswer.symm.trans hsatisfied

end WgmmaRun

end FlashGpuSim
