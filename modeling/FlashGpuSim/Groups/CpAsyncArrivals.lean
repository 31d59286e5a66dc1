import FlashGpuSim.Groups.CpAsyncArrive

/-!
The mbarrier arrivals of `cp.async` refine latches: the live transactions are the open
tasks, and an arrival that is not done waits for the transactions that its identifiers
name.
-/

namespace FlashGpuSim

open Lib

namespace CpAsyncGroupInfo

variable {info : CpAsyncGroupInfo} {bound : Nat} {t : Nat}

/-- A transaction is in the group that it is mapped to. -/
structure Consistent (info : CpAsyncGroupInfo) (bound : Nat) : Prop where
  group_tx : ∀ t g, info.txToGroup t = some g →
    ∃ group, info.pendingGroups.lookup g = some group ∧ t ∈ group
  tx_group : ∀ g group, info.pendingGroups.lookup g = some group → ∀ t ∈ group,
    info.txToGroup t = some g
  pending : ∀ t ∈ info.pendingTxs, info.txToGroup t = none ∧ t < bound
  mapped : ∀ t g, info.txToGroup t = some g → t < bound

theorem consistent_fresh (bound : Nat) : Consistent {} bound where
  group_tx := by simp
  tx_group := by simp
  pending := by simp
  mapped := by simp

theorem Consistent.mono {bound' : Nat} (h : info.Consistent bound) (hle : bound ≤ bound') :
    info.Consistent bound' where
  group_tx := h.group_tx
  tx_group := h.tx_group
  pending t ht := ⟨(h.pending t ht).1, (h.pending t ht).2.trans_le hle⟩
  mapped t g ht := (h.mapped t g ht).trans_le hle

theorem Consistent.addTx (h : info.Consistent bound) :
    (info.addTx bound).Consistent (bound + 1) where
  group_tx := h.group_tx
  tx_group := h.tx_group
  pending t ht := by
    simp only [CpAsyncGroupInfo.addTx, Finset.mem_insert] at ht
    obtain rfl | ht := ht
    · refine ⟨?_, by omega⟩
      cases hmap : info.txToGroup t with
      | none => exact hmap
      | some g => exact absurd (h.mapped t g hmap) (lt_irrefl t)
    · have hold := h.pending t ht
      exact ⟨hold.1, by omega⟩
  mapped t g ht := by
    have hold := h.mapped t g ht
    omega

theorem Consistent.commitGroup (h : info.Consistent bound)
    (hfresh : info.pendingTxs ≠ ∅ → info.pendingGroups.lookup info.nextGroupId = none) :
    info.commitGroup.Consistent bound := by
  unfold CpAsyncGroupInfo.commitGroup
  split
  · rename_i hsome
    rw [if_pos (hfresh hsome)]
    constructor
    · intro t g ht
      dsimp only at ht ⊢
      rw [Table.lookup_insert]
      split at ht
      · rename_i hin
        cases ht
        exact ⟨info.pendingTxs, if_pos rfl, hin⟩
      · obtain ⟨group, hlook, hmem⟩ := h.group_tx t g ht
        have hne : g ≠ info.nextGroupId := by
          rintro rfl
          rw [hfresh hsome] at hlook
          cases hlook
        exact ⟨group, by rw [if_neg hne, hlook], hmem⟩
    · intro g group hlook t ht
      dsimp only at hlook ⊢
      rw [Table.lookup_insert] at hlook
      split at hlook
      · rename_i heq
        cases hlook
        rw [if_pos ht, heq]
      · have hmap := h.tx_group g group hlook t ht
        have hnot : t ∉ info.pendingTxs := by
          intro hin
          rw [(h.pending t hin).1] at hmap
          cases hmap
        rw [if_neg hnot, hmap]
    · simp
    · intro t g ht
      dsimp only at ht
      split at ht
      · rename_i hin
        exact (h.pending t hin).2
      · exact h.mapped t g ht
  · exact ⟨h.group_tx, h.tx_group, h.pending, h.mapped⟩

/-- The group of a transaction is there when the transaction ends. -/
theorem Consistent.removeTx (h : info.Consistent bound) (t : Nat) :
    ∃ info', info.removeTx t = .ok info' ∧ info'.Consistent bound := by
  unfold CpAsyncGroupInfo.removeTx
  cases hmap : info.txToGroup t with
  | none =>
    refine ⟨_, rfl, h.group_tx, h.tx_group, ?_, h.mapped⟩
    intro t' ht'
    exact h.pending t' (Finset.mem_of_mem_erase ht')
  | some g =>
    obtain ⟨group, hlook, hmem⟩ := h.group_tx t g hmap
    simp only [hlook]
    have hlookup : ∀ g', (if group.erase t = ∅ then info.pendingGroups.erase g
        else info.pendingGroups.insert g (group.erase t)).lookup g' =
        if g' = g then (if group.erase t = ∅ then none else some (group.erase t))
        else info.pendingGroups.lookup g' := by
      intro g'
      split
      · exact Table.lookup_erase g' g info.pendingGroups
      · exact Table.lookup_insert g' g _ info.pendingGroups
    refine ⟨_, rfl, ?_, ?_, ?_, ?_⟩
    · intro t' g' ht'
      dsimp only at ht' ⊢
      rw [hlookup]
      by_cases heq : t' = t
      · subst heq
        rw [Function.update_self] at ht'
        cases ht'
      · rw [Function.update_of_ne heq] at ht'
        obtain ⟨group', hlook', hmem'⟩ := h.group_tx t' g' ht'
        by_cases hg : g' = g
        · subst hg
          rw [hlook] at hlook'
          cases hlook'
          have hrest : t' ∈ group.erase t := Finset.mem_erase.mpr ⟨heq, hmem'⟩
          have hne : group.erase t ≠ ∅ := Finset.ne_empty_of_mem hrest
          exact ⟨group.erase t, by rw [if_pos rfl, if_neg hne], hrest⟩
        · exact ⟨group', by rw [if_neg hg, hlook'], hmem'⟩
    · intro g' group' hlook' t' ht'
      dsimp only at hlook' ⊢
      rw [hlookup] at hlook'
      by_cases hg : g' = g
      · subst hg
        rw [if_pos rfl] at hlook'
        split at hlook'
        · cases hlook'
        · cases hlook'
          obtain ⟨hne, hin⟩ := Finset.mem_erase.mp ht'
          rw [Function.update_of_ne hne]
          exact h.tx_group g' group hlook t' hin
      · rw [if_neg hg] at hlook'
        have hmap' := h.tx_group g' group' hlook' t' ht'
        have hne : t' ≠ t := by
          rintro rfl
          rw [hmap] at hmap'
          exact hg (Option.some.inj hmap').symm
        rw [Function.update_of_ne hne]
        exact hmap'
    · intro t' ht'
      have hold := h.pending t' ht'
      have hne : t' ≠ t := by
        rintro rfl
        rw [hmap] at hold
        cases hold.1
      exact ⟨(Function.update_of_ne hne none info.txToGroup).trans hold.1, hold.2⟩
    · intro t' g' ht'
      dsimp only at ht'
      by_cases heq : t' = t
      · subst heq
        rw [Function.update_self] at ht'
        cases ht'
      · rw [Function.update_of_ne heq] at ht'
        exact h.mapped t' g' ht'

theorem Consistent.completeTx (h : info.Consistent bound) (t : Nat) :
    ∃ released info', info.completeTx t = .ok (released, info') ∧ info'.Consistent bound := by
  obtain ⟨info', hremove, hinfo'⟩ := h.removeTx t
  refine ⟨info'.checkWait.1, info'.checkWait.2, ?_, ?_⟩
  · unfold CpAsyncGroupInfo.completeTx
    rw [hremove]
    rfl
  · unfold checkWait
    split
    · exact ⟨hinfo'.group_tx, hinfo'.tx_group, hinfo'.pending, hinfo'.mapped⟩
    · exact hinfo'

theorem Consistent.waitGroup {released : Bool} {info' : CpAsyncGroupInfo} {n : Nat}
    (h : info.Consistent bound) (hok : info.waitGroup n = .ok (released, info')) :
    info'.Consistent bound := by
  unfold CpAsyncGroupInfo.waitGroup at hok
  split at hok
  · cases hok
    exact h
  · obtain ⟨_, -, hok⟩ := bind_eq_ok hok
    cases hok
    exact ⟨h.group_tx, h.tx_group, h.pending, h.mapped⟩

end CpAsyncGroupInfo

namespace CpAsyncTransaction

variable {tx : CpAsyncTransaction} {a b : Nat}

theorem mem_addDependent :
    b ∈ (tx.addDependent a).dependentArrivalUids ↔ b = a ∨ b ∈ tx.dependentArrivalUids := by
  unfold addDependent
  dsimp only
  split
  · rename_i hin
    constructor
    · exact Or.inr
    · rintro (rfl | hmem)
      · exact hin
      · exact hmem
  · rw [List.mem_orderedInsert]

theorem nodup_addDependent (h : tx.dependentArrivalUids.Nodup) :
    (tx.addDependent a).dependentArrivalUids.Nodup := by
  unfold addDependent
  dsimp only
  split
  · exact h
  · rename_i hnot
    exact (List.perm_orderedInsert (· ≤ ·) a _).nodup_iff.mpr (List.nodup_cons.mpr ⟨hnot, h⟩)

end CpAsyncTransaction

namespace CpAsyncMbarrierArrival

/-- The arrival after a transaction, if it still waits. -/
def rest (arrival : CpAsyncMbarrierArrival) (txUid : Nat) : Option CpAsyncMbarrierArrival :=
  if arrival.pendingTxUids.erase txUid = ∅ then none
  else some { arrival with pendingTxUids := arrival.pendingTxUids.erase txUid }

/-- The lane of an arrival that waits for this transaction alone. -/
def done (arrival : CpAsyncMbarrierArrival) (txUid : Nat) : Option LaneArrival :=
  if arrival.pendingTxUids.erase txUid = ∅ then some arrival.toLaneArrival else none

end CpAsyncMbarrierArrival

namespace CpAsyncArriveUnit

variable {u u' : CpAsyncArriveUnit} {config : CpAsyncConfig} {task : CpAsyncTask}

/-- The lanes whose barriers are told in the end of a transaction. -/
def lanesDone (u : CpAsyncArriveUnit) (todo : List Nat) (txUid : Nat) : List LaneArrival :=
  todo.filterMap fun a => (u.arrivals.lookup a).bind (·.done txUid)

/-- The arrivals that depend on a transaction, one after the other. -/
theorem completeArrivals_spec (task : CpAsyncTask) {todo : List Nat} (hnodup : todo.Nodup)
    (hpending : ∀ a ∈ todo, ∃ arrival, u.arrivals.lookup a = some arrival ∧
      task.txUid ∈ arrival.pendingTxUids) :
    ∃ arrivals, todo.foldlM (completeArrival task) u = .ok { u with
        arrivals := arrivals
        log := u.log ++ (u.lanesDone todo task.txUid).map fun r => .fired r (some task) } ∧
      ∀ a, arrivals.lookup a = if a ∈ todo then (u.arrivals.lookup a).bind (·.rest task.txUid)
        else u.arrivals.lookup a := by
  induction todo generalizing u with
  | nil => exact ⟨u.arrivals, by simp [lanesDone, pure, Except.pure], by simp⟩
  | cons a todo ih =>
    obtain ⟨hnot, hnodup⟩ := List.nodup_cons.mp hnodup
    obtain ⟨arrival, hlook, hmem⟩ := hpending a List.mem_cons_self
    obtain ⟨u₁, hstep, hlog, hothers, hlookup⟩ : ∃ u₁, completeArrival task u a = .ok u₁ ∧
        u₁.log = u.log ++ ((arrival.done task.txUid).toList.map fun r => .fired r (some task)) ∧
        { u₁ with arrivals := u.arrivals, log := u.log } = u ∧
        ∀ b, u₁.arrivals.lookup b = if b = a then arrival.rest task.txUid
          else u.arrivals.lookup b := by
      unfold completeArrival CpAsyncMbarrierArrival.done CpAsyncMbarrierArrival.rest
      rw [hlook]
      dsimp only
      rw [require_pass (decide_eq_true hmem)]
      split
      · exact ⟨_, rfl, rfl, rfl, fun b => Table.lookup_erase b a u.arrivals⟩
      · exact ⟨_, rfl, by simp, rfl, fun b => Table.lookup_insert b a _ u.arrivals⟩
    have hkept : ∀ b ∈ todo, u₁.arrivals.lookup b = u.arrivals.lookup b := by
      intro b hb
      have hne : b ≠ a := by
        rintro rfl
        exact hnot hb
      rw [hlookup, if_neg hne]
    obtain ⟨arrivals, hrest, harrivals⟩ := ih (u := u₁) hnodup (by
      intro b hb
      rw [hkept b hb]
      exact hpending b (List.mem_cons_of_mem _ hb))
    refine ⟨arrivals, ?_, ?_⟩
    · rw [List.foldlM_cons, hstep]
      refine hrest.trans ?_
      have hdone : u₁.lanesDone todo task.txUid = u.lanesDone todo task.txUid := by
        apply List.filterMap_congr
        intro b hb
        rw [hkept b hb]
      have hfirst : u.lanesDone (a :: todo) task.txUid =
          (arrival.done task.txUid).toList ++ u.lanesDone todo task.txUid := by
        unfold lanesDone
        rw [List.filterMap_cons, hlook]
        cases hd : arrival.done task.txUid <;> simp [hd]
      rw [hdone, hlog, hfirst, List.map_append, List.append_assoc]
      rw [← hothers]
    · intro b
      rw [harrivals]
      by_cases hb : b ∈ todo
      · rw [if_pos hb, if_pos (List.mem_cons_of_mem _ hb), hkept b hb]
      · rw [if_neg hb, hlookup]
        by_cases heq : b = a
        · subst heq
          rw [if_pos rfl, if_pos List.mem_cons_self, hlook]
          rfl
        · rw [if_neg heq, if_neg (by simp [heq, hb])]

/-- The transactions that a lane waits for learn of the arrival. -/
theorem addDependents_spec {a : Nat} {uids : List Nat} (hnodup : uids.Nodup)
    (hlive : ∀ uid ∈ uids, ∃ tx, u.transactions.lookup uid = some tx) :
    ∃ transactions, uids.foldlM (addDependent a) u = .ok { u with transactions } ∧
      ∀ uid, transactions.lookup uid = if uid ∈ uids then
        (u.transactions.lookup uid).map (·.addDependent a) else u.transactions.lookup uid := by
  induction uids generalizing u with
  | nil => exact ⟨u.transactions, rfl, by simp⟩
  | cons uid uids ih =>
    obtain ⟨hnot, hnodup⟩ := List.nodup_cons.mp hnodup
    obtain ⟨tx, hlook⟩ := hlive uid List.mem_cons_self
    have hstep : addDependent a u uid = .ok { u with
        transactions := u.transactions.insert uid (tx.addDependent a) } := by
      unfold addDependent
      rw [hlook]
    obtain ⟨transactions, hrest, hlookup⟩ := ih (u := { u with
        transactions := u.transactions.insert uid (tx.addDependent a) }) hnodup (by
      intro uid' hmem
      have hne : uid' ≠ uid := by
        rintro rfl
        exact hnot hmem
      obtain ⟨tx', hlook'⟩ := hlive uid' (List.mem_cons_of_mem _ hmem)
      exact ⟨tx', by rw [Table.lookup_insert, if_neg hne, hlook']⟩)
    refine ⟨transactions, ?_, ?_⟩
    · rw [List.foldlM_cons, hstep]
      exact hrest
    · intro uid'
      rw [hlookup]
      dsimp only
      rw [Table.lookup_insert]
      by_cases heq : uid' = uid
      · subst heq
        rw [if_neg hnot, if_pos rfl, if_pos List.mem_cons_self, hlook]
        rfl
      · rw [if_neg heq]
        simp [heq]

/-- The unit keeps the record of a latch. -/
structure Follows (u : CpAsyncArriveUnit) (l : Latch CpAsyncTask LaneArrival) : Prop where
  sound : l.Sound LaneArrival.Needs
  log : l.log = u.log
  live : ∀ t, t ∈ l.live ↔
    ∃ tx, u.transactions.lookup t.txUid = some tx ∧ tx.task t.txUid = t
  unfinished : ∀ a arrival, u.arrivals.lookup a = some arrival → arrival.pendingTxUids ≠ ∅
  pending : ∀ a arrival, u.arrivals.lookup a = some arrival → ∀ uid,
    uid ∈ arrival.pendingTxUids ↔ ∃ t ∈ l.waits arrival.toLaneArrival, t.txUid = uid
  waits : ∀ r, l.waits r ≠ ∅ → ∃ a arrival, u.arrivals.lookup a = some arrival ∧
    arrival.toLaneArrival = r
  one : ∀ a b x y, u.arrivals.lookup a = some x → u.arrivals.lookup b = some y →
    x.toLaneArrival = y.toLaneArrival → a = b
  dependents : ∀ uid tx, u.transactions.lookup uid = some tx → ∀ a,
    a ∈ tx.dependentArrivalUids ↔
      ∃ arrival, u.arrivals.lookup a = some arrival ∧ uid ∈ arrival.pendingTxUids
  nodup : ∀ uid tx, u.transactions.lookup uid = some tx → tx.dependentArrivalUids.Nodup
  fresh : ∀ t, .opened t ∈ u.log → t.txUid < u.nextTxUid
  marks : ∀ r, .asked r ∈ u.log → r.mark < (u.log.filterMap LatchEvent.asking).length
  counted : ∃ n ≤ (u.log.filterMap LatchEvent.asking).length, u.nextArrivalUid = n % 2 ^ 32 ∧
    ∀ a arrival, u.arrivals.lookup a = some arrival → ∃ j < n, a = j % 2 ^ 32
  grouped : ∀ uid tx, u.transactions.lookup uid = some tx →
    u.groupInfo (tx.ctaId, tx.warpId) ≠ none
  consistent : ∀ key info, u.groupInfo key = some info → info.Consistent u.nextTxUid

/-- The unit without its arrivals. -/
def groupsOnly (u : CpAsyncArriveUnit) : CpAsyncUnit where
  transactions uid := (u.transactions.lookup uid).map fun tx => (tx.ctaId, tx.warpId)
  groupInfo := u.groupInfo

theorem completeArrivals_groupsOnly {todo : List Nat}
    (hok : todo.foldlM (completeArrival task) u = .ok u') :
    u'.groupInfo = u.groupInfo ∧ u'.transactions = u.transactions := by
  apply foldlM_invariant (fun v => v.groupInfo = u.groupInfo ∧ v.transactions = u.transactions) _
    ⟨rfl, rfl⟩ hok
  intro v a v' _ hv hstep
  unfold completeArrival at hstep
  split at hstep
  · cases hstep
  · obtain ⟨_, -, hstep⟩ := bind_eq_ok hstep
    dsimp only at hstep
    split at hstep
    · cases hstep
      exact hv
    · cases hstep
      exact hv

/-- The groups do not see the arrivals. -/
theorem finalize_groupsOnly {txUid : Nat} (hok : u.finalizeCpAsyncTransaction txUid = .ok u') :
    ∃ released, u.groupsOnly.finalizeCpAsyncTransaction txUid = .ok (released, u'.groupsOnly) := by
  unfold finalizeCpAsyncTransaction at hok
  unfold CpAsyncUnit.finalizeCpAsyncTransaction
  dsimp only [groupsOnly]
  split at hok
  · rename_i hnone
    cases hok
    rw [hnone]
    exact ⟨false, rfl⟩
  · rename_i tx hlook
    rw [hlook]
    dsimp only [Option.map_some]
    cases hinfo : u.groupInfo (tx.ctaId, tx.warpId) with
    | none =>
      simp only [hinfo] at hok
      cases hok
    | some info =>
      simp only [hinfo] at hok ⊢
      cases hcomplete : info.completeTx txUid with
      | error e =>
        rw [hcomplete] at hok
        cases hok
      | ok r =>
        obtain ⟨released, info'⟩ := r
        rw [hcomplete] at hok
        obtain ⟨_, hmap, hok⟩ := bind_eq_ok hok
        cases hmap
        obtain ⟨u₁, hfold, hok⟩ := bind_eq_ok hok
        cases hok
        obtain ⟨hgroups, htransactions⟩ := completeArrivals_groupsOnly hfold
        refine ⟨released, congrArg (fun v => Except.ok (released, v)) ?_⟩
        dsimp only [CpAsyncUnit.put]
        rw [hgroups, htransactions]
        congr 1
        funext uid
        rw [Table.lookup_erase]
        by_cases heq : uid = txUid
        · rw [heq, Function.update_self, if_pos rfl]
          rfl
        · rw [Function.update_of_ne heq, if_neg heq]
          rfl

section Follows

variable {l : Latch CpAsyncTask LaneArrival} {t t' : CpAsyncTask} {tx : CpAsyncTransaction}
  {a : Nat} {arrival : CpAsyncMbarrierArrival} {r : LaneArrival}

theorem follows_empty : Follows {} {} where
  sound := Latch.sound_empty
  log := rfl
  live := by simp
  unfinished := by simp
  pending := by simp
  waits := by simp
  one := by simp
  dependents := by simp
  nodup := by simp
  fresh := by simp
  marks := by simp
  counted := ⟨0, by simp, rfl, by simp⟩
  grouped := by simp
  consistent := by simp

theorem Follows.live_task (h : u.Follows l) (hlook : u.transactions.lookup a = some tx) :
    tx.task a ∈ l.live :=
  (h.live (tx.task a)).mpr ⟨tx, hlook, rfl⟩

/-- Two live transactions differ in their identifiers. -/
theorem Follows.live_injective (h : u.Follows l) (ht : t ∈ l.live) (ht' : t' ∈ l.live)
    (heq : t.txUid = t'.txUid) : t = t' := by
  obtain ⟨tx, hlook, htask⟩ := (h.live t).mp ht
  obtain ⟨tx', hlook', htask'⟩ := (h.live t').mp ht'
  rw [heq, hlook'] at hlook
  cases hlook
  rw [← htask, ← htask', heq]

theorem Follows.waits_injective (h : u.Follows l) (ht : t ∈ l.waits r) (ht' : t' ∈ l.live)
    (heq : t.txUid = t'.txUid) : t = t' :=
  h.live_injective (h.sound.waits_live ht) ht' heq

theorem Follows.consistent_infoOf (h : u.Follows l) (key : Nat × Nat) :
    (u.infoOf key).Consistent u.nextTxUid := by
  unfold infoOf
  cases hinfo : u.groupInfo key with
  | none => exact CpAsyncGroupInfo.consistent_fresh u.nextTxUid
  | some info => exact h.consistent key info hinfo

/-- A transaction that an arrival waits for names the arrival. -/
theorem Follows.dependent (h : u.Follows l) (hlook : u.transactions.lookup t.txUid = some tx)
    (harrival : u.arrivals.lookup a = some arrival) (ht : t ∈ l.waits arrival.toLaneArrival) :
    a ∈ tx.dependentArrivalUids :=
  (h.dependents t.txUid tx hlook a).mpr
    ⟨arrival, harrival, (h.pending a arrival harrival t.txUid).mpr ⟨t, ht, rfl⟩⟩

/-- The arrivals that are done in the end of a transaction are those that wait for it
alone. -/
theorem Follows.mem_lanesDone (h : u.Follows l) (hlook : u.transactions.lookup a = some tx) :
    r ∈ u.lanesDone tx.dependentArrivalUids a ↔ l.waits r = {tx.task a} := by
  have hlive := h.live_task hlook
  have huid : (tx.task a).txUid = a := rfl
  unfold lanesDone CpAsyncMbarrierArrival.done
  rw [List.mem_filterMap]
  constructor
  · rintro ⟨b, hb, hdone⟩
    obtain ⟨arrival, harrival, hmem⟩ := (h.dependents a tx hlook b).mp hb
    rw [harrival, Option.bind_some] at hdone
    split at hdone
    · rename_i hempty
      cases hdone
      have hall : ∀ t ∈ l.waits arrival.toLaneArrival, t = tx.task a := by
        intro t ht
        apply h.waits_injective ht hlive
        have hin := (h.pending b arrival harrival t.txUid).mpr ⟨t, ht, rfl⟩
        by_contra hne
        have hrest := Finset.mem_erase.mpr ⟨hne, hin⟩
        rw [huid, hempty] at hrest
        cases hrest
      obtain ⟨t, ht, htuid⟩ := (h.pending b arrival harrival a).mp hmem
      rw [hall t ht] at ht
      exact Finset.eq_singleton_iff_unique_mem.mpr ⟨ht, hall⟩
    · cases hdone
  · intro hwaits
    have hmem : tx.task a ∈ l.waits r := by rw [hwaits]; exact Finset.mem_singleton_self _
    obtain ⟨b, arrival, harrival, rfl⟩ := h.waits r (Finset.ne_empty_of_mem hmem)
    refine ⟨b, h.dependent hlook harrival hmem, ?_⟩
    rw [harrival, Option.bind_some, if_pos]
    apply Finset.eq_empty_of_forall_notMem
    intro uid huid'
    obtain ⟨hne, hin⟩ := Finset.mem_erase.mp huid'
    obtain ⟨t, ht, rfl⟩ := (h.pending b arrival harrival uid).mp hin
    rw [hwaits, Finset.mem_singleton] at ht
    exact hne (by rw [ht, huid])

theorem Follows.nodup_lanesDone (h : u.Follows l) (hlook : u.transactions.lookup a = some tx) :
    (u.lanesDone tx.dependentArrivalUids a).Nodup := by
  apply List.Nodup.filterMap _ (h.nodup a tx hlook)
  intro b b' r hb hb'
  have hlane : ∀ c, r ∈ (u.arrivals.lookup c).bind (·.done a) →
      ∃ x, u.arrivals.lookup c = some x ∧ x.toLaneArrival = r := by
    intro c hc
    obtain ⟨x, hx, hdone⟩ := Option.bind_eq_some_iff.mp hc
    unfold CpAsyncMbarrierArrival.done at hdone
    split at hdone
    · exact ⟨x, hx, Option.some.inj hdone⟩
    · cases hdone
  obtain ⟨x, hx, hxr⟩ := hlane b hb
  obtain ⟨y, hy, hyr⟩ := hlane b' hb'
  exact h.one b b' x y hx hy (hxr.trans hyr.symm)

/-- The arrival after the end of a transaction. -/
theorem rest_eq_some {arrival' : CpAsyncMbarrierArrival} :
    arrival.rest a = some arrival' ↔ arrival.pendingTxUids.erase a ≠ ∅ ∧
      arrival' = { arrival with pendingTxUids := arrival.pendingTxUids.erase a } := by
  unfold CpAsyncMbarrierArrival.rest
  split
  · rename_i hempty
    simp [hempty]
  · rename_i hsome
    simp only [Option.some.injEq, ne_eq, hsome, not_false_eq_true, true_and]
    exact eq_comm

theorem Follows.close (h : u.Follows l) (hlook : u.transactions.lookup a = some tx)
    (htransactions : ∀ uid, u'.transactions.lookup uid =
      if uid = a then none else u.transactions.lookup uid)
    (harrivals : ∀ b, u'.arrivals.lookup b = if b ∈ tx.dependentArrivalUids then
      (u.arrivals.lookup b).bind (·.rest a) else u.arrivals.lookup b)
    (hlog : u'.log = u.log ++ .closed (tx.task a) ::
      (u.lanesDone tx.dependentArrivalUids a).map fun r => .fired r (some (tx.task a)))
    (hnext : u'.nextTxUid = u.nextTxUid) (hnextArrival : u'.nextArrivalUid = u.nextArrivalUid)
    (hgroups : ∀ key, u.groupInfo key ≠ none → u'.groupInfo key ≠ none)
    (hconsistent : ∀ key info, u'.groupInfo key = some info → info.Consistent u.nextTxUid) :
    u'.Follows (l.closeTask (tx.task a) (u.lanesDone tx.dependentArrivalUids a)) := by
  have hlive := h.live_task hlook
  have hasked : u'.log.filterMap LatchEvent.asking = u.log.filterMap LatchEvent.asking := by
    rw [hlog, List.filterMap_append, Latch.asking_fires, List.append_nil]
  -- What an arrival that is left waited for before.
  have hold : ∀ b arrival', u'.arrivals.lookup b = some arrival' → ∃ arrival,
      u.arrivals.lookup b = some arrival ∧ arrival'.toLaneArrival = arrival.toLaneArrival ∧
      arrival'.pendingTxUids = arrival.pendingTxUids.erase a ∧ arrival'.pendingTxUids ≠ ∅ := by
    intro b arrival' hsome
    rw [harrivals] at hsome
    split at hsome
    · obtain ⟨arrival, harrival, hrest⟩ := Option.bind_eq_some_iff.mp hsome
      obtain ⟨hne, rfl⟩ := rest_eq_some.mp hrest
      exact ⟨arrival, harrival, rfl, rfl, hne⟩
    · rename_i hnot
      refine ⟨arrival', hsome, rfl, ?_, h.unfinished b arrival' hsome⟩
      rw [Finset.erase_eq_of_notMem]
      intro hmem
      exact hnot ((h.dependents a tx hlook b).mpr ⟨arrival', hsome, hmem⟩)
  have hleft : ∀ b arrival, u.arrivals.lookup b = some arrival →
      arrival.pendingTxUids.erase a ≠ ∅ →
      u'.arrivals.lookup b = some { arrival with
        pendingTxUids := arrival.pendingTxUids.erase a } := by
    intro b arrival harrival hne
    rw [harrivals]
    split
    · rw [harrival, Option.bind_some, rest_eq_some]
      exact ⟨hne, rfl⟩
    · rename_i hnot
      rw [harrival, Finset.erase_eq_of_notMem]
      intro hmem
      exact hnot ((h.dependents a tx hlook b).mpr ⟨arrival, harrival, hmem⟩)
  have herase : ∀ b arrival, u.arrivals.lookup b = some arrival → ∀ uid,
      uid ∈ arrival.pendingTxUids.erase a ↔
        ∃ t ∈ (l.waits arrival.toLaneArrival).erase (tx.task a), t.txUid = uid := by
    intro b arrival harrival uid
    rw [Finset.mem_erase, h.pending b arrival harrival]
    constructor
    · rintro ⟨hne, t, ht, rfl⟩
      refine ⟨t, Finset.mem_erase.mpr ⟨?_, ht⟩, rfl⟩
      rintro rfl
      exact hne rfl
    · rintro ⟨t, ht, rfl⟩
      obtain ⟨hne, hmem⟩ := Finset.mem_erase.mp ht
      exact ⟨fun heq => hne (h.waits_injective hmem hlive heq), t, hmem, rfl⟩
  constructor
  · exact h.sound.closeTask hlive (fun r => h.mem_lanesDone hlook) (h.nodup_lanesDone hlook)
  · exact (congrArg (· ++ _) h.log).trans hlog.symm
  · intro t
    simp only [Latch.closeTask, Finset.mem_erase, h.live, htransactions]
    constructor
    · rintro ⟨hne, tx', hlook', htask⟩
      refine ⟨tx', ?_, htask⟩
      rw [if_neg, hlook']
      intro heq
      rw [heq, hlook] at hlook'
      cases hlook'
      exact hne (by rw [← htask, heq])
    · rintro ⟨tx', hlook', htask⟩
      split at hlook'
      · cases hlook'
      · rename_i hne
        exact ⟨fun heq => hne (by rw [heq]; rfl), tx', hlook', htask⟩
  · intro b arrival' hsome
    obtain ⟨arrival, -, -, -, hne⟩ := hold b arrival' hsome
    exact hne
  · intro b arrival' hsome uid
    obtain ⟨arrival, harrival, hlane, hpending, -⟩ := hold b arrival' hsome
    rw [hpending, hlane]
    exact herase b arrival harrival uid
  · intro r hne
    obtain ⟨t, ht⟩ := Finset.nonempty_iff_ne_empty.mpr hne
    obtain ⟨b, arrival, harrival, rfl⟩ := h.waits r
      (Finset.ne_empty_of_mem (Finset.mem_of_mem_erase ht))
    exact ⟨b, _, hleft b arrival harrival
      (Finset.ne_empty_of_mem ((herase b arrival harrival t.txUid).mpr ⟨t, ht, rfl⟩)), rfl⟩
  · intro b b' x y hx hy heq
    obtain ⟨x', hx', hlane, -⟩ := hold b x hx
    obtain ⟨y', hy', hlane', -⟩ := hold b' y hy
    exact h.one b b' x' y' hx' hy' (by rw [← hlane, ← hlane', heq])
  · intro uid tx' hlook' b
    rw [htransactions] at hlook'
    split at hlook'
    · cases hlook'
    · rename_i hne
      rw [h.dependents uid tx' hlook']
      constructor
      · rintro ⟨arrival, harrival, hmem⟩
        have hrest := Finset.mem_erase.mpr ⟨hne, hmem⟩
        exact ⟨_, hleft b arrival harrival (Finset.ne_empty_of_mem hrest), hrest⟩
      · rintro ⟨arrival', hsome, hmem⟩
        obtain ⟨arrival, harrival, -, hpending, -⟩ := hold b arrival' hsome
        rw [hpending] at hmem
        exact ⟨arrival, harrival, Finset.mem_of_mem_erase hmem⟩
  · intro uid tx' hlook'
    rw [htransactions] at hlook'
    split at hlook'
    · cases hlook'
    · exact h.nodup uid tx' hlook'
  · intro t ht
    rw [hlog] at ht
    rw [hnext]
    exact h.fresh t (by simpa using ht)
  · intro r hr
    rw [hasked]
    apply h.marks
    rw [hlog] at hr
    simpa using hr
  · obtain ⟨n, hn, hcount, huids⟩ := h.counted
    rw [hasked, hnextArrival]
    refine ⟨n, hn, hcount, ?_⟩
    intro b arrival' hsome
    obtain ⟨arrival, harrival, -⟩ := hold b arrival' hsome
    exact huids b arrival harrival
  · intro uid tx' hlook'
    rw [htransactions] at hlook'
    split at hlook'
    · cases hlook'
    · exact hgroups _ (h.grouped uid tx' hlook')
  · intro key info hsome
    rw [hnext]
    exact hconsistent key info hsome

/-- A live transaction ends without a failed assertion. -/
theorem Follows.finalize (h : u.Follows l) (hlook : u.transactions.lookup a = some tx) :
    ∃ u', u.finalizeCpAsyncTransaction a = .ok u' ∧ u'.nextTxUid = u.nextTxUid ∧
      u'.log = u.log ++ .closed (tx.task a) ::
        (u.lanesDone tx.dependentArrivalUids a).map (fun r => .fired r (some (tx.task a))) ∧
      u'.Follows (l.closeTask (tx.task a) (u.lanesDone tx.dependentArrivalUids a)) := by
  obtain ⟨info, hinfo⟩ := Option.ne_none_iff_exists'.mp (h.grouped a tx hlook)
  obtain ⟨released, info', hcomplete, hinfo'⟩ := (h.consistent _ info hinfo).completeTx a
  obtain ⟨u₁, hu₁⟩ : ∃ u₁ : CpAsyncArriveUnit, u₁ = { u.put (tx.ctaId, tx.warpId) info' with
      released := if released then u.released ++ [tx.warpId] else u.released
      log := u.log ++ [LatchEvent.closed (tx.task a)] } := ⟨_, rfl⟩
  have harrivals₁ : u₁.arrivals = u.arrivals := by rw [hu₁]; rfl
  obtain ⟨arrivals, hfold, hlookup⟩ := completeArrivals_spec (u := u₁) (tx.task a)
    (h.nodup a tx hlook) (by
    intro b hb
    rw [harrivals₁]
    exact (h.dependents a tx hlook b).mp hb)
  have hdone : u₁.lanesDone tx.dependentArrivalUids a = u.lanesDone tx.dependentArrivalUids a := by
    unfold lanesDone
    rw [harrivals₁]
  have hok : u.finalizeCpAsyncTransaction a = .ok { u₁ with
      arrivals := arrivals
      transactions := u₁.transactions.erase a
      log := u₁.log ++ (u₁.lanesDone tx.dependentArrivalUids a).map
        fun r => .fired r (some (tx.task a)) } := by
    unfold finalizeCpAsyncTransaction
    rw [hlook]
    dsimp only
    rw [hinfo]
    dsimp only
    rw [hcomplete]
    subst hu₁
    change (tx.dependentArrivalUids.foldlM (completeArrival (tx.task a)) _ >>= _) = _
    rw [hfold]
    rfl
  have hlog : u₁.log ++ (u₁.lanesDone tx.dependentArrivalUids a).map
      (fun r => LatchEvent.fired r (some (tx.task a))) = u.log ++ .closed (tx.task a) ::
        (u.lanesDone tx.dependentArrivalUids a).map fun r => .fired r (some (tx.task a)) := by
    rw [hdone, hu₁, List.append_assoc]
    rfl
  refine ⟨_, hok, by rw [hu₁]; rfl, hlog, ?_⟩
  apply h.close hlook
  · intro uid
    rw [hu₁]
    exact Table.lookup_erase uid a u.transactions
  · intro b
    rw [← harrivals₁]
    exact hlookup b
  · exact hlog
  · rw [hu₁]
    rfl
  · rw [hu₁]
    rfl
  · intro key hkey
    rw [hu₁]
    by_cases heq : key = (tx.ctaId, tx.warpId)
    · subst heq
      simp [put]
    · simpa [put, Function.update_of_ne heq] using hkey
  · intro key info'' hsome
    rw [hu₁] at hsome
    by_cases heq : key = (tx.ctaId, tx.warpId)
    · subst heq
      simp only [put, Function.update_self, Option.some.injEq] at hsome
      rw [← hsome]
      exact hinfo'
    · simp only [put, Function.update_of_ne heq] at hsome
      exact h.consistent key info'' hsome

/-- A transaction starts. -/
theorem Follows.start (h : u.Follows l) (ctaId warpId : Nat) (access : MemAccess) :
    Follows { u.put (ctaId, warpId) ((u.infoOf (ctaId, warpId)).addTx u.nextTxUid) with
      transactions := u.transactions.insert u.nextTxUid { access, ctaId, warpId }
      nextTxUid := u.nextTxUid + 1
      log := u.log ++ [LatchEvent.opened ⟨u.nextTxUid, ctaId, warpId, access⟩] }
      (l.openTask ⟨u.nextTxUid, ctaId, warpId, access⟩) := by
  have hbound : ∀ t ∈ l.live, t.txUid < u.nextTxUid := by
    intro t ht
    apply h.fresh
    rw [← h.log]
    exact ((h.sound.live t).mp ht).1
  have hnew : u.transactions.lookup u.nextTxUid = none := by
    cases hlook : u.transactions.lookup u.nextTxUid with
    | none => rfl
    | some tx => exact absurd (hbound _ (h.live_task hlook)) (lt_irrefl _)
  have hasked : (u.log ++ [LatchEvent.opened (CpAsyncTask.mk u.nextTxUid ctaId warpId access)]).filterMap
      LatchEvent.asking = u.log.filterMap LatchEvent.asking := by
    rw [List.filterMap_append]
    exact List.append_nil _
  constructor
  · apply h.sound.openTask
    rw [h.log]
    intro hmem
    exact absurd (h.fresh _ hmem) (lt_irrefl _)
  · exact congrArg (· ++ _) h.log
  · intro t
    simp only [Latch.openTask, Finset.mem_insert, h.live, Table.lookup_insert]
    constructor
    · rintro (rfl | ⟨tx, hlook, htask⟩)
      · exact ⟨_, if_pos rfl, rfl⟩
      · refine ⟨tx, ?_, htask⟩
        rw [if_neg, hlook]
        intro heq
        rw [heq, hnew] at hlook
        cases hlook
    · rintro ⟨tx, hlook, htask⟩
      split at hlook
      · rename_i heq
        cases hlook
        left
        rw [← htask, heq]
        rfl
      · exact Or.inr ⟨tx, hlook, htask⟩
  · exact h.unfinished
  · exact h.pending
  · exact h.waits
  · exact h.one
  · intro uid tx hlook b
    dsimp only at hlook
    rw [Table.lookup_insert] at hlook
    split at hlook
    · rename_i heq
      cases hlook
      subst heq
      constructor
      · intro hmem
        cases hmem
      · rintro ⟨arrival, harrival, hmem⟩
        obtain ⟨t, ht, htuid⟩ := (h.pending b arrival harrival _).mp hmem
        have hlt := hbound t (h.sound.waits_live ht)
        omega
    · exact h.dependents uid tx hlook b
  · intro uid tx hlook
    dsimp only at hlook
    rw [Table.lookup_insert] at hlook
    split at hlook
    · cases hlook
      exact List.nodup_nil
    · exact h.nodup uid tx hlook
  · intro t ht
    dsimp only at ht ⊢
    simp only [List.mem_append, List.mem_singleton, LatchEvent.opened.injEq] at ht
    obtain hold | rfl := ht
    · have hlt := h.fresh t hold
      omega
    · exact Nat.lt_succ_self _
  · intro r hr
    dsimp only at hr ⊢
    rw [hasked]
    exact h.marks r (by simpa using hr)
  · dsimp only
    rw [hasked]
    exact h.counted
  · intro uid tx hlook
    dsimp only at hlook
    rw [Table.lookup_insert] at hlook
    split at hlook
    · cases hlook
      simp [put]
    · by_cases heq : (tx.ctaId, tx.warpId) = (ctaId, warpId)
      · simp [put, heq]
      · simpa [put, Function.update_of_ne heq] using h.grouped uid tx hlook
  · intro key info hsome
    by_cases heq : key = (ctaId, warpId)
    · subst heq
      simp only [put, Function.update_self, Option.some.injEq] at hsome
      rw [← hsome]
      exact (h.consistent_infoOf _).addTx
    · simp only [put, Function.update_of_ne heq] at hsome
      exact (h.consistent key info hsome).mono (Nat.le_succ _)

theorem mem_pendingTxUids {uid ctaId warpId lane : Nat} :
    uid ∈ u.pendingTxUids ctaId warpId lane ↔ ∃ tx, u.transactions.lookup uid = some tx ∧
      tx.ctaId = ctaId ∧ tx.warpId = warpId ∧ tx.access.warpMask.getLsbD lane = true := by
  unfold pendingTxUids
  rw [List.mem_map]
  constructor
  · rintro ⟨⟨uid', tx⟩, hmem, rfl⟩
    obtain ⟨hentry, htest⟩ := List.mem_filter.mp hmem
    exact ⟨tx, AList.mem_lookup_iff.mpr hentry, of_decide_eq_true htest⟩
  · rintro ⟨tx, hlook, htest⟩
    exact ⟨⟨uid, tx⟩, List.mem_filter.mpr
      ⟨AList.mem_lookup_iff.mp hlook, decide_eq_true htest⟩, rfl⟩

variable (u) in
theorem nodup_pendingTxUids (ctaId warpId lane : Nat) :
    (u.pendingTxUids ctaId warpId lane).Nodup := by
  apply List.Nodup.sublist _ u.transactions.keys_nodup
  exact List.filter_sublist.map Sigma.fst

/-- The transactions that a lane waits for are the open ones that it needs. -/
theorem Follows.mem_pendingTxUids (h : u.Follows l) (r : LaneArrival) (uid : Nat) :
    uid ∈ u.pendingTxUids r.ctaId r.warpId r.lane ↔ ∃ t ∈ l.live, r.Needs t ∧ t.txUid = uid := by
  rw [CpAsyncArriveUnit.mem_pendingTxUids]
  constructor
  · rintro ⟨tx, hlook, hneeds⟩
    exact ⟨tx.task uid, h.live_task hlook, hneeds, rfl⟩
  · rintro ⟨t, ht, hneeds, rfl⟩
    obtain ⟨tx, hlook, htask⟩ := (h.live t).mp ht
    rw [← htask] at hneeds
    exact ⟨tx, hlook, hneeds⟩

theorem Follows.new_mark (h : u.Follows l)
    (hr : r.mark = (u.log.filterMap LatchEvent.asking).length) : .asked r ∉ l.log := by
  rw [h.log]
  intro hmem
  have hlt := h.marks r hmem
  omega

/-- A lane without a live transaction arrives at once. -/
theorem Follows.ask_idle (h : u.Follows l)
    (hr : r.mark = (u.log.filterMap LatchEvent.asking).length)
    (hidle : ∀ t ∈ l.live, ¬ r.Needs t) :
    Follows { u with log := u.log ++ [LatchEvent.asked r, .fired r none] }
      { l with log := l.log ++ [LatchEvent.asked r, .fired r none] } := by
  have hasked : (u.log ++ [LatchEvent.asked r, .fired r none]).filterMap LatchEvent.asking =
      u.log.filterMap LatchEvent.asking ++ [r] := by
    rw [List.filterMap_append]
    rfl
  constructor
  · exact h.sound.ask_idle (h.new_mark hr) hidle
  · exact congrArg (· ++ _) h.log
  · exact h.live
  · exact h.unfinished
  · exact h.pending
  · exact h.waits
  · exact h.one
  · exact h.dependents
  · exact h.nodup
  · intro t ht
    exact h.fresh t (by simpa using ht)
  · intro r' hr'
    dsimp only at hr' ⊢
    rw [hasked, List.length_append, List.length_singleton]
    simp only [List.mem_append, List.mem_cons, LatchEvent.asked.injEq, reduceCtorEq,
      List.not_mem_nil, or_false] at hr'
    obtain hold | rfl := hr'
    · have hlt := h.marks r' hold
      omega
    · omega
  · obtain ⟨n, hn, hcount, huids⟩ := h.counted
    dsimp only
    rw [hasked, List.length_append]
    exact ⟨n, by omega, hcount, huids⟩
  · exact h.grouped
  · exact h.consistent

/-- A lane that waits for live transactions. -/
theorem Follows.ask_waits {transactions : Table CpAsyncTransaction} {uids : List Nat}
    (h : u.Follows l) (hr : r.mark = (u.log.filterMap LatchEvent.asking).length)
    (huids : ∀ uid, uid ∈ uids ↔ ∃ t ∈ l.live, r.Needs t ∧ t.txUid = uid) (hsome : uids ≠ [])
    (hfree : u.arrivals.lookup u.nextArrivalUid = none)
    (htransactions : ∀ uid, transactions.lookup uid = if uid ∈ uids then
      (u.transactions.lookup uid).map (·.addDependent u.nextArrivalUid)
      else u.transactions.lookup uid) :
    Follows { u with
      transactions := transactions
      nextArrivalUid := inc32 u.nextArrivalUid
      arrivals := u.arrivals.insert u.nextArrivalUid ⟨r, uids.toFinset⟩
      log := u.log ++ [LatchEvent.asked r] }
      { l with
        waits := Function.update l.waits r (l.live.filter r.Needs)
        log := l.log ++ [LatchEvent.asked r] } := by
  have hasked : (u.log ++ [LatchEvent.asked r]).filterMap LatchEvent.asking =
      u.log.filterMap LatchEvent.asking ++ [r] := by
    rw [List.filterMap_append]
    rfl
  have hnone := (h.sound.not_asked (h.new_mark hr)).1
  have hother : ∀ a arrival, u.arrivals.lookup a = some arrival → arrival.toLaneArrival ≠ r := by
    intro a arrival harrival heq
    apply h.unfinished a arrival harrival
    apply Finset.eq_empty_of_forall_notMem
    intro uid hmem
    obtain ⟨t, ht, -⟩ := (h.pending a arrival harrival uid).mp hmem
    rw [heq, hnone] at ht
    cases ht
  -- The transactions are as before, but for the arrival in those that the lane waits for.
  have hold : ∀ uid tx, transactions.lookup uid = some tx → ∃ tx',
      u.transactions.lookup uid = some tx' ∧ tx.task uid = tx'.task uid ∧
      tx = if uid ∈ uids then tx'.addDependent u.nextArrivalUid else tx' := by
    intro uid tx hlook
    rw [htransactions] at hlook
    split at hlook
    · rename_i hin
      obtain ⟨tx', hlook', rfl⟩ := Option.map_eq_some_iff.mp hlook
      exact ⟨tx', hlook', rfl, (if_pos hin).symm⟩
    · rename_i hout
      exact ⟨tx, hlook, rfl, (if_neg hout).symm⟩
  constructor
  · apply h.sound.ask_waits (h.new_mark hr)
    · intro t
      exact Finset.mem_filter
    · intro hempty
      obtain ⟨uid, huid⟩ := List.exists_mem_of_ne_nil uids hsome
      obtain ⟨t, ht, hneeds, -⟩ := (huids uid).mp huid
      have hin : t ∈ l.live.filter r.Needs := Finset.mem_filter.mpr ⟨ht, hneeds⟩
      rw [hempty] at hin
      cases hin
  · exact congrArg (· ++ _) h.log
  · intro t
    rw [h.live]
    constructor
    · rintro ⟨tx, hlook, htask⟩
      dsimp only
      rw [htransactions, hlook]
      split
      · exact ⟨_, rfl, htask⟩
      · exact ⟨tx, rfl, htask⟩
    · rintro ⟨tx, hlook, htask⟩
      obtain ⟨tx', hlook', htask', -⟩ := hold t.txUid tx hlook
      exact ⟨tx', hlook', htask'.symm.trans htask⟩
  · intro a arrival harrival
    dsimp only at harrival
    rw [Table.lookup_insert] at harrival
    split at harrival
    · cases harrival
      intro hempty
      obtain ⟨uid, huid⟩ := List.exists_mem_of_ne_nil uids hsome
      have hin : uid ∈ uids.toFinset := List.mem_toFinset.mpr huid
      exact Finset.ne_empty_of_mem hin hempty
    · exact h.unfinished a arrival harrival
  · intro a arrival harrival uid
    dsimp only at harrival ⊢
    rw [Table.lookup_insert] at harrival
    split at harrival
    · cases harrival
      rw [Function.update_self, List.mem_toFinset, huids]
      simp only [Finset.mem_filter, and_assoc]
    · rw [Function.update_of_ne (hother a arrival harrival)]
      exact h.pending a arrival harrival uid
  · intro r' hne
    dsimp only at hne ⊢
    by_cases heq : r' = r
    · subst heq
      exact ⟨u.nextArrivalUid, _, by rw [Table.lookup_insert, if_pos rfl], rfl⟩
    · rw [Function.update_of_ne heq] at hne
      obtain ⟨a, arrival, harrival, hlane⟩ := h.waits r' hne
      refine ⟨a, arrival, ?_, hlane⟩
      rw [Table.lookup_insert, if_neg, harrival]
      rintro rfl
      rw [hfree] at harrival
      cases harrival
  · intro a b x y hx hy heq
    dsimp only at hx hy
    rw [Table.lookup_insert] at hx hy
    split at hx
    · rename_i ha
      split at hy
      · rename_i hb
        rw [ha, hb]
      · cases hx
        exact absurd heq.symm (hother b y hy)
    · split at hy
      · cases hy
        exact absurd heq (hother a x hx)
      · exact h.one a b x y hx hy heq
  · intro uid tx hlook b
    obtain ⟨tx', hlook', -, htx⟩ := hold uid tx hlook
    dsimp only
    rw [Table.lookup_insert]
    by_cases hb : b = u.nextArrivalUid
    · subst hb
      rw [if_pos rfl]
      simp only [Option.some.injEq, exists_eq_left', List.mem_toFinset]
      rw [htx]
      split
      · rename_i hin
        simp [CpAsyncTransaction.mem_addDependent, hin]
      · rename_i hout
        simp [hout, h.dependents uid tx' hlook', hfree]
    · rw [if_neg hb, ← h.dependents uid tx' hlook', htx]
      split
      · simp [CpAsyncTransaction.mem_addDependent, hb]
      · rfl
  · intro uid tx hlook
    obtain ⟨tx', hlook', -, htx⟩ := hold uid tx hlook
    rw [htx]
    split
    · exact CpAsyncTransaction.nodup_addDependent (h.nodup uid tx' hlook')
    · exact h.nodup uid tx' hlook'
  · intro t ht
    exact h.fresh t (by simpa using ht)
  · intro r' hr'
    dsimp only at hr' ⊢
    rw [hasked, List.length_append, List.length_singleton]
    simp only [List.mem_append, List.mem_singleton, LatchEvent.asked.injEq] at hr'
    obtain hold | rfl := hr'
    · have hlt := h.marks r' hold
      omega
    · omega
  · obtain ⟨n, hn, hcount, hnumbers⟩ := h.counted
    dsimp only
    rw [hasked, List.length_append, List.length_singleton]
    refine ⟨n + 1, by omega, by unfold inc32; omega, ?_⟩
    intro a arrival harrival
    rw [Table.lookup_insert] at harrival
    split at harrival
    · rename_i ha
      exact ⟨n, by omega, ha.trans hcount⟩
    · obtain ⟨j, hj, ha⟩ := hnumbers a arrival harrival
      exact ⟨j, by omega, ha⟩
  · intro uid tx hlook
    obtain ⟨tx', hlook', htask, -⟩ := hold uid tx hlook
    have hcta := congrArg CpAsyncTask.ctaId htask
    have hwarp := congrArg CpAsyncTask.warpId htask
    dsimp only [CpAsyncTransaction.task] at hcta hwarp
    rw [hcta, hwarp]
    exact h.grouped uid tx' hlook'
  · exact h.consistent

/-- The identifier of an arrival is used again only after 2^32 lanes. -/
theorem Follows.arrival_free (h : u.Follows l)
    (hfew : (u.log.filterMap LatchEvent.asking).length < 2 ^ 32) :
    u.arrivals.lookup u.nextArrivalUid = none := by
  obtain ⟨n, hn, hcount, hnumbers⟩ := h.counted
  cases hlook : u.arrivals.lookup u.nextArrivalUid with
  | none => rfl
  | some arrival =>
    obtain ⟨j, hj, heq⟩ := hnumbers _ arrival hlook
    omega

/-- The groups of a warp change. -/
theorem Follows.put {info : CpAsyncGroupInfo} (h : u.Follows l) (key : Nat × Nat)
    (hinfo : info.Consistent u.nextTxUid) : (u.put key info).Follows l where
  sound := h.sound
  log := h.log
  live := h.live
  unfinished := h.unfinished
  pending := h.pending
  waits := h.waits
  one := h.one
  dependents := h.dependents
  nodup := h.nodup
  fresh := h.fresh
  marks := h.marks
  counted := h.counted
  grouped uid tx hlook := by
    by_cases heq : (tx.ctaId, tx.warpId) = key
    · simp [CpAsyncArriveUnit.put, heq]
    · simpa [CpAsyncArriveUnit.put, Function.update_of_ne heq] using h.grouped uid tx hlook
  consistent key' info' hsome := by
    by_cases heq : key' = key
    · subst heq
      simp only [CpAsyncArriveUnit.put, Function.update_self, Option.some.injEq] at hsome
      rw [← hsome]
      exact hinfo
    · simp only [CpAsyncArriveUnit.put, Function.update_of_ne heq] at hsome
      exact h.consistent key' info' hsome

variable (config) in
theorem Follows.startTransaction (h : u.Follows l) (ctaId warpId : Nat) (access : MemAccess) :
    ∃ u' l', startTransaction config ctaId warpId u access = .ok u' ∧ u'.Follows l' ∧
      u'.nextTxUid = u.nextTxUid + 1 ∧ u'.log.filterMap LatchEvent.opening =
        u.log.filterMap LatchEvent.opening ++ [⟨u.nextTxUid, ctaId, warpId, access⟩] := by
  have hstart := h.start ctaId warpId access
  have hopening : (u.log ++ [LatchEvent.opened (CpAsyncTask.mk u.nextTxUid ctaId warpId access)]
      ).filterMap LatchEvent.opening = u.log.filterMap LatchEvent.opening ++
        [⟨u.nextTxUid, ctaId, warpId, access⟩] := by
    rw [List.filterMap_append]
    rfl
  unfold CpAsyncArriveUnit.startTransaction
  dsimp only
  split
  · obtain ⟨u', hok, hnext, hlog, hfollows⟩ := hstart.finalize (a := u.nextTxUid)
      (by rw [Table.lookup_insert, if_pos rfl])
    refine ⟨u', _, hok, hfollows, hnext, ?_⟩
    rw [hlog, List.filterMap_append, Latch.opening_fires, List.append_nil]
    exact hopening
  · exact ⟨_, _, rfl, hstart, rfl, hopening⟩

theorem Follows.startTransactions (h : u.Follows l) (ctaId warpId : Nat)
    (accesses : List MemAccess) :
    ∃ u' l', accesses.foldlM (CpAsyncArriveUnit.startTransaction config ctaId warpId) u = .ok u' ∧
      u'.Follows l' ∧ u'.log.filterMap LatchEvent.opening =
        u.log.filterMap LatchEvent.opening ++
          accesses.mapIdx fun i access => ⟨u.nextTxUid + i, ctaId, warpId, access⟩ := by
  induction accesses generalizing u l with
  | nil => exact ⟨u, l, rfl, h, by simp⟩
  | cons access rest ih =>
    obtain ⟨u₁, l₁, hok, h₁, hnext, hopening⟩ := h.startTransaction config
      ctaId warpId access
    obtain ⟨u', l', hrest, h', hopening'⟩ := ih h₁
    refine ⟨u', l', ?_, h', ?_⟩
    · rw [List.foldlM_cons, hok]
      exact hrest
    · rw [hopening', hopening, List.mapIdx_cons, hnext, List.append_assoc]
      have hindex : ∀ i, u.nextTxUid + 1 + i = u.nextTxUid + (i + 1) := fun i => by omega
      simp only [hindex]
      rfl

variable (config) in
/-- A `cp.async` instruction starts the transactions of its requests. -/
theorem Follows.warpReachesCpAsync (h : u.Follows l) (inst : CpAsyncInst) :
    ∃ u' l', u.warpReachesCpAsync config inst = .ok u' ∧ u'.Follows l' ∧
      u'.log.filterMap LatchEvent.opening = u.log.filterMap LatchEvent.opening ++
        (inst.requests config).mapIdx fun i access =>
          ⟨u.nextTxUid + i, inst.ctaId, inst.warpId, access⟩ := by
  unfold CpAsyncArriveUnit.warpReachesCpAsync
  split
  · rename_i hzero
    refine ⟨u, l, rfl, h, ?_⟩
    unfold CpAsyncInst.requests
    rw [if_pos hzero]
    simp
  · exact (h.put _ (h.consistent_infoOf (inst.ctaId, inst.warpId))).startTransactions _ _ _

/-- One lane of an arrive instruction. It stops at an assertion if the lane has no barrier,
or if the identifiers of the arrivals have come round. -/
theorem Follows.laneReachesArrive (h : u.Follows l) (inst : CpAsyncArriveInst) (lane : Nat) :
    Outcome (u.laneReachesArrive inst lane)
      (fun u' => (∃ l', u'.Follows l') ∧ u'.log.filterMap LatchEvent.asking =
        u.log.filterMap LatchEvent.asking ++
          [inst.laneArrival lane (u.log.filterMap LatchEvent.asking).length])
      (fun e => e = .noBarrier ∧ inst.barId lane = 2 ^ 32 - 1 ∨
        e = .arrivalExists ∧ 2 ^ 32 ≤ (u.log.filterMap LatchEvent.asking).length) := by
  unfold CpAsyncArriveUnit.laneReachesArrive
  apply outcome_bind
  apply outcome_require
  · intro _
    obtain ⟨r, hr⟩ : ∃ r, r = inst.laneArrival lane (u.log.filterMap LatchEvent.asking).length :=
      ⟨_, rfl⟩
    have hmark : r.mark = (u.log.filterMap LatchEvent.asking).length := by
      rw [hr]
      rfl
    have hwaits : ∀ uid, uid ∈ u.pendingTxUids inst.ctaId inst.warpId lane ↔
        ∃ t ∈ l.live, r.Needs t ∧ t.txUid = uid := by
      intro uid
      have hmem := h.mem_pendingTxUids r uid
      rw [hr] at hmem ⊢
      exact hmem
    dsimp only
    rw [← hr]
    split
    · rename_i hempty
      have hidle : ∀ t ∈ l.live, ¬ r.Needs t := by
        intro t ht hneeds
        have hin := (hwaits t.txUid).mpr ⟨t, ht, hneeds, rfl⟩
        rw [hempty] at hin
        cases hin
      refine ⟨⟨_, h.ask_idle hmark hidle⟩, ?_⟩
      dsimp only
      rw [List.filterMap_append]
      rfl
    · rename_i hsome
      apply outcome_bind
      apply outcome_require
      · intro hfree
        have hfree := of_decide_eq_true hfree
        obtain ⟨transactions, hfold, hlookup⟩ := addDependents_spec (a := u.nextArrivalUid)
          (u := { u with
            nextArrivalUid := inc32 u.nextArrivalUid
            arrivals := u.arrivals.insert u.nextArrivalUid
              ⟨r, (u.pendingTxUids inst.ctaId inst.warpId lane).toFinset⟩
            log := u.log ++ [LatchEvent.asked r] })
          (u.nodup_pendingTxUids inst.ctaId inst.warpId lane) (by
          intro uid huid
          obtain ⟨tx, hlook, -⟩ := CpAsyncArriveUnit.mem_pendingTxUids.mp huid
          exact ⟨tx, hlook⟩)
        rw [hfold]
        refine ⟨⟨_, h.ask_waits hmark hwaits hsome hfree hlookup⟩, ?_⟩
        dsimp only
        rw [List.filterMap_append]
        rfl
      · intro htaken
        right
        refine ⟨rfl, ?_⟩
        by_contra hfew
        exact of_decide_eq_false htaken (h.arrival_free (by omega))
  · intro hbar
    left
    exact ⟨rfl, by simpa using hbar⟩

/-- How an arrive instruction may stop. -/
def ArriveStops (lanes : List Nat) (inst : CpAsyncArriveInst) (count : Nat)
    (e : CpAsyncArriveFailure) : Prop :=
  (e = .noBarrier ∧ ∃ lane ∈ lanes, inst.barId lane = 2 ^ 32 - 1) ∨
    (e = .arrivalExists ∧ 2 ^ 32 ≤ count + lanes.length)

theorem Follows.lanesReachArrive (h : u.Follows l) (inst : CpAsyncArriveInst) (lanes : List Nat) :
    Outcome (lanes.foldlM (CpAsyncArriveUnit.laneReachesArrive inst) u)
      (fun u' => (∃ l', u'.Follows l') ∧ u'.log.filterMap LatchEvent.asking =
        u.log.filterMap LatchEvent.asking ++ lanes.mapIdx fun i lane =>
          inst.laneArrival lane ((u.log.filterMap LatchEvent.asking).length + i))
      (ArriveStops lanes inst (u.log.filterMap LatchEvent.asking).length) := by
  induction lanes generalizing u l with
  | nil => exact ⟨⟨l, h⟩, by simp⟩
  | cons lane rest ih =>
    rw [List.foldlM_cons]
    apply outcome_bind
    apply (h.laneReachesArrive inst lane).mono
    · rintro u₁ ⟨⟨l₁, h₁⟩, hasked⟩
      have hlength : (u₁.log.filterMap LatchEvent.asking).length =
          (u.log.filterMap LatchEvent.asking).length + 1 := by
        rw [hasked, List.length_append, List.length_singleton]
      apply (ih h₁).mono
      · rintro u' ⟨hfollows, hrest⟩
        refine ⟨hfollows, ?_⟩
        rw [hrest, hlength, hasked, List.mapIdx_cons, List.append_assoc]
        have hindex : ∀ n i, n + 1 + i = n + (i + 1) := fun n i => by omega
        simp only [hindex]
        rfl
      · rintro e (⟨he, lane', hmem, hbar⟩ | ⟨he, hcount⟩)
        · exact Or.inl ⟨he, lane', List.mem_cons_of_mem _ hmem, hbar⟩
        · refine Or.inr ⟨he, ?_⟩
          rw [List.length_cons]
          omega
    · rintro e (⟨he, hbar⟩ | ⟨he, hcount⟩)
      · exact Or.inl ⟨he, lane, List.mem_cons_self, hbar⟩
      · exact Or.inr ⟨he, by omega⟩

/-- The end of a transaction, live or not. -/
theorem Follows.complete (h : u.Follows l) (txUid : Nat) :
    ∃ u' l', u.finalizeCpAsyncTransaction txUid = .ok u' ∧ u'.Follows l' ∧
      ∀ tx, u.transactions.lookup txUid = some tx →
        ∃ fires, u'.log = u.log ++ .closed (tx.task txUid) :: fires ∧
          FiresOf (tx.task txUid) fires := by
  cases hlook : u.transactions.lookup txUid with
  | none =>
    refine ⟨u, l, ?_, h, by simp⟩
    unfold finalizeCpAsyncTransaction
    rw [hlook]
  | some tx =>
    obtain ⟨u', hok, -, hlog, h'⟩ := h.finalize hlook
    refine ⟨u', _, hok, h', ?_⟩
    rintro tx' htx'
    cases htx'
    refine ⟨_, hlog, ?_⟩
    intro e he
    obtain ⟨r, -, rfl⟩ := List.mem_map.mp he
    exact ⟨r, rfl⟩

theorem Follows.wait {key : Nat × Nat} {n : Nat} (h : u.Follows l)
    (hok : u.waitCpAsyncGroup key n = .ok u') : u'.Follows l := by
  unfold waitCpAsyncGroup at hok
  obtain ⟨_, -, hok⟩ := bind_eq_ok hok
  split at hok
  · cases hok
    exact ⟨h.sound, h.log, h.live, h.unfinished, h.pending, h.waits, h.one, h.dependents, h.nodup,
      h.fresh, h.marks, h.counted, h.grouped, h.consistent⟩
  · rename_i info hinfo
    obtain ⟨⟨satisfied, info'⟩, hwait, hok⟩ := bind_eq_ok hok
    cases hok
    have hwait' : info.waitGroup n = .ok (satisfied, info') := by
      cases hgroup : info.waitGroup n with
      | ok r =>
        rw [hgroup] at hwait
        cases hwait
        rfl
      | error e =>
        rw [hgroup] at hwait
        cases hwait
    have hput := h.put key ((h.consistent key info hinfo).waitGroup hwait')
    exact ⟨hput.sound, hput.log, hput.live, hput.unfinished, hput.pending, hput.waits, hput.one,
      hput.dependents, hput.nodup, hput.fresh, hput.marks, hput.counted, hput.grouped,
      hput.consistent⟩

theorem Follows.cleanupCta {ctaId : Nat} (h : u.Follows l)
    (hidle : ∀ entry ∈ u.transactions.entries, entry.2.ctaId ≠ ctaId) :
    (u.cleanupCta ctaId).Follows l := by
  refine ⟨h.sound, h.log, h.live, h.unfinished, h.pending, h.waits, h.one, h.dependents, h.nodup,
    h.fresh, h.marks, h.counted, ?_, ?_⟩
  · intro uid tx hlook
    have hcta := hidle ⟨uid, tx⟩ (AList.mem_lookup_iff.mp hlook)
    simp only [CpAsyncArriveUnit.cleanupCta]
    rw [if_neg hcta]
    exact h.grouped uid tx hlook
  · intro key info hsome
    simp only [CpAsyncArriveUnit.cleanupCta] at hsome
    split at hsome
    · cases hsome
    · exact h.consistent key info hsome

theorem Follows.others (h : u.Follows l) (count : Nat) :
    Follows { u with nextTxUid := u.nextTxUid + count } l := by
  refine ⟨h.sound, h.log, h.live, h.unfinished, h.pending, h.waits, h.one, h.dependents, h.nodup,
    ?_, h.marks, h.counted, h.grouped, ?_⟩
  · intro t ht
    have hlt := h.fresh t ht
    dsimp only
    omega
  · intro key info hsome
    exact (h.consistent key info hsome).mono (Nat.le_add_right _ _)

theorem Follows.step {op : Op} (h : u.Follows l) (hvalid : u.Valid op)
    (hok : step config u op = .ok u') : ∃ l', u'.Follows l' := by
  cases op with
  | cpAsync inst =>
    obtain ⟨u₁, l₁, hok₁, h₁, -⟩ := h.warpReachesCpAsync config inst
    cases hok.symm.trans hok₁
    exact ⟨l₁, h₁⟩
  | arrive inst => exact ((h.lanesReachArrive inst (inst.lanes config)).of_ok hok).1
  | complete txUid =>
    obtain ⟨u₁, l₁, hok₁, h₁, -⟩ := h.complete txUid
    cases hok.symm.trans hok₁
    exact ⟨l₁, h₁⟩
  | commit key =>
    cases hok
    exact ⟨l, h.put key ((h.consistent_infoOf key).commitGroup hvalid)⟩
  | wait key maxPendingGroups => exact ⟨l, h.wait hok⟩
  | cleanupCta ctaId =>
    cases hok
    exact ⟨l, h.cleanupCta hvalid⟩
  | others count =>
    cases hok
    exact ⟨l, h.others count⟩

end Follows

/-- Each lane of an arrive instruction arrives once: at once, or in the end of the last of
the transactions with its bytes that are live at the instruction. -/
structure ArrivesOnTime (config : CpAsyncConfig) (u : CpAsyncArriveUnit) : Prop where
  latched : Latched LaneArrival.Needs u.log
  live : ∀ t, (∃ tx, u.transactions.lookup t.txUid = some tx ∧ tx.task t.txUid = t) ↔
    .opened t ∈ u.log ∧ .closed t ∉ u.log
  dependents : ∀ uid tx a, u.transactions.lookup uid = some tx → a ∈ tx.dependentArrivalUids →
    ∃ arrival, u.arrivals.lookup a = some arrival ∧ uid ∈ arrival.pendingTxUids
  issues : ∀ inst, ∃ u', u.warpReachesCpAsync config inst = .ok u' ∧
    u'.log.filterMap LatchEvent.opening = u.log.filterMap LatchEvent.opening ++
      (inst.requests config).mapIdx fun i access =>
        ⟨u.nextTxUid + i, inst.ctaId, inst.warpId, access⟩
  arrives : ∀ inst, Outcome (u.warpReachesCpAsyncMbarrierArrive config inst)
    (fun u' => u'.log.filterMap LatchEvent.asking = u.log.filterMap LatchEvent.asking ++
      (inst.lanes config).mapIdx fun i lane =>
        inst.laneArrival lane ((u.log.filterMap LatchEvent.asking).length + i))
    (ArriveStops (inst.lanes config) inst (u.log.filterMap LatchEvent.asking).length)
  completes : ∀ uid, ∃ u', u.finalizeCpAsyncTransaction uid = .ok u' ∧
    ∀ tx, u.transactions.lookup uid = some tx →
      ∃ fires, u'.log = u.log ++ .closed (tx.task uid) :: fires ∧ FiresOf (tx.task uid) fires

theorem Follows.onTime {l : Latch CpAsyncTask LaneArrival} (h : u.Follows l) :
    u.ArrivesOnTime config where
  latched := by
    rw [← h.log]
    exact h.sound.latched
  live t := by
    rw [← h.live, ← h.log]
    exact h.sound.live t
  dependents uid tx a hlook hmem := (h.dependents uid tx hlook a).mp hmem
  issues inst := by
    obtain ⟨u', l', hok, -, hopening⟩ := h.warpReachesCpAsync config inst
    exact ⟨u', hok, hopening⟩
  arrives inst := (h.lanesReachArrive inst (inst.lanes config)).imp fun u' hu' => hu'.2
  completes uid := by
    obtain ⟨u', l', hok, -, hlog⟩ := h.complete uid
    exact ⟨u', hok, hlog⟩

instance (u : CpAsyncArriveUnit) (op : Op) : Decidable (u.Valid op) :=
  match op with
  | .commit _ => inferInstanceAs (Decidable (_ → _))
  | .cleanupCta _ => inferInstanceAs (Decidable (∀ _ ∈ _, _))
  | .cpAsync _ => isTrue trivial
  | .arrive _ => isTrue trivial
  | .complete _ => isTrue trivial
  | .wait _ _ => isTrue trivial
  | .others _ => isTrue trivial

end CpAsyncArriveUnit

end FlashGpuSim
