import FlashGpuSim.Dram.MemoryPartition
import FlashGpuSim.Lib.History

/-!
The simple DRAM model holds at most as many requests as configured. The credits that are
out count them, every request that was taken comes back to its sub-partition once and in
order, and a sub-partition with no request in flight always has a credit.
-/

namespace FlashGpuSim

open Lib

/-- A request that went to the DRAM. -/
structure Taken (n : Nat) where
  spid : Fin n
  mf : DramFetch
  now : Nat

/-- A request that came back, or was retired. -/
structure Departed (n : Nat) where
  spid : Fin n
  mf : DramFetch
  now : Nat
  retired : Bool

namespace DramEvent

variable {n : Nat}

def taken? : DramEvent n → Option (Taken n)
  | taken spid mf now => some ⟨spid, mf, now⟩
  | arrived _ _ | returned _ _ _ | retired _ _ _ | drained _ _ => none

def departed? : DramEvent n → Option (Departed n)
  | returned spid mf now => some ⟨spid, mf, now, false⟩
  | retired spid mf now => some ⟨spid, mf, now, true⟩
  | arrived _ _ | taken _ _ _ | drained _ _ => none

/-- The request that arrives at a sub-partition. -/
def arrivedAt (p : Fin n) : DramEvent n → Option DramFetch
  | arrived spid mf => if spid = p then some mf else none
  | taken _ _ _ | returned _ _ _ | retired _ _ _ | drained _ _ => none

def takenAt (p : Fin n) : DramEvent n → Option DramFetch
  | taken spid mf _ => if spid = p then some mf else none
  | arrived _ _ | returned _ _ _ | retired _ _ _ | drained _ _ => none

def returnedAt (p : Fin n) : DramEvent n → Option DramFetch
  | returned spid mf _ => if spid = p then some mf else none
  | arrived _ _ | taken _ _ _ | retired _ _ _ | drained _ _ => none

def drainedAt (p : Fin n) : DramEvent n → Option DramFetch
  | drained spid mf => if spid = p then some mf else none
  | arrived _ _ | taken _ _ _ | returned _ _ _ | retired _ _ _ => none

end DramEvent

/-! ### Replies and credits -/

theorem DramFetch.setReply_ok {mf : DramFetch} (h : mf.isWriteback = false) :
    ∃ reply, mf.setReply = .ok reply := by
  unfold setReply
  rw [require_pass (by rw [h]; rfl)]
  obtain ⟨id, dataSize, accessType, isWrite, kind, fits, home⟩ := mf
  cases kind with
  | readRequest =>
    obtain rfl : isWrite = false := fits.1 rfl
    exact ⟨_, rfl⟩
  | writeRequest =>
    obtain rfl : isWrite = true := fits.2 rfl
    exact ⟨_, rfl⟩
  | readReply => exact ⟨_, rfl⟩
  | writeAck => exact ⟨_, rfl⟩

namespace ArbitrationMetadata

variable {n : Nat} {a : ArbitrationMetadata n} {spid : Fin n} {owners : List (Fin n)}

def pool (a : ArbitrationMetadata n) : CreditPool (Fin n) := ⟨a.privateCredit, a.sharedCredit⟩

/-- The credits count the requests in flight, and the shared ones stay below their limit. -/
structure Balanced (limit : Int) (owners : List (Fin n)) (a : ArbitrationMetadata n) : Prop where
  pool : a.pool.Balanced 1 owners
  private_limit : a.privateCreditLimit = 1
  shared_limit : a.sharedCreditLimit = limit
  shared_le : a.sharedCredit ≤ limit

variable {limit : Int}

theorem Balanced.perm {owners' : List (Fin n)} (h : Balanced limit owners a)
    (hperm : owners.Perm owners') : Balanced limit owners' a :=
  ⟨h.pool.perm hperm, h.private_limit, h.shared_limit, h.shared_le⟩

theorem Balanced.returnCredit (h : Balanced limit (spid :: owners) a) :
    ∃ a', a.returnCredit spid = .ok a' ∧ Balanced limit owners a' := by
  unfold ArbitrationMetadata.returnCredit
  by_cases hpos : 0 < a.privateCredit spid
  · have hpool := h.pool.returnOwn hpos
    have hshared : 0 ≤ a.sharedCredit := hpool.shared_nonneg
    rw [if_pos hpos]
    dsimp only
    rw [require_pass (decide_eq_true hshared)]
    exact ⟨_, rfl, hpool, h.private_limit, h.shared_limit, h.shared_le⟩
  · have hpool := h.pool.returnShared hpos
    have hshared : 0 ≤ a.sharedCredit - 1 := hpool.shared_nonneg
    have hle := h.shared_le
    rw [if_neg hpos]
    dsimp only
    rw [require_pass (decide_eq_true hshared)]
    refine ⟨_, rfl, hpool, h.private_limit, h.shared_limit, ?_⟩
    dsimp only
    omega

theorem Balanced.borrowCredit (h : Balanced limit owners a) (hlimit : limit ≠ 0)
    (hcredits : a.hasCredits spid = true) :
    ∃ a', a.borrowCredit spid = .ok a' ∧ Balanced limit (spid :: owners) a' := by
  unfold hasCredits at hcredits
  unfold ArbitrationMetadata.borrowCredit
  split
  · rename_i hown
    rw [h.private_limit] at hown
    exact ⟨_, rfl, h.pool.borrowOwn hown, h.private_limit, h.shared_limit, h.shared_le⟩
  · rename_i hown
    rw [if_neg hown] at hcredits
    rw [if_pos hcredits]
    refine ⟨_, rfl, h.pool.borrowShared spid, h.private_limit, h.shared_limit, ?_⟩
    unfold sharedLeft at hcredits
    rw [h.shared_limit, decide_eq_false hlimit, Bool.false_or] at hcredits
    exact of_decide_eq_true hcredits

/-- A sub-partition with no request in flight has its own credit. -/
theorem Balanced.hasCredits (h : Balanced limit owners a) (hnone : spid ∉ owners) :
    a.hasCredits spid = true := by
  have hown : a.privateCredit spid = 0 := h.pool.free hnone
  unfold ArbitrationMetadata.hasCredits
  rw [hown, h.private_limit]
  rfl

end ArbitrationMetadata

namespace MemoryPartition

variable {cfg : MemoryConfig} {c c' : MemoryPartition cfg} {now : Nat}

/-! ### The sub-partitions of a channel -/

theorem destSpid_home (c : MemoryPartition cfg) (p : Fin cfg.n) :
    c.destSpid (c.subPartitionId p) = .ok p := by
  have hlt : p.val < 2 ^ 32 := p.isLt.trans cfg.nSubPartition.isLt
  have hlocal : (c.subPartitionId p - c.mId * cfg.nSubPartition).toNat = p.val := by
    unfold subPartitionId
    rw [BitVec.add_comm, BitVec.add_sub_cancel, BitVec.toNat_ofNat, Nat.mod_eq_of_lt hlt]
  unfold destSpid
  dsimp only
  rw [dif_pos (hlocal ▸ p.isLt)]
  have hp : (⟨_, hlocal ▸ p.isLt⟩ : Fin cfg.n) = p := Fin.ext hlocal
  rw [hp, require_pass (decide_eq_true rfl)]
  rfl

/-! ### The history -/

variable (c)

def takens : List (Taken cfg.n) := c.log.filterMap DramEvent.taken?

def departures : List (Departed cfg.n) := c.log.filterMap DramEvent.departed?

/-- A request comes back to the sub-partition it was taken from, after the latency; a
write-back is retired. -/
structure Answers (latency : Nat) (d : Departed cfg.n) (t : Taken cfg.n) : Prop where
  spid : d.spid = t.spid
  mf : d.mf = t.mf
  late : t.now + latency ≤ d.now
  retired : d.retired = t.mf.isWriteback

/-- A request that was taken waits in the latency queue. -/
structure Queued (home : Fin cfg.n → BitVec 32) (t : Taken cfg.n) (d : DramDelay) : Prop where
  req : d.req = t.mf
  ready : d.readyCycle = t.now + cfg.dramLatency.toNat
  home : t.mf.subPartitionId = home t.spid

/-- The requests `pending` are in flight. -/
structure InFlight (c : MemoryPartition cfg) (pending : List (Taken cfg.n)) : Prop where
  queue : List.Forall₂ (Queued c.subPartitionId) pending c.dramLatencyQueue
  credits : c.arbitrationMetadata.Balanced cfg.sharedCreditLimit.toInt (pending.map Taken.spid)
  served : ∃ served, c.takens = served ++ pending ∧
    List.Forall₂ (Answers cfg.dramLatency.toNat) c.departures served
  home : ∀ p, ∀ mf ∈ c.l2DramQueue p, mf.subPartitionId = c.subPartitionId p
  arrivals : ∀ p, c.log.filterMap (DramEvent.arrivedAt p) =
    c.log.filterMap (DramEvent.takenAt p) ++ c.l2DramQueue p
  replies : ∀ p, List.Forall₂ (fun mf reply => DramFetch.setReply mf = .ok reply)
    (c.log.filterMap (DramEvent.returnedAt p))
    (c.log.filterMap (DramEvent.drainedAt p) ++ c.dramL2Queue p)

variable {c}
variable {pending : List (Taken cfg.n)} {t : Taken cfg.n} {d : DramDelay} {rest : List DramDelay}

/-! ### Requests that leave -/

/-- The first request in flight leaves: the history of its departure is `e`. -/
theorem InFlight.depart {a : ArbitrationMetadata cfg.n} {e : DramEvent cfg.n} {x : Departed cfg.n}
    (h : c.InFlight (t :: pending)) (hrest : c.dramLatencyQueue = d :: rest)
    (hcredits : a.Balanced cfg.sharedCreditLimit.toInt (pending.map Taken.spid))
    (he : e.departed? = some x) (htaken : e.taken? = none)
    (hanswers : Answers cfg.dramLatency.toNat x t)
    (harrived : ∀ p, e.arrivedAt p = none) (htakenAt : ∀ p, e.takenAt p = none)
    (hmId : c'.mId = c.mId) (hl2 : c'.l2DramQueue = c.l2DramQueue)
    (hqueue : c'.dramLatencyQueue = rest) (harb : c'.arbitrationMetadata = a)
    (hlog : c'.log = c.log ++ [e])
    (hreplies : ∀ p, List.Forall₂ (fun mf reply => DramFetch.setReply mf = .ok reply)
      (c'.log.filterMap (DramEvent.returnedAt p))
      (c'.log.filterMap (DramEvent.drainedAt p) ++ c'.dramL2Queue p)) :
    c'.InFlight pending := by
  have hhome : ∀ p, c'.subPartitionId p = c.subPartitionId p := by
    intro p
    unfold subPartitionId
    rw [hmId]
  have hpair := h.queue
  rw [hrest, List.forall₂_cons] at hpair
  constructor
  · rw [hqueue]
    refine hpair.2.imp (fun t d hq => ⟨hq.req, hq.ready, ?_⟩)
    rw [hhome]
    exact hq.home
  · rw [harb]
    exact hcredits
  · obtain ⟨served, htakens, hserved⟩ := h.served
    refine ⟨served ++ [t], ?_, ?_⟩
    · unfold takens at htakens ⊢
      rw [hlog, filterMap_concat_none htaken, htakens, List.append_assoc]
      rfl
    · unfold departures at hserved ⊢
      rw [hlog, filterMap_concat_some he]
      exact List.rel_append hserved (.cons hanswers .nil)
  · intro p mf hmf
    rw [hl2] at hmf
    rw [hhome]
    exact h.home p mf hmf
  · intro p
    rw [hlog, hl2, filterMap_concat_none (harrived p), filterMap_concat_none (htakenAt p)]
    exact h.arrivals p
  · exact hreplies

theorem InFlight.destSpid (h : c.InFlight (t :: pending)) (hrest : c.dramLatencyQueue = d :: rest) :
    d.req = t.mf ∧ d.readyCycle = t.now + cfg.dramLatency.toNat ∧
      c.destSpid t.mf.subPartitionId = .ok t.spid := by
  have hpair := h.queue
  rw [hrest, List.forall₂_cons] at hpair
  refine ⟨hpair.1.req, hpair.1.ready, ?_⟩
  rw [hpair.1.home]
  exact destSpid_home c t.spid

theorem setDone_eq {mf : DramFetch} {spid : Fin cfg.n} {a : ArbitrationMetadata cfg.n}
    (hdest : c.destSpid mf.subPartitionId = .ok spid) (hwb : mf.isWriteback = true)
    (hreturn : c.arbitrationMetadata.returnCredit spid = .ok a) :
    c.setDone mf now =
      .ok { c with arbitrationMetadata := a, log := c.log ++ [DramEvent.retired spid mf now] } := by
  unfold setDone MemoryPartition.returnCredit
  rw [hdest]
  dsimp only [bind, Except.bind]
  rw [if_pos hwb, hreturn]
  rfl

theorem dramL2QueuePush_eq {reply : DramFetch} {spid : Fin cfg.n}
    (hfull : c.dramL2QueueFull spid = false) :
    c.dramL2QueuePush spid reply = .ok
      { c with
        dramL2Queue := Function.update c.dramL2Queue spid (c.dramL2Queue spid ++ [reply]) } := by
  unfold dramL2QueuePush
  rw [hfull]
  rfl

theorem reply_eq {mf reply : DramFetch} {spid : Fin cfg.n} {a : ArbitrationMetadata cfg.n}
    (hdest : c.destSpid mf.subPartitionId = .ok spid) (hreply : mf.setReply = .ok reply)
    (hfull : c.dramL2QueueFull spid = false)
    (hreturn : c.arbitrationMetadata.returnCredit spid = .ok a) :
    c.reply mf now = .ok (some
      { c with
        dramL2Queue := Function.update c.dramL2Queue spid (c.dramL2Queue spid ++ [reply])
        arbitrationMetadata := a
        log := c.log ++ [DramEvent.returned spid mf now] }) := by
  unfold MemoryPartition.reply
  rw [hdest]
  dsimp only [bind, Except.bind]
  rw [hfull, if_neg Bool.false_ne_true, hreply]
  dsimp only
  rw [dramL2QueuePush_eq hfull]
  dsimp only
  unfold MemoryPartition.returnCredit
  dsimp only [bind, Except.bind]
  rw [hreturn]
  rfl

theorem returnHead_spec (h : c.InFlight (t :: pending)) (hrest : c.dramLatencyQueue = d :: rest)
    (hready : d.readyCycle ≤ now) :
    Outcome (c.returnHead now d rest)
      (fun left => ∀ c', left = some c' → c'.InFlight pending ∧ c'.dramLatencyQueue = rest)
      (fun _ => False) := by
  obtain ⟨hreq, hcycle, hdest⟩ := h.destSpid hrest
  have hlate : t.now + cfg.dramLatency.toNat ≤ now := hcycle ▸ hready
  obtain ⟨a, hreturn, hcredits⟩ := h.credits.returnCredit
  unfold returnHead
  dsimp only
  split
  · exact nofun
  · rename_i hbudget
    rw [Bool.not_eq_true', Bool.not_eq_false, hreq] at hbudget
    rw [hreq]
    unfold SimpleDramServiceBudget.consume
    split
    · -- a write-back is retired
      rename_i hwb
      rw [setDone_eq hdest hwb hreturn]
      dsimp only [bind, Except.bind, pure, Except.pure, Functor.map, Except.map]
      rw [require_pass hbudget]
      rintro c' hc'
      cases hc'
      refine ⟨h.depart hrest hcredits (e := .retired t.spid t.mf now) rfl rfl
        ⟨rfl, rfl, hlate, hwb.symm⟩ (fun _ => rfl) (fun _ => rfl) rfl rfl rfl rfl rfl ?_, rfl⟩
      intro p
      dsimp only
      rw [filterMap_concat_none rfl, filterMap_concat_none rfl]
      exact h.replies p
    · rename_i hwb
      rw [Bool.not_eq_true] at hwb
      cases hfull : c.dramL2QueueFull t.spid with
      | true =>
        unfold MemoryPartition.reply
        rw [hdest]
        dsimp only [bind, Except.bind]
        rw [hfull]
        exact nofun
      | false =>
        obtain ⟨reply, hreply⟩ := DramFetch.setReply_ok hwb
        rw [reply_eq hdest hreply hfull hreturn]
        dsimp only [bind, Except.bind, pure, Except.pure]
        rw [require_pass hbudget]
        rintro c' hc'
        cases hc'
        refine ⟨h.depart hrest hcredits (e := .returned t.spid t.mf now) rfl rfl
          ⟨rfl, rfl, hlate, hwb.symm⟩ (fun _ => rfl) (fun _ => rfl) rfl rfl rfl rfl rfl ?_, rfl⟩
        intro p
        dsimp only
        rw [filterMap_concat_none (f := DramEvent.drainedAt p) rfl]
        rcases eq_or_ne t.spid p with rfl | hp
        · have hhere : DramEvent.returnedAt t.spid (.returned t.spid t.mf now) = some t.mf :=
            if_pos rfl
          rw [filterMap_concat_some hhere, Function.update_self, ← List.append_assoc]
          exact List.rel_append (h.replies t.spid) (.cons hreply .nil)
        · have hthere : DramEvent.returnedAt p (.returned t.spid t.mf now) = none := if_neg hp
          rw [filterMap_concat_none hthere, Function.update_of_ne hp.symm]
          exact h.replies p

theorem returnLoop_spec (now turns : Nat) (sawReady : Bool) (h : c.InFlight pending) :
    Outcome (returnLoop now turns c sawReady) (fun r => ∃ pending', r.1.InFlight pending')
      (fun _ => False) := by
  induction turns generalizing c pending sawReady with
  | zero => exact ⟨pending, h⟩
  | succ turns ih =>
    unfold returnLoop
    split
    · exact ⟨pending, h⟩
    · rename_i d rest hrest
      split
      · exact ⟨pending, h⟩
      · rename_i hready
        cases pending with
        | nil =>
          have hpair := h.queue
          rw [hrest] at hpair
          cases hpair
        | cons t pending =>
          apply outcome_bind
          refine (returnHead_spec h hrest (Nat.le_of_not_lt hready)).imp (fun left hleft => ?_)
          cases left with
          | none => exact ⟨_, h⟩
          | some c' => exact ih true (hleft c' rfl).1

theorem returnHead_queue (hok : c.returnHead now d rest = .ok (some c')) :
    c'.dramLatencyQueue = rest := by
  unfold returnHead at hok
  dsimp only at hok
  split at hok
  · cases hok
  · split at hok
    · obtain ⟨left, -, hok⟩ := bind_eq_ok hok
      cases left with
      | none => cases hok
      | some c₁ =>
        obtain ⟨budget, -, hok⟩ := bind_eq_ok hok
        cases hok
        rfl
    · obtain ⟨left, -, hok⟩ := bind_eq_ok hok
      cases left with
      | none => cases hok
      | some c₁ =>
        obtain ⟨budget, -, hok⟩ := bind_eq_ok hok
        cases hok
        rfl

/-- A turn more changes nothing once there are as many turns as requests. -/
theorem returnLoop_enough (now turns : Nat) (sawReady : Bool)
    (h : c.dramLatencyQueue.length ≤ turns) :
    returnLoop now (turns + 1) c sawReady = returnLoop now turns c sawReady := by
  induction turns generalizing c sawReady with
  | zero =>
    have hnil : c.dramLatencyQueue = [] := List.length_eq_zero_iff.mp (Nat.le_zero.mp h)
    unfold returnLoop
    rw [hnil]
  | succ turns ih =>
    unfold returnLoop
    split
    · rfl
    · rename_i d rest hrest
      split
      · rfl
      · cases hhead : c.returnHead now d rest with
        | error e => rfl
        | ok left =>
          cases left with
          | none => rfl
          | some c' =>
            refine ih true ?_
            rw [returnHead_queue hhead]
            rw [hrest] at h
            exact Nat.le_of_succ_le_succ h

/-! ### Requests that are taken -/

theorem issue_spec (now : Nat) {p : Fin cfg.n} {mf : DramFetch} {tail : List DramFetch}
    (h : c.InFlight pending) (hlimit : cfg.sharedCreditLimit.toInt ≠ 0)
    (hqueue : c.l2DramQueue p = mf :: tail) (hcan : c.canIssueToDram p = true)
    (hbudget : c.issueBudget.canService (cfg.atoms mf) = true) :
    ∃ c', c.issue now p mf tail = .ok c' ∧ c'.InFlight (pending ++ [⟨p, mf, now⟩]) := by
  unfold canIssueToDram at hcan
  rw [Bool.and_eq_true] at hcan
  obtain ⟨a, hborrow, hcredits⟩ := h.credits.borrowCredit hlimit hcan.1
  have hhome : mf.subPartitionId = c.subPartitionId p := h.home p mf (by simp [hqueue])
  unfold issue SimpleDramServiceBudget.consume
  rw [hborrow]
  dsimp only [bind, Except.bind]
  rw [require_pass hbudget]
  have hqueued : Queued c.subPartitionId ⟨p, mf, now⟩ ⟨now + cfg.dramLatency.toNat, mf⟩ := ⟨rfl, rfl, hhome⟩
  have hhere : DramEvent.taken? (.taken p mf now) = some ⟨p, mf, now⟩ := rfl
  refine ⟨_, rfl, ?_⟩
  constructor
  · exact List.rel_append h.queue (.cons hqueued .nil)
  · rw [List.map_append]
    exact hcredits.perm (List.perm_append_singleton _ _).symm
  · obtain ⟨served, htakens, hserved⟩ := h.served
    refine ⟨served, ?_, ?_⟩
    · unfold takens at htakens ⊢
      dsimp only
      rw [filterMap_concat_some hhere, htakens, List.append_assoc]
    · unfold departures at hserved ⊢
      dsimp only
      rw [filterMap_concat_none rfl]
      exact hserved
  · intro q x hx
    rcases eq_or_ne q p with rfl | hq
    · dsimp only at hx
      rw [Function.update_self] at hx
      exact h.home q x (by rw [hqueue]; exact List.mem_cons_of_mem _ hx)
    · dsimp only at hx
      rw [Function.update_of_ne hq] at hx
      exact h.home q x hx
  · intro q
    have harrivals := h.arrivals q
    dsimp only
    rw [filterMap_concat_none (f := DramEvent.arrivedAt q) rfl, harrivals]
    rcases eq_or_ne p q with rfl | hq
    · have hhere : DramEvent.takenAt p (.taken p mf now) = some mf := if_pos rfl
      rw [filterMap_concat_some hhere, Function.update_self, hqueue, List.append_assoc]
      rfl
    · have hthere : DramEvent.takenAt q (.taken p mf now) = none := if_neg hq
      rw [filterMap_concat_none hthere, Function.update_of_ne hq.symm]
  · intro q
    dsimp only
    rw [filterMap_concat_none rfl, filterMap_concat_none rfl]
    exact h.replies q

theorem issueScan_spec (now : Nat) (order : List (Fin cfg.n)) (saw : Bool)
    (h : c.InFlight pending) (hlimit : cfg.sharedCreditLimit.toInt ≠ 0) :
    Outcome (c.issueScan now order saw)
      (fun r => ∀ c', r.1 = some c' → ∃ pending', c'.InFlight pending') (fun _ => False) := by
  induction order generalizing saw with
  | nil => exact nofun
  | cons p order ih =>
    unfold issueScan
    split
    · exact ih saw
    · rename_i mf tail hqueue
      split
      · exact ih true
      · rename_i hcan
        split
        · exact nofun
        · rename_i hbudget
          rw [Bool.not_eq_true', Bool.not_eq_false] at hcan hbudget
          obtain ⟨c', hissue, hflight⟩ := issue_spec now h hlimit hqueue hcan hbudget
          rw [hissue]
          rintro x hx
          cases hx
          exact ⟨_, hflight⟩

theorem issueLoop_spec (now turns : Nat) (saw : Bool) (h : c.InFlight pending)
    (hlimit : cfg.sharedCreditLimit.toInt ≠ 0) :
    Outcome (issueLoop now turns c saw) (fun r => ∃ pending', r.1.InFlight pending')
      (fun _ => False) := by
  induction turns generalizing c pending saw with
  | zero => exact ⟨pending, h⟩
  | succ turns ih =>
    unfold issueLoop
    apply outcome_bind
    refine (issueScan_spec now c.issueOrder saw h hlimit).imp (fun ⟨next, saw'⟩ hnext => ?_)
    cases next with
    | none => exact ⟨pending, h⟩
    | some c' =>
      obtain ⟨pending', hflight⟩ := hnext c' rfl
      exact ih saw' hflight

theorem waiting_eq (c : MemoryPartition cfg) : c.waiting = ∑ p, (c.l2DramQueue p).length :=
  List.sum_ofFn

/-- A request that is taken no longer waits in L2. -/
theorem issueScan_waiting {order : List (Fin cfg.n)} {saw saw' : Bool}
    (hok : c.issueScan now order saw = .ok (some c', saw')) : c'.waiting + 1 = c.waiting := by
  induction order generalizing saw with
  | nil => cases hok
  | cons p order ih =>
    unfold issueScan at hok
    split at hok
    · exact ih hok
    · rename_i mf tail hqueue
      split at hok
      · exact ih hok
      · split at hok
        · cases hok
        · obtain ⟨c₁, hissue, hok⟩ := bind_eq_ok hok
          cases hok
          unfold issue at hissue
          obtain ⟨a, -, hissue⟩ := bind_eq_ok hissue
          obtain ⟨budget, -, hissue⟩ := bind_eq_ok hissue
          cases hissue
          have hothers : ∑ q ∈ Finset.univ.erase p,
                (Function.update c.l2DramQueue p tail q).length =
              ∑ q ∈ Finset.univ.erase p, (c.l2DramQueue q).length := by
            apply Finset.sum_congr rfl
            intro q hq
            rw [Function.update_of_ne (Finset.ne_of_mem_erase hq)]
          rw [waiting_eq, waiting_eq, ← Finset.add_sum_erase _ _ (Finset.mem_univ p),
            ← Finset.add_sum_erase _ (fun q => (c.l2DramQueue q).length) (Finset.mem_univ p)]
          dsimp only
          rw [hothers, Function.update_self, hqueue, List.length_cons]
          ring

theorem issueScan_empty (h : ∀ p, c.l2DramQueue p = []) (now : Nat) (order : List (Fin cfg.n))
    (saw : Bool) : c.issueScan now order saw = .ok (none, saw) := by
  induction order with
  | nil => rfl
  | cons p order ih =>
    unfold issueScan
    rw [h p]
    exact ih

/-- A turn more changes nothing once there are as many turns as requests of L2. -/
theorem issueLoop_enough (now turns : Nat) (saw : Bool) (h : c.waiting ≤ turns) :
    issueLoop now (turns + 1) c saw = issueLoop now turns c saw := by
  induction turns generalizing c saw with
  | zero =>
    have hempty : ∀ p, c.l2DramQueue p = [] := by
      rw [waiting_eq, Nat.le_zero, Finset.sum_eq_zero_iff] at h
      exact fun p => List.length_eq_zero_iff.mp (h p (Finset.mem_univ p))
    unfold issueLoop
    rw [issueScan_empty hempty]
    rfl
  | succ turns ih =>
    unfold issueLoop
    cases hscan : c.issueScan now c.issueOrder saw with
    | error e => rfl
    | ok r =>
      obtain ⟨next, saw'⟩ := r
      cases next with
      | none => rfl
      | some c' =>
        have hwaiting := issueScan_waiting hscan
        exact ih saw' (by omega)

/-! ### Every step -/

theorem InFlight.withBudgets (h : c.InFlight pending) (issue return_ : SimpleDramServiceBudget) :
    InFlight { c with issueBudget := issue, returnBudget := return_ } pending :=
  ⟨h.queue, h.credits, h.served, h.home, h.arrivals, h.replies⟩

theorem simpleDramModelCycle_spec (now : Nat) (h : c.InFlight pending)
    (hlimit : cfg.sharedCreditLimit.toInt ≠ 0) :
    Outcome (c.simpleDramModelCycle now) (fun c' => ∃ pending', c'.InFlight pending')
      (fun _ => False) := by
  unfold simpleDramModelCycle
  dsimp only
  apply outcome_bind
  refine (returnLoop_spec now _ false
    (h.withBudgets c.issueBudget.beginTick c.returnBudget.beginTick)).imp ?_
  rintro ⟨c₁, sawReady⟩ ⟨pending₁, h₁⟩
  have hidle : ∃ pending', InFlight
      (if sawReady = true then c₁
        else { c₁ with returnBudget := c₁.returnBudget.discardIdleCredit }) pending' := by
    split
    · exact ⟨pending₁, h₁⟩
    · exact ⟨pending₁, h₁.withBudgets c₁.issueBudget _⟩
  obtain ⟨pending₂, h₂⟩ := hidle
  apply outcome_bind
  refine (issueLoop_spec now _ false h₂ hlimit).imp ?_
  rintro ⟨c₃, sawRequest⟩ ⟨pending₃, h₃⟩
  change ∃ pending', InFlight (if sawRequest = true then c₃
    else { c₃ with issueBudget := c₃.issueBudget.discardIdleCredit }) pending'
  split
  · exact ⟨pending₃, h₃⟩
  · exact ⟨pending₃, h₃.withBudgets _ c₃.returnBudget⟩

theorem InFlight.arrive {p : Fin cfg.n} {mf : DramFetch} (h : c.InFlight pending)
    (hhome : mf.subPartitionId = c.subPartitionId p) :
    InFlight
      { c with
        l2DramQueue := Function.update c.l2DramQueue p (c.l2DramQueue p ++ [mf])
        log := c.log ++ [DramEvent.arrived p mf] } pending := by
  constructor
  · exact h.queue
  · exact h.credits
  · obtain ⟨served, htakens, hserved⟩ := h.served
    refine ⟨served, ?_, ?_⟩
    · unfold takens at htakens ⊢
      dsimp only
      rw [filterMap_concat_none rfl]
      exact htakens
    · unfold departures at hserved ⊢
      dsimp only
      rw [filterMap_concat_none rfl]
      exact hserved
  · intro q x hx
    dsimp only at hx
    rcases eq_or_ne q p with rfl | hq
    · rw [Function.update_self, List.mem_append, List.mem_singleton] at hx
      rcases hx with hx | rfl
      · exact h.home q x hx
      · exact hhome
    · rw [Function.update_of_ne hq] at hx
      exact h.home q x hx
  · intro q
    dsimp only
    rw [filterMap_concat_none (f := DramEvent.takenAt q) rfl]
    rcases eq_or_ne p q with rfl | hq
    · have hhere : DramEvent.arrivedAt p (.arrived p mf) = some mf := if_pos rfl
      rw [filterMap_concat_some hhere, Function.update_self, h.arrivals, List.append_assoc]
    · have hthere : DramEvent.arrivedAt q (.arrived p mf) = none := if_neg hq
      rw [filterMap_concat_none hthere, Function.update_of_ne hq.symm]
      exact h.arrivals q
  · intro q
    dsimp only
    rw [filterMap_concat_none rfl, filterMap_concat_none rfl]
    exact h.replies q

theorem InFlight.drain {p : Fin cfg.n} {mf : DramFetch} {tail : List DramFetch}
    (h : c.InFlight pending) (hqueue : c.dramL2Queue p = mf :: tail) :
    InFlight
      { c with
        dramL2Queue := Function.update c.dramL2Queue p tail
        log := c.log ++ [DramEvent.drained p mf] } pending := by
  constructor
  · exact h.queue
  · exact h.credits
  · obtain ⟨served, htakens, hserved⟩ := h.served
    refine ⟨served, ?_, ?_⟩
    · unfold takens at htakens ⊢
      dsimp only
      rw [filterMap_concat_none rfl]
      exact htakens
    · unfold departures at hserved ⊢
      dsimp only
      rw [filterMap_concat_none rfl]
      exact hserved
  · exact h.home
  · intro q
    dsimp only
    rw [filterMap_concat_none rfl, filterMap_concat_none rfl]
    exact h.arrivals q
  · intro q
    have hreplies := h.replies q
    dsimp only
    rw [filterMap_concat_none (f := DramEvent.returnedAt q) rfl]
    rcases eq_or_ne p q with rfl | hq
    · have hhere : DramEvent.drainedAt p (.drained p mf) = some mf := if_pos rfl
      rw [hqueue] at hreplies
      rw [filterMap_concat_some hhere, Function.update_self, List.append_assoc]
      exact hreplies
    · have hthere : DramEvent.drainedAt q (.drained p mf) = none := if_neg hq
      rw [filterMap_concat_none hthere, Function.update_of_ne hq.symm]
      exact hreplies

theorem step_spec {o : DramOp cfg.n} (h : c.InFlight pending) (hallowed : c.allowed o)
    (hlimit : cfg.sharedCreditLimit.toInt ≠ 0) :
    Outcome (c.step o) (fun c' => ∃ pending', c'.InFlight pending') (fun _ => False) := by
  cases o with
  | arrive p mf => exact ⟨pending, h.arrive hallowed⟩
  | drain p =>
    cases hqueue : c.dramL2Queue p with
    | nil => exact absurd hqueue hallowed
    | cons mf tail =>
      have hstep : c.step (.drain p) = .ok { c with
          dramL2Queue := Function.update c.dramL2Queue p tail
          log := c.log ++ [DramEvent.drained p mf] } := by
        unfold step
        dsimp only
        rw [hqueue]
      rw [hstep]
      exact ⟨pending, h.drain hqueue⟩
  | cycle now => exact simpleDramModelCycle_spec now h hlimit

theorem inFlight_make {mId : BitVec 32} (hok : make cfg mId = .ok c) : c.InFlight [] := by
  unfold make at hok
  obtain ⟨a, ha, hok⟩ := bind_eq_ok hok
  obtain ⟨budget, -, hok⟩ := bind_eq_ok hok
  cases hok
  unfold ArbitrationMetadata.make at ha
  obtain ⟨_, hlimit, ha⟩ := bind_eq_ok ha
  cases ha
  have hnonneg := require_ok hlimit
  refine ⟨.nil, ?_, ⟨[], rfl, .nil⟩, ?_, fun _ => rfl, fun _ => .nil⟩
  · exact ⟨CreditPool.balanced_empty Int.one_nonneg, rfl, rfl, hnonneg⟩
  · exact fun _ _ hmf => absurd hmf List.not_mem_nil

/-! ### The cap -/

/-- The guarantees of the simple DRAM model. -/
structure InFlightCapped (c : MemoryPartition cfg) : Prop where
  cap : c.dramLatencyQueue.length ≤ cfg.simpleDramMaxInflight.toNat
  conserved : (c.dramLatencyQueue.length : Int) =
    c.arbitrationMetadata.sharedCredit + ∑ p, c.arbitrationMetadata.privateCredit p
  nonneg : 0 ≤ c.arbitrationMetadata.sharedCredit ∧ ∀ p, 0 ≤ c.arbitrationMetadata.privateCredit p
  silent : ∀ o, c.allowed o → ∃ c', c.step o = .ok c'
  served : ∃ served pending, c.takens = served ++ pending ∧
    List.Forall₂ (Answers cfg.dramLatency.toNat) c.departures served ∧
    List.Forall₂ (Queued c.subPartitionId) pending c.dramLatencyQueue
  arrivals : ∀ p, c.log.filterMap (DramEvent.arrivedAt p) =
    c.log.filterMap (DramEvent.takenAt p) ++ c.l2DramQueue p
  replies : ∀ p, List.Forall₂ (fun mf reply => DramFetch.setReply mf = .ok reply)
    (c.log.filterMap (DramEvent.returnedAt p))
    (c.log.filterMap (DramEvent.drainedAt p) ++ c.dramL2Queue p)
  issues : ∀ p, (∀ d ∈ c.dramLatencyQueue, d.req.subPartitionId ≠ c.subPartitionId p) →
    c.arbitrationMetadata.hasCredits p = true ∧ c.canIssueToDram p = !c.dramL2QueueFull p

theorem sharedCreditLimit_toInt (hsimple : cfg.simpleDramModel = true)
    (hmax : cfg.nSubPartition.toNat < cfg.simpleDramMaxInflight.toNat)
    (hpos : 0 ≤ cfg.sharedCreditLimit.toInt) :
    cfg.sharedCreditLimit.toInt = cfg.simpleDramMaxInflight.toNat - cfg.nSubPartition.toNat := by
  have hne : cfg.simpleDramMaxInflight ≠ 0 := by
    rintro hzero
    rw [hzero] at hmax
    exact absurd hmax (Nat.not_lt_zero _)
  have hlimit : cfg.sharedCreditLimit = cfg.simpleDramMaxInflight - cfg.nSubPartition :=
    if_pos ⟨hsimple, hne⟩
  have hsub : cfg.sharedCreditLimit.toNat =
      cfg.simpleDramMaxInflight.toNat - cfg.nSubPartition.toNat := by
    rw [hlimit]
    exact BitVec.toNat_sub_of_le (BitVec.le_def.mpr hmax.le)
  rw [BitVec.toInt_eq_toNat_cond] at hpos ⊢
  have hbound := cfg.sharedCreditLimit.isLt
  split at hpos
  · omega
  · omega

theorem InFlight.capped (h : c.InFlight pending) (hsimple : cfg.simpleDramModel = true)
    (hmax : cfg.nSubPartition.toNat < cfg.simpleDramMaxInflight.toNat)
    (hpos : 0 ≤ cfg.sharedCreditLimit.toInt) : c.InFlightCapped := by
  have hlimit := sharedCreditLimit_toInt hsimple hmax hpos
  have hlength : c.dramLatencyQueue.length = (pending.map Taken.spid).length := by
    rw [List.length_map]
    exact h.queue.length_eq.symm
  refine ⟨?_, ?_, ⟨h.credits.pool.shared_nonneg, h.credits.pool.own_nonneg⟩, ?_, ?_, h.arrivals,
    h.replies, ?_⟩
  · have hle := h.credits.pool.length_le
    have hshared : c.arbitrationMetadata.pool.shared ≤ cfg.sharedCreditLimit.toInt :=
      h.credits.shared_le
    have hn : (cfg.n : Int) = cfg.nSubPartition.toNat := rfl
    rw [Fintype.card_fin, ← hlength] at hle
    omega
  · rw [hlength]
    exact h.credits.pool.total
  · intro o hallowed
    obtain ⟨c', hok, -⟩ := (step_spec h hallowed (by omega)).exists_ok
    exact ⟨c', hok⟩
  · obtain ⟨served, htakens, hserved⟩ := h.served
    exact ⟨served, pending, htakens, hserved, h.queue⟩
  · intro p hp
    have hnone : p ∉ pending.map Taken.spid := by
      intro hmem
      obtain ⟨t, ht, rfl⟩ := List.mem_map.mp hmem
      obtain ⟨d, hd, hqueued⟩ := exists_partner h.queue ht
      exact hp d hd (hqueued.req ▸ hqueued.home)
    have hcredits := h.credits.hasCredits hnone
    refine ⟨hcredits, ?_⟩
    unfold canIssueToDram
    rw [hcredits, Bool.true_and]

/-- A channel with a fixed latency and two atoms a tick. -/
def twoAtoms (nSubPartition maxInflight : BitVec 32) : MemoryConfig where
  nSubPartition := nSubPartition
  frfcfsDramSchedQueueSize := 64
  dramReturnQueueSize := 192
  frfcfsDramWriteQueueSize := 32
  seperateWriteQueueEnabled := false
  simpleDramModel := true
  simpleDramMaxInflight := maxInflight
  simpleDramServiceRateNum := 2
  simpleDramServiceRateDen := 1
  dramAtomSize := 64
  dramLatency := 100
  dramL2QueueLength := 8

/-- A read of one atom. -/
def oneAtom (id : Nat) (subPartitionId : BitVec 32) : DramFetch where
  id := id
  dataSize := 32
  accessType := .globalAccR
  isWrite := false
  mfType := .readRequest
  mfType_fits := ⟨fun _ => rfl, nofun⟩
  subPartitionId := subPartitionId

end MemoryPartition

end FlashGpuSim
