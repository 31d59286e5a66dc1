import FlashGpuSim.Lib.ByteMemory
import FlashGpuSim.SmemShare

/-!
DSM lane operations that stay on their own SM, and the retries of those that found too little
service. An attempt that gets a part of its bytes gives that part away: the next one starts again
with all of them, while what it asks for is only the rest.
-/

namespace FlashGpuSim

open Lib

/-- `dsm_op_kind` -/
inductive LaneOpKind
  | store | load | atomAdd
  deriving DecidableEq, Repr

/-- `dsm_lane_op_t`; `hasTarget` is `op.thread && op.pI`. -/
structure LaneOp where
  kind : LaneOpKind
  dstLocal : Nat
  ctaSlot : Nat
  offset : Nat
  bytes : BitVec 32
  data : List (BitVec 8)
  hasTarget : Bool
  deriving DecidableEq, Repr

/-- `dsm_retry_t` -/
structure DsmRetry where
  src : Nat
  op : LaneOp
  sid : Nat
  warp : Nat
  cta : Nat
  deriving DecidableEq, Repr

/-- What operations leave behind: the memories of the CTA slots, the data handed to loads, and the
completions noted for warps and CTAs. -/
structure LocalHost where
  active : Nat → Nat → Bool
  smem : Nat → Nat → ByteMemory
  loads : List (Nat × Nat × List (BitVec 8))
  completed : List (Nat × Nat × Nat)

structure LocalCluster where
  endpoint : Bool
  numCores : Nat
  smemService : Nat → SharedMemoryService
  host : LocalHost
  retry : List DsmRetry

/-- The bytes an operation asks for. -/
def LaneOp.need (op : LaneOp) : Nat := if op.bytes = 0 then 4 else op.bytes.toNat

/-- The first bytes of the data of an operation. -/
def LaneOp.dataByte (op : LaneOp) (k : Nat) : BitVec 8 := op.data.getD k 0

namespace LocalHost

def write (host : LocalHost) (r : DsmRetry) (size : Nat) (data : Nat → BitVec 8) : LocalHost :=
  { host with
    smem := fun core slot =>
      if core = r.src ∧ slot = r.op.ctaSlot then
        (host.smem core slot).write r.op.offset size data
      else host.smem core slot }

/-- The addition of an atomic operation on 4 or on 8 bytes. -/
def atomAdd (host : LocalHost) (r : DsmRetry) (buf : Nat → BitVec 8) : LocalHost :=
  if r.op.kind = .atomAdd ∧ r.op.data ≠ [] ∧ (r.op.bytes = 4 ∨ r.op.bytes = 8) then
    let n := r.op.bytes.toNat
    host.write r n (byteOf ((littleEndian n buf + littleEndian n r.op.dataByte) % 256 ^ n))
  else host

/-- The effect of an operation that was granted its bytes. -/
def perform (host : LocalHost) (r : DsmRetry) : LocalHost :=
  let active := host.active r.src r.op.ctaSlot
  let host :=
    if r.op.kind = .store then
      if active ∧ r.op.data ≠ [] then host.write r r.op.bytes.toNat r.op.dataByte else host
    else if active ∧ r.op.bytes ≠ 0 then
      let buf := (host.smem r.src r.op.ctaSlot).read r.op.offset
      let host := host.atomAdd r buf
      if r.op.hasTarget then
        { host with
          loads := host.loads ++ [(r.sid, r.warp, (List.range r.op.bytes.toNat).map buf)] }
      else host
    else host
  { host with completed := host.completed ++ [(r.sid, r.warp, r.cta)] }

end LocalHost

namespace LocalCluster

section retries

-- what the endpoint does with an operation for another SM, and whether it takes it
variable (issueRemote : LocalCluster → DsmRetry → Bool × LocalCluster)

/-- `dsm_try_issue` -/
def dsmTryIssue (c : LocalCluster) (r : DsmRetry) : Bool × LocalCluster :=
  if !c.endpoint then (false, c)
  else if r.src = r.op.dstLocal then
    if c.numCores ≤ r.src then (false, c)
    else
      let (got, service) := (c.smemService r.src).take kSmemDsm r.op.need
      if got < r.op.need then
        (false, { c with smemService :=
          Function.update c.smemService r.src (service.expose kSmemDsm (r.op.need - got)) })
      else
        (true, { c with
          smemService := Function.update c.smemService r.src service
          host := c.host.perform r })
  else issueRemote c r

/-- One turn of `dsm_retry_issues`, with the operations kept so far. -/
def retryOne (state : LocalCluster × List DsmRetry) (r : DsmRetry) :
    LocalCluster × List DsmRetry :=
  let (ok, c) := state.1.dsmTryIssue issueRemote r
  (c, if ok then state.2 else state.2 ++ [r])

def dsmRetryIssues (c : LocalCluster) : LocalCluster :=
  let (c', keep) := c.retry.foldl (retryOne issueRemote) ({ c with retry := [] }, [])
  { c' with retry := keep }

/-- `smem_cycle` of all cores. -/
def smemCycle (c : LocalCluster) : LocalCluster :=
  { c with smemService := fun core => (c.smemService core).cycle }

/-- The cluster after the attempt of the `k`-th further cycle, without other traffic. -/
def afterCycles (c : LocalCluster) : Nat → LocalCluster
  | 0 => c.dsmRetryIssues issueRemote
  | k + 1 => (afterCycles c k).smemCycle.dsmRetryIssues issueRemote

end retries

/-- The operation is alone in the retry queue, on its own SM, and this cycle's grants are made but
nothing was asked for yet. -/
structure Lone (c : LocalCluster) (r : DsmRetry) : Prop where
  endpoint : c.endpoint = true
  queued : c.retry = [r]
  local_ : r.src = r.op.dstLocal
  core : r.src < c.numCores
  quiet : ∀ client, (c.smemService r.src).exposed client = 0

/-- The cycles that a grant of all bytes may take. -/
def retryBound (c : LocalCluster) (r : DsmRetry) : Nat :=
  (r.op.need + ((c.smemService r.src).limit - 1)) / (c.smemService r.src).limit + 2

/-- After at most so many further cycles the operation is performed, and once only. -/
def PerformsOnce (issueRemote : LocalCluster → DsmRetry → Bool × LocalCluster) (c : LocalCluster)
    (r : DsmRetry) : Prop :=
  ∃ k ≤ c.retryBound r, ∀ i,
    (i < k → (c.afterCycles issueRemote i).retry = [r] ∧
      (c.afterCycles issueRemote i).host = c.host) ∧
    (k ≤ i → (c.afterCycles issueRemote i).retry = [] ∧
      (c.afterCycles issueRemote i).host = c.host.perform r)

section lone

variable {issueRemote : LocalCluster → DsmRetry → Bool × LocalCluster} {c : LocalCluster}
  {r : DsmRetry}

/-- What this cycle grants to DSM operations of the SM. -/
def dsmGrant (c : LocalCluster) (r : DsmRetry) : Nat := (c.smemService r.src).granted kSmemDsm

theorem need_pos (op : LaneOp) : 0 < op.need ∧ op.need < 2 ^ 32 := by
  unfold LaneOp.need
  split
  · decide
  · rename_i hne
    refine ⟨?_, op.bytes.isLt⟩
    rw [Nat.pos_iff_ne_zero]
    exact fun hzero => hne (BitVec.eq_of_toNat_eq hzero)

theorem grant_dsm (s : SharedMemoryService) (bytes : Nat) :
    s.grant kSmemDsm bytes = min bytes (s.granted kSmemDsm) := if_pos (by decide)

/-- The cluster after an attempt that was granted all its bytes. -/
def performed (c : LocalCluster) (r : DsmRetry) : LocalCluster :=
  { c with
    smemService := Function.update c.smemService r.src
      ((c.smemService r.src).take kSmemDsm r.op.need).2
    host := c.host.perform r }

/-- The cluster after an attempt that was not: the rest is asked for, and nothing of the grant is
left. -/
def refused (c : LocalCluster) (r : DsmRetry) : LocalCluster :=
  { c with
    smemService := Function.update c.smemService r.src
      (((c.smemService r.src).take kSmemDsm r.op.need).2.expose kSmemDsm
        (r.op.need - c.dsmGrant r)) }

theorem Lone.tryIssue (h : c.Lone r) : dsmTryIssue issueRemote { c with retry := [] } r =
    if c.dsmGrant r < r.op.need then (false, { c.refused r with retry := [] })
    else (true, { c.performed r with retry := [] }) := by
  have hgot : ((c.smemService r.src).take kSmemDsm r.op.need).1 = min r.op.need (c.dsmGrant r) :=
    grant_dsm _ _
  have hendpoint : ¬ ((!c.endpoint) = true) := by simp [h.endpoint]
  unfold dsmTryIssue
  rw [if_neg hendpoint, if_pos h.local_, if_neg (Nat.not_le_of_lt h.core)]
  dsimp only
  rw [hgot]
  by_cases hgrant : c.dsmGrant r < r.op.need
  · rw [if_pos hgrant, if_pos (by omega), min_eq_right hgrant.le]
    rfl
  · rw [if_neg hgrant, if_neg (by omega)]
    rfl

theorem Lone.retryIssues (h : c.Lone r) : c.dsmRetryIssues issueRemote =
    { (dsmTryIssue issueRemote { c with retry := [] } r).2 with
      retry := if (dsmTryIssue issueRemote { c with retry := [] } r).1 then [] else [r] } := by
  unfold dsmRetryIssues
  rw [h.queued]
  rfl

theorem Lone.succeed (h : c.Lone r) (hgrant : r.op.need ≤ c.dsmGrant r) :
    c.dsmRetryIssues issueRemote = { c.performed r with retry := [] } := by
  rw [h.retryIssues, h.tryIssue, if_neg (by omega)]
  rfl

theorem Lone.fail (h : c.Lone r) (hgrant : c.dsmGrant r < r.op.need) :
    c.dsmRetryIssues issueRemote = c.refused r := by
  have hretry : (c.refused r).retry = [r] := h.queued
  rw [h.retryIssues, h.tryIssue, if_pos hgrant]
  show { c.refused r with retry := [r] } = c.refused r
  rw [← hretry]

/-- The cycle after a failed attempt grants the rest. -/
theorem Lone.next (issueRemote : LocalCluster → DsmRetry → Bool × LocalCluster) (h : c.Lone r)
    (hgrant : c.dsmGrant r < r.op.need) :
    (c.dsmRetryIssues issueRemote).smemCycle.Lone r ∧
      (c.dsmRetryIssues issueRemote).smemCycle.host = c.host ∧
      (c.dsmRetryIssues issueRemote).smemCycle.dsmGrant r =
        min (r.op.need - c.dsmGrant r) (c.smemService r.src).limit ∧
      ((c.dsmRetryIssues issueRemote).smemCycle.smemService r.src).limit =
        (c.smemService r.src).limit := by
  rw [h.fail hgrant]
  obtain ⟨-, hlt⟩ := need_pos r.op
  have hservice : (c.refused r).smemCycle.smemService r.src =
      (((c.smemService r.src).take kSmemDsm r.op.need).2.expose kSmemDsm
        (r.op.need - c.dsmGrant r)).cycle :=
    congrArg SharedMemoryService.cycle (Function.update_self _ _ _)
  have hexposed : (((c.smemService r.src).take kSmemDsm r.op.need).2.expose kSmemDsm
      (r.op.need - c.dsmGrant r)).exposed kSmemDsm = r.op.need - c.dsmGrant r := by
    rw [SharedMemoryService.exposed_expose_self _ _ (by decide)]
    show ((c.smemService r.src).exposed kSmemDsm + _) % _ = _
    rw [h.quiet, Nat.zero_add, Nat.mod_eq_of_lt (by omega)]
  have hother : ∀ client, client ≠ kSmemDsm →
      (((c.smemService r.src).take kSmemDsm r.op.need).2.expose kSmemDsm
        (r.op.need - c.dsmGrant r)).exposed client = 0 := by
    intro client hne
    rw [SharedMemoryService.exposed_expose_of_ne _ _ hne]
    exact h.quiet client
  refine ⟨⟨h.endpoint, h.queued, h.local_, h.core, fun client => ?_⟩, rfl, ?_, ?_⟩
  · rw [hservice]
    rfl
  · unfold dsmGrant
    rw [hservice, SharedMemoryService.granted_alone (by decide) hother, hexposed]
    rfl
  · rw [hservice]
    rfl

theorem done_next (issueRemote : LocalCluster → DsmRetry → Bool × LocalCluster)
    (h : c.retry = []) :
    (c.smemCycle.dsmRetryIssues issueRemote).retry = [] ∧
      (c.smemCycle.dsmRetryIssues issueRemote).host = c.host := by
  have hempty : c.smemCycle.retry = [] := h
  unfold dsmRetryIssues
  rw [hempty]
  exact ⟨rfl, rfl⟩

theorem done_stays {k : Nat} (h : (c.afterCycles issueRemote k).retry = []) (n : Nat) :
    (c.afterCycles issueRemote (k + n)).retry = [] ∧
      (c.afterCycles issueRemote (k + n)).host = (c.afterCycles issueRemote k).host := by
  induction n with
  | zero => exact ⟨h, rfl⟩
  | succ n ih =>
    obtain ⟨hretry, hhost⟩ := ih
    obtain ⟨hretry', hhost'⟩ := done_next issueRemote hretry
    exact ⟨hretry', hhost'.trans hhost⟩

/-- An operation that holds a part of its bytes, or that needs more than the budget, waits for
ever. -/
theorem stuck (k : Nat) (h : c.Lone r) (hgrant : c.dsmGrant r < r.op.need)
    (hstuck : c.dsmGrant r = 0 → (c.smemService r.src).limit < r.op.need) :
    (c.afterCycles issueRemote k).retry = [r] := by
  have hrun : ∃ d : LocalCluster, d.Lone r ∧ d.dsmGrant r < r.op.need ∧
      (d.dsmGrant r = 0 → (d.smemService r.src).limit < r.op.need) ∧
        c.afterCycles issueRemote k = d.dsmRetryIssues issueRemote := by
    induction k with
    | zero => exact ⟨c, h, hgrant, hstuck, rfl⟩
    | succ k ih =>
      obtain ⟨d, hd, hlt, hnot, heq⟩ := ih
      obtain ⟨hlone, -, hnext, hlimit⟩ := hd.next issueRemote hlt
      have hpos := (d.smemService r.src).limit_pos
      refine ⟨_, hlone, ?_, ?_, congrArg (fun e => e.smemCycle.dsmRetryIssues issueRemote) heq⟩
      · rw [hnext]
        rcases Nat.eq_zero_or_pos (d.dsmGrant r) with hzero | hsome
        · have hless := hnot hzero
          omega
        · omega
      · rw [hnext]
        omega
  obtain ⟨d, hd, hlt, -, heq⟩ := hrun
  rw [heq, hd.fail hlt]
  exact hd.queued

theorem performsOnce_iff (h : c.Lone r) : c.PerformsOnce issueRemote r ↔
    r.op.need ≤ c.dsmGrant r ∨
      c.dsmGrant r = 0 ∧ r.op.need ≤ (c.smemService r.src).limit := by
  have hperformed : ∀ k ≤ c.retryBound r, (∀ i < k, (c.afterCycles issueRemote i).retry = [r] ∧
      (c.afterCycles issueRemote i).host = c.host) →
      (c.afterCycles issueRemote k).retry = [] →
      (c.afterCycles issueRemote k).host = c.host.perform r → c.PerformsOnce issueRemote r := by
    intro k hk hbefore hretry hhost
    refine ⟨k, hk, fun i => ⟨hbefore i, fun hle => ?_⟩⟩
    obtain ⟨n, rfl⟩ := Nat.exists_eq_add_of_le hle
    obtain ⟨hretry', hhost'⟩ := done_stays hretry n
    exact ⟨hretry', hhost'.trans hhost⟩
  constructor
  · rintro ⟨k, -, hk⟩
    by_contra hnot
    rw [not_or, not_le, not_and, not_le] at hnot
    have hretry := ((hk k).2 le_rfl).1
    rw [stuck k h hnot.1 hnot.2] at hretry
    cases hretry
  · intro hcond
    rcases lt_or_ge (c.dsmGrant r) r.op.need with hlt | hge
    · obtain ⟨hzero, hfits⟩ := hcond.resolve_left (by omega)
      obtain ⟨hlone, hhost, hnext, -⟩ := h.next issueRemote hlt
      rw [hzero, Nat.sub_zero, min_eq_left hfits] at hnext
      have hsecond : c.afterCycles issueRemote 1 = _ := hlone.succeed hnext.ge
      refine hperformed 1 (le_trans one_le_two (Nat.le_add_left 2 _)) (fun i hi => ?_) ?_ ?_
      · obtain rfl : i = 0 := by omega
        show (c.dsmRetryIssues issueRemote).retry = [r] ∧ (c.dsmRetryIssues issueRemote).host = _
        rw [h.fail hlt]
        exact ⟨h.queued, rfl⟩
      · rw [hsecond]
      · rw [hsecond]
        show (LocalHost.perform _ r) = _
        rw [hhost]
    · have hfirst : c.afterCycles issueRemote 0 = _ := h.succeed hge
      refine hperformed 0 (Nat.zero_le _) (fun i hi => absurd hi (Nat.not_lt_zero i)) ?_ ?_
      · rw [hfirst]
      · rw [hfirst]
        rfl

/-- The clients share the budget, and an operation that waits alone is performed in time exactly if
this cycle grants it all of its bytes, or none of them while the budget has room for it. -/
theorem neverStrands_iff (issueRemote : LocalCluster → DsmRetry → Bool × LocalCluster)
    (h : c.Lone r) :
    ((∀ budget calls, ((SmemRun.init budget).run calls).Shared ∧
      ((SmemRun.init budget).run calls).GrantsInThree) ∧ c.PerformsOnce issueRemote r) ↔
    (r.op.need ≤ c.dsmGrant r ∨
      c.dsmGrant r = 0 ∧ r.op.need ≤ (c.smemService r.src).limit) := by
  have hshared : ∀ budget calls, ((SmemRun.init budget).run calls).Shared ∧
      ((SmemRun.init budget).run calls).GrantsInThree := by
    intro budget calls
    have hsound := (SmemRun.sound_init budget).run calls
    exact ⟨hsound.shared, hsound.grantsInThree⟩
  rw [performsOnce_iff h |>.symm]
  exact and_iff_right hshared

end lone

/-- An operation of the first SM, alone, after a cycle of the given calls. -/
def waiting (budget : Nat) (calls : List SmemCall) (r : DsmRetry) : LocalCluster where
  endpoint := true
  numCores := 2
  smemService := fun _ => ((SmemRun.init budget).run (calls ++ [.cycle])).service
  host := ⟨fun _ _ => true, fun _ _ _ => 0, [], []⟩
  retry := [r]

/-- A store of eight bytes. -/
def store8 : DsmRetry := ⟨0, ⟨.store, 0, 0, 0, 8, List.replicate 8 1, false⟩, 0, 0, 0⟩

theorem lone_waiting (budget : Nat) (calls : List SmemCall) :
    (waiting budget calls store8).Lone store8 where
  endpoint := rfl
  queued := rfl
  local_ := rfl
  core := Nat.zero_lt_two
  quiet client := by
    show ((SmemRun.init budget).run (calls ++ [.cycle])).service.exposed client = 0
    unfold SmemRun.run
    rw [List.foldl_append]
    rfl

theorem neverStrands_store8 :
    ((∀ budget calls, ((SmemRun.init budget).run calls).Shared ∧
      ((SmemRun.init budget).run calls).GrantsInThree) ∧
      (waiting 128 [.expose 2 8] store8).PerformsOnce (fun c _ => (false, c)) store8) :=
  (neverStrands_iff _ (lone_waiting 128 [.expose 2 8])).2 (by decide)

/-- The LSU asked for 124 of 128 bytes, and the first attempt at the store finds 4. -/
theorem not_neverStrands :
    ¬ ∀ (c : LocalCluster) (r : DsmRetry), c.Lone r →
      c.PerformsOnce (fun c _ => (false, c)) r := by
  intro h
  have honce := h _ _ (lone_waiting 128 [.expose 0 124, .expose 2 8])
  rw [performsOnce_iff (lone_waiting 128 [.expose 0 124, .expose 2 8])] at honce
  revert honce
  decide

end LocalCluster

end FlashGpuSim
