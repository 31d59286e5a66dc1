import Mathlib.Algebra.BigOperators.Group.List.Basic
import Mathlib.Data.List.Basic
import FlashGpuSim.Lib.Outcome

/-!
The flit-level primitives of `transport.h`: bounded virtual output queues,
credit counters and the round-robin arbiter. A vector indexed by an SM is a
function on `Nat`; the size recorded beside it is what the source asserts
against. Flit counts are natural numbers, which agree with the source's
`unsigned` as long as no queue limit reaches 2^31. The statistics the source
keeps beside the queues are never read by it and are left out.
-/

namespace FlashGpuSim

open Lib

/-- The assertions (and null dereferences) at which the transport and fabric
code stops. -/
inductive Assertion
  /-- `assert(dst < m_q.size())` -/
  | dstInRange
  /-- `assert(!m_q[dst].empty())` -/
  | queueNonempty
  /-- `assert(m_occ[dst] > 0)` -/
  | occupied
  /-- `assert(p.remaining_flits > 0)` -/
  | flitsRemain
  /-- `assert(m_free[q] <= m_depth)` in `give` -/
  | creditWithinDepth
  /-- `assert(n == m_n)` in `round_robin_arbiter_t::grant` -/
  | arbiterWidth
  /-- `assert(reserved)` after `take` -/
  | creditReserved
  /-- `assert(pushed)` in `dsm_fabric_t::inject` -/
  | packetPushed
  /-- `assert(m_n > 0)` and `assert(m_n <= 64)` -/
  | smCount
  /-- `assert(n_routes > 0)` and `assert(n_routes <= 64)` -/
  | routeCount
  /-- a dereference of a null queue head -/
  | nullHead
  deriving DecidableEq, Repr

/-- Source code that may stop at an assertion. -/
abbrev Checked := Except Assertion

/-- What `bounded_voq_t` asks of its packet type. -/
class FlitPacket (Pkt : Type*) where
  remainingFlits : Pkt → Nat
  setRemaining : Pkt → Nat → Pkt
  remaining_set : ∀ p k, remainingFlits (setRemaining p k) = k

attribute [simp] FlitPacket.remaining_set

section BoundedVoq

variable {Pkt : Type*}

/-- `bounded_voq_t`: one bounded queue per destination, with its occupancy in
remaining payload flits. -/
structure BoundedVoq (Pkt : Type*) where
  nDst : Nat
  limit : Nat
  q : Nat → List Pkt
  occ : Nat → Nat

namespace BoundedVoq

def init (nDst flitLimitPerDst : Nat) : BoundedVoq Pkt where
  nDst := nDst
  limit := flitLimitPerDst
  q := fun _ => []
  occ := fun _ => 0

def empty (voq : BoundedVoq Pkt) (dst : Nat) : Bool := (voq.q dst).isEmpty

/-- `occupancy_flits()` without a destination: the sum over all queues. -/
def occupancyFlits (voq : BoundedVoq Pkt) : Nat :=
  ((List.range voq.nDst).map voq.occ).sum

def contains (voq : BoundedVoq Pkt) (dst : Nat) (predicate : Pkt → Bool) : Bool :=
  (voq.q dst).any predicate

def canPush (voq : BoundedVoq Pkt) (dst flits : Nat) : Bool :=
  if voq.limit < flits then (voq.q dst).isEmpty && voq.occ dst == 0
  else voq.occ dst + flits ≤ voq.limit

/-- The queue of `dst` replaced, and its occupancy raised by a packet's share. -/
def stored (voq : BoundedVoq Pkt) (dst : Nat) (queue : List Pkt) (flits : Nat) :
    BoundedVoq Pkt :=
  { voq with
    q := Function.update voq.q dst queue
    occ := Function.update voq.occ dst (voq.occ dst + min flits voq.limit) }

theorem canPush_occ {voq : BoundedVoq Pkt} {dst flits : Nat}
    (h : voq.canPush dst flits = true) :
    voq.occ dst + min flits voq.limit ≤ voq.limit := by
  unfold canPush at h
  split at h
  · simp only [Bool.and_eq_true, beq_iff_eq] at h
    omega
  · simp only [decide_eq_true_eq] at h
    omega

@[simp] theorem stored_q (voq : BoundedVoq Pkt) (dst : Nat) (queue : List Pkt)
    (flits d : Nat) :
    (voq.stored dst queue flits).q d = if d = dst then queue else voq.q d := by
  simp [stored, Function.update_apply]

@[simp] theorem stored_nDst (voq : BoundedVoq Pkt) (dst : Nat) (queue : List Pkt)
    (flits : Nat) : (voq.stored dst queue flits).nDst = voq.nDst := rfl

@[simp] theorem stored_limit (voq : BoundedVoq Pkt) (dst : Nat) (queue : List Pkt)
    (flits : Nat) : (voq.stored dst queue flits).limit = voq.limit := rfl

/-- `std::find_if` and `insert`: `pkt` lands in front of the first packet that
satisfies `before`, or at the end. -/
def insertBefore (pkt : Pkt) (before : Pkt → Bool) (queue : List Pkt) : List Pkt :=
  queue.takeWhile (fun p => !before p) ++ pkt :: queue.dropWhile (fun p => !before p)

theorem insertBefore_perm (pkt : Pkt) (before : Pkt → Bool) (queue : List Pkt) :
    (insertBefore pkt before queue).Perm (pkt :: queue) := by
  unfold insertBefore
  have hsplit := List.takeWhile_append_dropWhile (p := fun p => !before p) (l := queue)
  calc
    List.Perm _ (pkt :: (queue.takeWhile (fun p => !before p) ++
        queue.dropWhile (fun p => !before p))) := List.perm_middle
    List.Perm _ (pkt :: queue) := by rw [hsplit]

theorem insertBefore_true (pkt : Pkt) (queue : List Pkt) :
    insertBefore pkt (fun _ => true) queue = pkt :: queue := by
  cases queue <;> rfl

/-- A write through `front_mutable`. -/
def modifyFront (voq : BoundedVoq Pkt) (dst : Nat) (edit : Pkt → Pkt) :
    BoundedVoq Pkt :=
  { voq with q := Function.update voq.q dst ((voq.q dst).modifyHead edit) }

def front (voq : BoundedVoq Pkt) (dst : Nat) : Option Pkt := (voq.q dst).head?

variable [FlitPacket Pkt]

open FlitPacket

def push (voq : BoundedVoq Pkt) (dst : Nat) (pkt : Pkt) :
    Checked (Bool × BoundedVoq Pkt) := do
  require (dst < voq.nDst) .dstInRange
  if voq.canPush dst (remainingFlits pkt) then
    return (true, voq.stored dst (voq.q dst ++ [pkt]) (remainingFlits pkt))
  else
    return (false, voq)

def pushBefore (voq : BoundedVoq Pkt) (dst : Nat) (pkt : Pkt)
    (before : Pkt → Bool) : Checked (Bool × BoundedVoq Pkt) := do
  require (dst < voq.nDst) .dstInRange
  if voq.canPush dst (remainingFlits pkt) then
    return (true,
      voq.stored dst (insertBefore pkt before (voq.q dst)) (remainingFlits pkt))
  else
    return (false, voq)

def pushFront (voq : BoundedVoq Pkt) (dst : Nat) (pkt : Pkt) :
    Checked (Bool × BoundedVoq Pkt) :=
  voq.pushBefore dst pkt (fun _ => true)

/-- Consume one payload flit of the head of `dst`. The completed packet is
returned when that flit was its last. -/
def grantFlit (voq : BoundedVoq Pkt) (dst : Nat) :
    Checked (Option Pkt × BoundedVoq Pkt) := do
  require (dst < voq.nDst) .dstInRange
  match voq.q dst with
  | [] => throw .queueNonempty
  | p :: rest =>
    require (0 < voq.occ dst) .occupied
    require (0 < remainingFlits p) .flitsRemain
    let before := remainingFlits p
    let p := setRemaining p (before - 1)
    let occ :=
      if before ≤ voq.limit then Function.update voq.occ dst (voq.occ dst - 1)
      else voq.occ
    if 0 < remainingFlits p then
      return (none, { voq with q := Function.update voq.q dst (p :: rest), occ := occ })
    else
      return (some p, { voq with q := Function.update voq.q dst rest, occ := occ })

/-! ### The representation invariant -/

/-- The share of the queue limit a packet occupies. -/
def share (limit : Nat) (p : Pkt) : Nat := min (remainingFlits p) limit

/-- The occupancy of each queue is the sum of its packets' shares and stays
within the limit. -/
structure WF (voq : BoundedVoq Pkt) : Prop where
  occ_eq : ∀ dst, voq.occ dst = ((voq.q dst).map (share voq.limit)).sum
  occ_le : ∀ dst, voq.occ dst ≤ voq.limit

theorem init_wf (nDst limit : Nat) : (init nDst limit : BoundedVoq Pkt).WF :=
  ⟨fun _ => rfl, fun _ => Nat.zero_le _⟩

/-- A push at any position keeps the invariant. -/
theorem stored_wf {voq : BoundedVoq Pkt} {dst : Nat} {pkt : Pkt} {queue : List Pkt}
    (h : voq.WF) (hcan : voq.canPush dst (remainingFlits pkt) = true)
    (hperm : queue.Perm (pkt :: voq.q dst)) :
    (voq.stored dst queue (remainingFlits pkt)).WF := by
  have hsum : (queue.map (share voq.limit)).sum =
      share voq.limit pkt + voq.occ dst := by
    rw [(hperm.map _).sum_eq, List.map_cons, List.sum_cons, h.occ_eq dst]
  constructor
  · intro d
    by_cases hd : d = dst
    · subst hd
      simp only [stored, Function.update_self, hsum, share]
      omega
    · simpa [stored, hd] using h.occ_eq d
  · intro d
    by_cases hd : d = dst
    · subst hd
      simpa [stored] using canPush_occ hcan
    · simpa [stored, hd] using h.occ_le d

theorem push_eq {voq : BoundedVoq Pkt} {dst : Nat} (pkt : Pkt) (hd : dst < voq.nDst)
    (hcan : voq.canPush dst (remainingFlits pkt) = true) :
    voq.push dst pkt =
      .ok (true, voq.stored dst (voq.q dst ++ [pkt]) (remainingFlits pkt)) := by
  simp only [push, require, hd, decide_true, if_true, hcan]
  rfl

theorem pushFront_eq {voq : BoundedVoq Pkt} {dst : Nat} (pkt : Pkt)
    (hd : dst < voq.nDst) (hcan : voq.canPush dst (remainingFlits pkt) = true) :
    voq.pushFront dst pkt =
      .ok (true, voq.stored dst (pkt :: voq.q dst) (remainingFlits pkt)) := by
  simp only [pushFront, pushBefore, require, hd, decide_true, if_true, hcan,
    insertBefore_true]
  rfl

/-- An edit of the head that leaves its flits alone keeps the invariant. -/
theorem modifyFront_wf {voq : BoundedVoq Pkt} {dst : Nat} {edit : Pkt → Pkt}
    (h : voq.WF) (hedit : ∀ p, remainingFlits (edit p) = remainingFlits p) :
    (voq.modifyFront dst edit).WF := by
  refine ⟨fun d => ?_, h.occ_le⟩
  by_cases hd : d = dst
  · subst hd
    have hocc := h.occ_eq d
    cases hq : voq.q d with
    | nil => simpa [modifyFront, hq] using hocc
    | cons p rest => simpa [modifyFront, hq, share, hedit] using hocc
  · simpa [modifyFront, hd] using h.occ_eq d

/-- What `grantFlit` leaves of the queue when the head is `p`. -/
def afterFlit (voq : BoundedVoq Pkt) (dst : Nat) (p : Pkt) (rest : List Pkt) :
    BoundedVoq Pkt :=
  { voq with
    q := Function.update voq.q dst
      (if 1 < remainingFlits p then setRemaining p (remainingFlits p - 1) :: rest
        else rest)
    occ :=
      if remainingFlits p ≤ voq.limit then Function.update voq.occ dst (voq.occ dst - 1)
      else voq.occ }

@[simp] theorem afterFlit_nDst (voq : BoundedVoq Pkt) (dst : Nat) (p : Pkt)
    (rest : List Pkt) : (voq.afterFlit dst p rest).nDst = voq.nDst := rfl

@[simp] theorem afterFlit_limit (voq : BoundedVoq Pkt) (dst : Nat) (p : Pkt)
    (rest : List Pkt) : (voq.afterFlit dst p rest).limit = voq.limit := rfl

@[simp] theorem afterFlit_q (voq : BoundedVoq Pkt) (dst : Nat) (p : Pkt)
    (rest : List Pkt) (d : Nat) :
    (voq.afterFlit dst p rest).q d =
      if d = dst then
        (if 1 < remainingFlits p then setRemaining p (remainingFlits p - 1) :: rest
          else rest)
      else voq.q d := by
  simp [afterFlit, Function.update_apply]

theorem grantFlit_eq {voq : BoundedVoq Pkt} {dst : Nat} {p : Pkt} {rest : List Pkt}
    (hd : dst < voq.nDst) (hq : voq.q dst = p :: rest) (hocc : 0 < voq.occ dst)
    (hp : 0 < remainingFlits p) :
    voq.grantFlit dst =
      .ok (if 1 < remainingFlits p then none
        else some (setRemaining p (remainingFlits p - 1)), voq.afterFlit dst p rest) := by
  by_cases hlast : 1 < remainingFlits p
  · have hmore : 0 < remainingFlits p - 1 := by omega
    simp only [grantFlit, require, hd, hq, hocc, hp, remaining_set, hmore, hlast,
      decide_true, if_true, afterFlit]
    rfl
  · have hdone : ¬ 0 < remainingFlits p - 1 := by omega
    simp only [grantFlit, require, hd, hq, hocc, hp, remaining_set, hdone, hlast,
      decide_true, if_true, if_false, afterFlit]
    rfl

theorem occ_pos {voq : BoundedVoq Pkt} {dst : Nat} {p : Pkt}
    (h : voq.WF) (hlimit : 0 < voq.limit) (hq : p ∈ voq.q dst)
    (hp : 0 < remainingFlits p) : 0 < voq.occ dst := by
  have hocc := h.occ_eq dst
  have hle : share voq.limit p ≤ ((voq.q dst).map (share voq.limit)).sum :=
    List.le_sum_of_mem (List.mem_map_of_mem hq)
  rw [share] at hle
  omega

theorem afterFlit_wf {voq : BoundedVoq Pkt} {dst : Nat} {p : Pkt} {rest : List Pkt}
    (h : voq.WF) (hq : voq.q dst = p :: rest) (hp : 0 < remainingFlits p) :
    (voq.afterFlit dst p rest).WF := by
  have hocc := h.occ_eq dst
  rw [hq, List.map_cons, List.sum_cons, share] at hocc
  have hle := h.occ_le dst
  -- the head loses one flit, and its share shrinks only when it fits the limit
  have hshare : ((if 1 < remainingFlits p then
        setRemaining p (remainingFlits p - 1) :: rest else rest).map
          (share voq.limit)).sum =
      min (remainingFlits p - 1) voq.limit + (rest.map (share voq.limit)).sum := by
    split
    · simp [share]
    · have hone : remainingFlits p - 1 = 0 := by omega
      simp [hone]
  constructor
  · intro d
    by_cases hd : d = dst
    · subst hd
      simp only [afterFlit_q, if_true, afterFlit_limit]
      rw [hshare]
      simp only [afterFlit]
      split
      · rw [Function.update_self]
        omega
      · omega
    · have hother := h.occ_eq d
      simp only [afterFlit_q, hd, if_false, afterFlit_limit]
      simp only [afterFlit]
      split
      · rw [Function.update_of_ne hd]
        exact hother
      · exact hother
  · intro d
    have hd := h.occ_le d
    simp only [afterFlit]
    split
    · by_cases hdst : d = dst
      · subst hdst
        rw [Function.update_self]
        omega
      · rw [Function.update_of_ne hdst]
        exact hd
    · exact hd

end BoundedVoq

end BoundedVoq

/-- `flit_credit_counters_t`: an independent pool of flit credits per queue. -/
structure FlitCreditCounters where
  depth : Nat
  free : Nat → Nat

namespace FlitCreditCounters

def init (depth : Nat) : FlitCreditCounters where
  depth := depth
  free := fun _ => depth

def has (credits : FlitCreditCounters) (q flits : Nat) : Bool :=
  flits ≤ credits.free q

def take (credits : FlitCreditCounters) (q flits : Nat) : Bool × FlitCreditCounters :=
  if credits.free q < flits then (false, credits)
  else (true,
    { credits with free := Function.update credits.free q (credits.free q - flits) })

def give (credits : FlitCreditCounters) (q flits : Nat) :
    Checked FlitCreditCounters := do
  let credits :=
    { credits with free := Function.update credits.free q (credits.free q + flits) }
  require (credits.free q ≤ credits.depth) .creditWithinDepth
  return credits

theorem take_eq {credits : FlitCreditCounters} {q : Nat} (h : 0 < credits.free q) :
    credits.take q 1 =
      (true, { credits with free := Function.update credits.free q (credits.free q - 1) }) := by
  have hnot : ¬ credits.free q < 1 := by omega
  simp [take, hnot]

theorem give_eq {credits : FlitCreditCounters} {q flits : Nat}
    (h : credits.free q + flits ≤ credits.depth) :
    credits.give q flits =
      .ok { credits with free := Function.update credits.free q (credits.free q + flits) } := by
  simp only [give, require, Function.update_self, h, decide_true, if_true]
  rfl

end FlitCreditCounters

/-- `round_robin_arbiter_t`. -/
structure RoundRobinArbiter where
  n : Nat
  next : Nat

namespace RoundRobinArbiter

def init (nInputs : Nat) : RoundRobinArbiter where
  n := nInputs
  next := 0

/-- The granted input, or `none` for the source's `~0u`. -/
def grant (rr : RoundRobinArbiter) (ready : Nat → Bool) (n : Nat) :
    Checked (Option Nat × RoundRobinArbiter) := do
  require (n == rr.n) .arbiterWidth
  match (List.range rr.n).find? (fun k => ready ((rr.next + k) % rr.n)) with
  | some k =>
    let i := (rr.next + k) % rr.n
    return (some i, { rr with next := (i + 1) % rr.n })
  | none => return (none, rr)

end RoundRobinArbiter

end FlashGpuSim
