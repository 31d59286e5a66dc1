import Mathlib.Algebra.BigOperators.Group.Finset.Basic
import Mathlib.Algebra.Order.BigOperators.Group.Finset
import FlashGpuSim.Dsm.FabricMoves

/-!
The invariant of the fabric's queues and credits. Its core is the balance of the
ejection credits: what is free at a destination and what the packets on their way
to it hold add up to the ejection depth.
-/

namespace FlashGpuSim

open Lib Relation

/-- Changing one term of a sum over `range n` shifts the sum by that term. -/
theorem sum_range_replace (g g' : Nat → Nat) {n i : Nat} (hi : i < n)
    (hother : ∀ j, j ≠ i → g' j = g j) :
    ∑ j ∈ Finset.range n, g' j + g i = ∑ j ∈ Finset.range n, g j + g' i := by
  have hmem : i ∈ Finset.range n := Finset.mem_range.mpr hi
  have hrest : ∑ j ∈ (Finset.range n).erase i, g' j =
      ∑ j ∈ (Finset.range n).erase i, g j :=
    Finset.sum_congr rfl (fun j hj => hother j (Finset.ne_of_mem_erase hj))
  rw [← Finset.add_sum_erase _ g' hmem, ← Finset.add_sum_erase _ g hmem, hrest]
  omega

/-- A packet in a VOQ: what it holds covers what it has sent, up to the depth of
the ejection queue, and never exceeds what it will need. -/
structure Streaming (depth : Nat) (p : DsmPacket) : Prop where
  remaining_le : p.remainingFlits ≤ p.totalFlits
  remaining_pos : 0 < p.totalFlits → 0 < p.remainingFlits
  covered : min (p.totalFlits - p.remainingFlits) depth ≤ p.ejectionReservedFlits
  reserved_le : p.ejectionReservedFlits ≤ min p.totalFlits depth

/-- The flits reserved by the packets of a queue. -/
def reservedFlits (queue : List DsmPacket) : Nat :=
  (queue.map DsmPacket.ejectionReservedFlits).sum

@[simp] theorem reservedFlits_nil : reservedFlits [] = 0 := rfl

@[simp] theorem reservedFlits_cons (p : DsmPacket) (queue : List DsmPacket) :
    reservedFlits (p :: queue) = p.ejectionReservedFlits + reservedFlits queue := by
  simp [reservedFlits]

@[simp] theorem reservedFlits_append (front back : List DsmPacket) :
    reservedFlits (front ++ back) = reservedFlits front + reservedFlits back := by
  simp [reservedFlits]

namespace FabricBuffers

/-- The credits held by the packets queued for `dst`, over all sources. -/
def reservedInVoqs (b : FabricBuffers) (n : Nat) (vc : DsmVc) (dst : Nat) : Nat :=
  ∑ src ∈ Finset.range n, reservedFlits (b.queue vc src dst)

/-- The invariant of the queues and credits of a fabric of `n` SMs. -/
structure WF (n : Nat) (cfg : DsmFabricConfig) (b : FabricBuffers) : Prop where
  nDst : ∀ vc sm, (b.voq vc sm).nDst = n
  limit : ∀ vc sm, (b.voq vc sm).limit = cfg.vcFlits vc
  limit_pos : ∀ vc, 0 < cfg.vcFlits vc
  depth : ∀ vc, (b.credit vc).depth = cfg.ejectionVcFlits
  depth_pos : 0 < cfg.ejectionVcFlits
  voq_wf : ∀ vc sm, (b.voq vc sm).WF
  outside : ∀ vc src dst, ¬ (src < n ∧ dst < n) → b.queue vc src dst = []
  ej_outside : ∀ vc dst, ¬ dst < n → b.ej vc dst = []
  addressed : ∀ vc src dst, ∀ p ∈ b.queue vc src dst,
    p.vc = vc ∧ p.networkSrcSmId = src ∧ p.networkDstSmId = dst
  streaming : ∀ vc src dst, ∀ p ∈ b.queue vc src dst, Streaming cfg.ejectionVcFlits p
  ej_addressed : ∀ vc dst, ∀ p ∈ b.ej vc dst,
    p.vc = vc ∧ p.networkSrcSmId < n ∧ p.networkDstSmId = dst
  delivered : ∀ vc dst, ∀ p ∈ b.ej vc dst,
    0 < p.totalFlits ∧ p.remainingFlits = 0 ∧
      p.ejectionReservedFlits = min p.totalFlits cfg.ejectionVcFlits
  balance : ∀ vc dst, dst < n →
    (b.credit vc).free dst + reservedFlits (b.ej vc dst) + b.reservedInVoqs n vc dst =
      cfg.ejectionVcFlits

variable {b b' : FabricBuffers} {n now : Nat} {cfg : DsmFabricConfig} {vc vc' : DsmVc}
  {sm sm' dst dst' : Nat} {p : DsmPacket} {rest : List DsmPacket}

theorem WF.reserveLimit (h : b.WF n cfg) (vc : DsmVc) (p : DsmPacket) :
    b.reserveLimit vc p = min p.totalFlits cfg.ejectionVcFlits := by
  rw [FabricBuffers.reserveLimit, h.depth]

/-- The credits of `dst` held in the VOQs, when only the queue of `sm` changed. -/
theorem reservedInVoqs_replace (b b' : FabricBuffers) (vc : DsmVc) (dst : Nat) (hsm : sm < n)
    (hother : ∀ src, src ≠ sm → b'.queue vc src dst = b.queue vc src dst) :
    b'.reservedInVoqs n vc dst + reservedFlits (b.queue vc sm dst) =
      b.reservedInVoqs n vc dst + reservedFlits (b'.queue vc sm dst) :=
  sum_range_replace (fun src => reservedFlits (b.queue vc src dst))
    (fun src => reservedFlits (b'.queue vc src dst)) hsm
    (fun src hsrc => by rw [hother src hsrc])

theorem reservedInVoqs_congr (b b' : FabricBuffers) (vc : DsmVc) (dst : Nat)
    (h : ∀ src, b'.queue vc src dst = b.queue vc src dst) :
    b'.reservedInVoqs n vc dst = b.reservedInVoqs n vc dst :=
  Finset.sum_congr rfl (fun src _ => by rw [h src])

/-! ### One move keeps the invariant -/

theorem reserveMove_voq (b : FabricBuffers) (vc' : DsmVc) (sm' : Nat) :
    (b.reserveMove vc sm dst p rest).voq vc' sm' =
      if vc' = vc ∧ sm' = sm then
        { b.voq vc sm with
          q := Function.update (b.voq vc sm).q dst
            ({ p with ejectionReservedFlits := p.ejectionReservedFlits + 1 } :: rest) }
      else b.voq vc' sm' := by
  simp [reserveMove]

theorem flitMove_voq (b : FabricBuffers) (vc' : DsmVc) (sm' : Nat) :
    (b.flitMove now vc sm dst p rest).voq vc' sm' =
      if vc' = vc ∧ sm' = sm then (b.voq vc sm).afterFlit dst p rest
      else b.voq vc' sm' := by
  unfold flitMove
  split <;> simp

/-- What holds of every packet of `b` and of every packet that replaces the head
holds of every packet after the replacement. -/
theorem forall_replaced {P : DsmVc → Nat → Nat → DsmPacket → Prop} {queue : List DsmPacket}
    (hb : ∀ vc src dst, ∀ p ∈ b.queue vc src dst, P vc src dst p)
    (hqueue : ∀ p ∈ queue, P vc sm dst p)
    (hb' : ∀ vc' sm' dst', b'.queue vc' sm' dst' =
      if vc' = vc ∧ sm' = sm ∧ dst' = dst then queue else b.queue vc' sm' dst') :
    ∀ vc src dst, ∀ p ∈ b'.queue vc src dst, P vc src dst p := by
  intro vc' src' dst' p hp
  rw [hb'] at hp
  split at hp
  · rename_i heq
    obtain ⟨rfl, rfl, rfl⟩ := heq
    exact hqueue p hp
  · exact hb vc' src' dst' p hp

theorem reserveMove_wf (h : b.WF n cfg) (hsm : sm < n) (hdst : dst < n)
    (hq : b.queue vc sm dst = p :: rest)
    (hneed : p.ejectionReservedFlits < b.reserveLimit vc p)
    (hfree : 0 < (b.credit vc).free dst) :
    (b.reserveMove vc sm dst p rest).WF n cfg := by
  rw [h.reserveLimit] at hneed
  have hp : p ∈ b.queue vc sm dst := by rw [hq]; exact List.mem_cons_self
  have hrest : ∀ r ∈ rest, r ∈ b.queue vc sm dst := by
    intro r hr
    rw [hq]
    exact List.mem_cons_of_mem p hr
  refine
    { nDst := ?_, limit := ?_, limit_pos := h.limit_pos, depth := ?_,
      depth_pos := h.depth_pos, voq_wf := ?_, outside := ?_,
      ej_outside := h.ej_outside, addressed := ?_, streaming := ?_,
      ej_addressed := h.ej_addressed, delivered := h.delivered, balance := ?_ }
  · intro vc' sm'
    rw [reserveMove_voq]
    split
    · exact h.nDst vc sm
    · exact h.nDst vc' sm'
  · intro vc' sm'
    rw [reserveMove_voq]
    split
    · rename_i heq
      rw [heq.1]
      exact h.limit vc sm
    · exact h.limit vc' sm'
  · intro vc'
    rw [reserveMove_depth]
    exact h.depth vc'
  · intro vc' sm'
    rw [reserveMove_voq]
    split
    · have hmod : ((b.voq vc sm).modifyFront dst (fun head =>
          { head with ejectionReservedFlits := head.ejectionReservedFlits + 1 })).WF :=
        BoundedVoq.modifyFront_wf (h.voq_wf vc sm) (fun _ => rfl)
      have hq' : (b.voq vc sm).q dst = p :: rest := hq
      simpa [BoundedVoq.modifyFront, hq'] using hmod
    · exact h.voq_wf vc' sm'
  · intro vc' src' dst' hout
    rw [reserveMove_queue, if_neg]
    · exact h.outside vc' src' dst' hout
    · rintro ⟨-, rfl, rfl⟩
      exact hout ⟨hsm, hdst⟩
  · refine forall_replaced h.addressed ?_ (reserveMove_queue b vc sm dst p rest)
    intro r hr
    rcases List.mem_cons.mp hr with rfl | hr
    · exact h.addressed vc sm dst p hp
    · exact h.addressed vc sm dst r (hrest r hr)
  · refine forall_replaced h.streaming ?_ (reserveMove_queue b vc sm dst p rest)
    intro r hr
    rcases List.mem_cons.mp hr with rfl | hr
    · obtain ⟨hle, hpos, hcov, -⟩ := h.streaming vc sm dst p hp
      exact ⟨hle, hpos, by simp only; omega, by simp only; omega⟩
    · exact h.streaming vc sm dst r (hrest r hr)
  · intro vc' dst' hdst'
    have hbal := h.balance vc' dst' hdst'
    rw [reserveMove_free, reserveMove_ej]
    by_cases heq : vc' = vc ∧ dst' = dst
    · -- the credit moves from the pool to the head
      obtain ⟨rfl, rfl⟩ := heq
      have hsum := reservedInVoqs_replace b (b.reserveMove vc' sm dst' p rest) vc' dst'
        hsm (by
          intro src hsrc
          rw [reserveMove_queue, if_neg]
          exact fun hc => hsrc hc.2.1)
      rw [reserveMove_queue, if_pos ⟨rfl, rfl, rfl⟩, hq] at hsum
      simp only [reservedFlits_cons] at hsum
      rw [if_pos ⟨rfl, rfl⟩]
      omega
    · have hsame := reservedInVoqs_congr (n := n) b (b.reserveMove vc sm dst p rest) vc' dst' (by
          intro src
          rw [reserveMove_queue, if_neg]
          exact fun hc => heq ⟨hc.1, hc.2.2⟩)
      rw [if_neg heq, hsame]
      exact hbal

theorem flitMove_wf (h : b.WF n cfg) (hsm : sm < n) (hdst : dst < n)
    (hq : b.queue vc sm dst = p :: rest) (hflit : 0 < p.remainingFlits)
    (hheld : min (p.totalFlits - p.remainingFlits + 1) (b.reserveLimit vc p) ≤
      p.ejectionReservedFlits) :
    (b.flitMove now vc sm dst p rest).WF n cfg := by
  rw [h.reserveLimit] at hheld
  have hp : p ∈ b.queue vc sm dst := by rw [hq]; exact List.mem_cons_self
  have hrest : ∀ r ∈ rest, r ∈ b.queue vc sm dst := by
    intro r hr
    rw [hq]
    exact List.mem_cons_of_mem p hr
  obtain ⟨hpvc, hpsrc, hpdst⟩ := h.addressed vc sm dst p hp
  obtain ⟨hle, hpos, hcov, hres⟩ := h.streaming vc sm dst p hp
  -- what stands in the queue afterwards
  have hafter : ∀ r ∈ (if 1 < p.remainingFlits then
      { p with remainingFlits := p.remainingFlits - 1 } :: rest else rest),
      (r = { p with remainingFlits := p.remainingFlits - 1 } ∧ 1 < p.remainingFlits) ∨
        r ∈ b.queue vc sm dst := by
    intro r hr
    split at hr
    · rename_i hmore
      rcases List.mem_cons.mp hr with rfl | hr
      · exact .inl ⟨rfl, hmore⟩
      · exact .inr (hrest r hr)
    · exact .inr (hrest r hr)
  refine
    { nDst := ?_, limit := ?_, limit_pos := h.limit_pos, depth := ?_,
      depth_pos := h.depth_pos, voq_wf := ?_, outside := ?_,
      ej_outside := ?_, addressed := ?_, streaming := ?_,
      ej_addressed := ?_, delivered := ?_, balance := ?_ }
  · intro vc' sm'
    rw [flitMove_voq]
    split
    · exact h.nDst vc sm
    · exact h.nDst vc' sm'
  · intro vc' sm'
    rw [flitMove_voq]
    split
    · rename_i heq
      rw [heq.1]
      exact h.limit vc sm
    · exact h.limit vc' sm'
  · intro vc'
    rw [flitMove_credit]
    exact h.depth vc'
  · intro vc' sm'
    rw [flitMove_voq]
    split
    · exact BoundedVoq.afterFlit_wf (h.voq_wf vc sm) hq hflit
    · exact h.voq_wf vc' sm'
  · intro vc' src' dst' hout
    rw [flitMove_queue, if_neg]
    · exact h.outside vc' src' dst' hout
    · rintro ⟨-, rfl, rfl⟩
      exact hout ⟨hsm, hdst⟩
  · intro vc' dst' hout
    rw [flitMove_ej, if_neg]
    · exact h.ej_outside vc' dst' hout
    · rintro ⟨-, rfl, -⟩
      exact hout hdst
  · refine forall_replaced h.addressed ?_ (flitMove_queue b now vc sm dst p rest)
    intro r hr
    rcases hafter r hr with ⟨rfl, -⟩ | hr
    · exact ⟨hpvc, hpsrc, hpdst⟩
    · exact h.addressed vc sm dst r hr
  · refine forall_replaced h.streaming ?_ (flitMove_queue b now vc sm dst p rest)
    intro r hr
    rcases hafter r hr with ⟨rfl, hmore⟩ | hr
    · exact ⟨by simp only; omega, fun _ => by simp only; omega, by simp only; omega, hres⟩
    · exact h.streaming vc sm dst r hr
  · intro vc' dst' r hr
    rw [flitMove_ej] at hr
    split at hr
    · rename_i heq
      obtain ⟨rfl, rfl, -⟩ := heq
      rcases List.mem_append.mp hr with hr | hr
      · exact h.ej_addressed vc' dst' r hr
      · rw [List.mem_singleton.mp hr]
        exact ⟨hpvc, hpsrc ▸ hsm, hpdst⟩
    · exact h.ej_addressed vc' dst' r hr
  · intro vc' dst' r hr
    rw [flitMove_ej] at hr
    split at hr
    · rename_i heq
      obtain ⟨rfl, rfl, hlast⟩ := heq
      rcases List.mem_append.mp hr with hr | hr
      · exact h.delivered vc' dst' r hr
      · -- the last flit leaves only with the full reservation
        rw [List.mem_singleton.mp hr]
        simp only [arrived]
        omega
    · exact h.delivered vc' dst' r hr
  · intro vc' dst' hdst'
    have hbal := h.balance vc' dst' hdst'
    rw [flitMove_credit, flitMove_ej]
    by_cases heq : vc' = vc ∧ dst' = dst
    · obtain ⟨rfl, rfl⟩ := heq
      have hsum := reservedInVoqs_replace b (b.flitMove now vc' sm dst' p rest) vc' dst'
        hsm (by
          intro src hsrc
          rw [flitMove_queue, if_neg]
          exact fun hc => hsrc hc.2.1)
      rw [flitMove_queue, if_pos ⟨rfl, rfl, rfl⟩, hq] at hsum
      by_cases hmore : 1 < p.remainingFlits
      · simp only [hmore, if_true, reservedFlits_cons] at hsum
        simp only [hmore, not_true_eq_false, and_false, if_false]
        omega
      · -- the reservation travels with the packet into the ejection queue
        simp only [hmore, if_false, reservedFlits_cons] at hsum
        simp only [hmore, not_false_eq_true, and_self, if_true, reservedFlits_append,
          reservedFlits_cons, reservedFlits_nil, arrived]
        omega
    · have hsame := reservedInVoqs_congr (n := n) b (b.flitMove now vc sm dst p rest) vc' dst' (by
          intro src
          rw [flitMove_queue, if_neg]
          exact fun hc => heq ⟨hc.1, hc.2.2⟩)
      rw [if_neg (fun hc => heq ⟨hc.1, hc.2.1⟩), hsame]
      exact hbal

theorem FlitMove.wf (hmove : FlitMove n now vc sm b b') (h : b.WF n cfg) :
    b'.WF n cfg := by
  cases hmove with
  | reserve hsm hdst hq hneed hfree => exact reserveMove_wf h hsm hdst hq hneed hfree
  | flit hsm hdst hq hflit hheld => exact flitMove_wf h hsm hdst hq hflit hheld

theorem GrantMoves.wf (hmoves : GrantMoves n now vc sm b b') (h : b.WF n cfg) :
    b'.WF n cfg := by
  induction hmoves with
  | refl => exact h
  | tail _ hmove ih => exact hmove.wf ih

end FabricBuffers

end FlashGpuSim
