import FlashGpuSim.Lib.Reach
import FlashGpuSim.Dsm.FabricSchedule

/-!
Runs of the fabric: `inject`, `cycle` and `pop` in any order. Each operation is
described once, and the invariant of the queues and credits is carried over it.
-/

namespace FlashGpuSim

open Lib Relation

/-- A packet as its sender builds it: nothing is reserved for it, and its flits
are either left to `inject` or all still to be sent. -/
structure DsmPacket.Fresh (p : DsmPacket) : Prop where
  unreserved : p.ejectionReservedFlits = 0
  unsent : p.totalFlits = 0 ∨ p.remainingFlits = 0 ∨ p.remainingFlits = p.totalFlits

/-- Where `inject` puts a packet: a read command goes in front of queued data. -/
def insertQueue (pkt : DsmPacket) (queue : List DsmPacket) : List DsmPacket :=
  if pkt.packetClass = .readCommand ∧ ∃ q ∈ queue, q.packetClass ≠ .readCommand then
    pkt :: queue
  else queue ++ [pkt]

theorem insertQueue_perm (pkt : DsmPacket) (queue : List DsmPacket) :
    (insertQueue pkt queue).Perm (pkt :: queue) := by
  unfold insertQueue
  split
  · exact List.Perm.refl _
  · exact List.perm_append_singleton pkt queue

namespace FabricBuffers

/-- Any move of any grant of a cycle. -/
abbrev CycleMoves (n now : Nat) : FabricBuffers → FabricBuffers → Prop :=
  ReflTransGen (fun b b' => ∃ vc sm, FlitMove n now vc sm b b')

theorem GrantMoves.cycleMoves {b b' : FabricBuffers} {n now sm : Nat} {vc : DsmVc}
    (h : GrantMoves n now vc sm b b') : CycleMoves n now b b' :=
  ReflTransGen.mono (fun _ _ hmove => ⟨vc, sm, hmove⟩) _ _ h

/-- The state after the head `p` of an ejection queue is popped. -/
def popMove (b : FabricBuffers) (vc : DsmVc) (dst : Nat) (p : DsmPacket)
    (rest : List DsmPacket) : FabricBuffers :=
  { (b.setEj vc dst rest).setCredit vc { b.credit vc with
      free := Function.update (b.credit vc).free dst
        ((b.credit vc).free dst + p.ejectionReservedFlits) } with
    popped := b.popped ++ [(vc, dst, p)] }

/-- The state after `pkt` is stored in its VOQ. -/
def storeMove (b : FabricBuffers) (pkt : DsmPacket) : FabricBuffers :=
  { b.setVoq pkt.vc pkt.networkSrcSmId
      ((b.voq pkt.vc pkt.networkSrcSmId).stored pkt.networkDstSmId
        (insertQueue pkt (b.queue pkt.vc pkt.networkSrcSmId pkt.networkDstSmId))
        pkt.remainingFlits) with
    accepted := b.accepted ++ [pkt] }

section MoveSimp

variable (b : FabricBuffers) (vc : DsmVc) (dst : Nat) (p : DsmPacket) (rest : List DsmPacket)

@[simp] theorem popMove_queue : (b.popMove vc dst p rest).queue = b.queue := rfl

@[simp] theorem popMove_ej (vc' : DsmVc) (dst' : Nat) :
    (b.popMove vc dst p rest).ej vc' dst' =
      if vc' = vc ∧ dst' = dst then rest else b.ej vc' dst' :=
  setEj_ej b vc dst rest vc' dst'

@[simp] theorem popMove_depth (vc' : DsmVc) :
    ((b.popMove vc dst p rest).credit vc').depth = (b.credit vc').depth := by
  by_cases h : vc' = vc
  · subst h
    simp [popMove]
  · simp [popMove, h]

@[simp] theorem popMove_free (vc' : DsmVc) (dst' : Nat) :
    ((b.popMove vc dst p rest).credit vc').free dst' =
      if vc' = vc ∧ dst' = dst then (b.credit vc).free dst + p.ejectionReservedFlits
      else (b.credit vc').free dst' := by
  by_cases h : vc' = vc
  · subst h
    simp [popMove, Function.update_apply]
  · simp [popMove, h]

@[simp] theorem storeMove_queue (pkt : DsmPacket) (vc' : DsmVc) (src' dst' : Nat) :
    (b.storeMove pkt).queue vc' src' dst' =
      if vc' = pkt.vc ∧ src' = pkt.networkSrcSmId ∧ dst' = pkt.networkDstSmId then
        insertQueue pkt (b.queue pkt.vc pkt.networkSrcSmId pkt.networkDstSmId)
      else b.queue vc' src' dst' := by
  by_cases h : vc' = pkt.vc ∧ src' = pkt.networkSrcSmId
  · obtain ⟨rfl, rfl⟩ := h
    simp [storeMove, queue]
  · have h' : ¬ (vc' = pkt.vc ∧ src' = pkt.networkSrcSmId ∧ dst' = pkt.networkDstSmId) :=
      fun hc => h ⟨hc.1, hc.2.1⟩
    simp [storeMove, queue, h, h']

@[simp] theorem storeMove_ej (pkt : DsmPacket) : (b.storeMove pkt).ej = b.ej := rfl

@[simp] theorem storeMove_credit (pkt : DsmPacket) :
    (b.storeMove pkt).credit = b.credit := rfl

end MoveSimp

variable {b : FabricBuffers} {n : Nat} {cfg : DsmFabricConfig} {vc : DsmVc} {dst : Nat}
  {p : DsmPacket} {rest : List DsmPacket}

theorem CycleMoves.wf {b' : FabricBuffers} {now : Nat} (hmoves : CycleMoves n now b b')
    (h : b.WF n cfg) : b'.WF n cfg := by
  induction hmoves with
  | refl => exact h
  | tail _ hmove ih =>
    obtain ⟨vc, sm, hmove⟩ := hmove
    exact hmove.wf ih

theorem popMove_wf (h : b.WF n cfg) (hej : b.ej vc dst = p :: rest) :
    (b.popMove vc dst p rest).WF n cfg := by
  have hdst : dst < n := by
    by_contra hout
    rw [h.ej_outside vc dst hout] at hej
    cases hej
  have hsub : ∀ vc' dst', ∀ r ∈ (b.popMove vc dst p rest).ej vc' dst',
      r ∈ b.ej vc' dst' := by
    intro vc' dst' r hr
    rw [popMove_ej] at hr
    split at hr
    · rename_i heq
      obtain ⟨rfl, rfl⟩ := heq
      rw [hej]
      exact List.mem_cons_of_mem p hr
    · exact hr
  refine
    { nDst := h.nDst, limit := h.limit, limit_pos := h.limit_pos, depth := ?_,
      depth_pos := h.depth_pos, voq_wf := h.voq_wf, outside := h.outside,
      ej_outside := ?_, addressed := h.addressed, streaming := h.streaming,
      ej_addressed := fun vc' dst' r hr => h.ej_addressed vc' dst' r (hsub vc' dst' r hr),
      delivered := fun vc' dst' r hr => h.delivered vc' dst' r (hsub vc' dst' r hr),
      balance := ?_ }
  · intro vc'
    rw [popMove_depth]
    exact h.depth vc'
  · intro vc' dst' hout
    rw [popMove_ej, if_neg]
    · exact h.ej_outside vc' dst' hout
    · rintro ⟨-, rfl⟩
      exact hout hdst
  · intro vc' dst' hdst'
    have hbal := h.balance vc' dst' hdst'
    rw [popMove_free, popMove_ej]
    change _ + _ + b.reservedInVoqs n vc' dst' = _
    by_cases heq : vc' = vc ∧ dst' = dst
    · -- the packet's credits go back to the pool
      obtain ⟨rfl, rfl⟩ := heq
      rw [hej, reservedFlits_cons] at hbal
      rw [if_pos ⟨rfl, rfl⟩, if_pos ⟨rfl, rfl⟩]
      omega
    · rw [if_neg heq, if_neg heq]
      exact hbal

theorem storeMove_wf (h : b.WF n cfg) {pkt : DsmPacket}
    (hsrc : pkt.networkSrcSmId < n) (hdst : pkt.networkDstSmId < n)
    (hcan : (b.voq pkt.vc pkt.networkSrcSmId).canPush pkt.networkDstSmId
      pkt.remainingFlits = true)
    (hres : pkt.ejectionReservedFlits = 0) (hrem : pkt.remainingFlits = pkt.totalFlits) :
    (b.storeMove pkt).WF n cfg := by
  have hvoq : ∀ vc' sm', (b.storeMove pkt).voq vc' sm' =
      if vc' = pkt.vc ∧ sm' = pkt.networkSrcSmId then
        (b.voq pkt.vc pkt.networkSrcSmId).stored pkt.networkDstSmId
          (insertQueue pkt (b.queue pkt.vc pkt.networkSrcSmId pkt.networkDstSmId))
          pkt.remainingFlits
      else b.voq vc' sm' := fun vc' sm' => setVoq_voq _ _ _ _ vc' sm'
  have hperm := insertQueue_perm pkt (b.queue pkt.vc pkt.networkSrcSmId pkt.networkDstSmId)
  have hmem : ∀ r ∈ insertQueue pkt (b.queue pkt.vc pkt.networkSrcSmId pkt.networkDstSmId),
      r = pkt ∨ r ∈ b.queue pkt.vc pkt.networkSrcSmId pkt.networkDstSmId := fun r hr =>
    List.mem_cons.mp (hperm.mem_iff.mp hr)
  refine
    { nDst := ?_, limit := ?_, limit_pos := h.limit_pos, depth := h.depth,
      depth_pos := h.depth_pos, voq_wf := ?_, outside := ?_,
      ej_outside := h.ej_outside, addressed := ?_, streaming := ?_,
      ej_addressed := h.ej_addressed, delivered := h.delivered, balance := ?_ }
  · intro vc' sm'
    rw [hvoq]
    split
    · exact h.nDst _ _
    · exact h.nDst vc' sm'
  · intro vc' sm'
    rw [hvoq]
    split
    · rename_i heq
      rw [heq.1]
      exact h.limit _ _
    · exact h.limit vc' sm'
  · intro vc' sm'
    rw [hvoq]
    split
    · exact BoundedVoq.stored_wf (h.voq_wf _ _) hcan hperm
    · exact h.voq_wf vc' sm'
  · intro vc' src' dst' hout
    rw [storeMove_queue, if_neg]
    · exact h.outside vc' src' dst' hout
    · rintro ⟨-, rfl, rfl⟩
      exact hout ⟨hsrc, hdst⟩
  · refine forall_replaced h.addressed ?_ (storeMove_queue b pkt)
    intro r hr
    rcases hmem r hr with rfl | hr
    · exact ⟨rfl, rfl, rfl⟩
    · exact h.addressed _ _ _ r hr
  · refine forall_replaced h.streaming ?_ (storeMove_queue b pkt)
    intro r hr
    rcases hmem r hr with rfl | hr
    · exact ⟨by omega, by omega, by omega, by omega⟩
    · exact h.streaming _ _ _ r hr
  · intro vc' dst' hdst'
    have hbal := h.balance vc' dst' hdst'
    rw [storeMove_credit, storeMove_ej]
    by_cases heq : vc' = pkt.vc ∧ dst' = pkt.networkDstSmId
    · obtain ⟨rfl, rfl⟩ := heq
      have hsum := reservedInVoqs_replace b (b.storeMove pkt) pkt.vc pkt.networkDstSmId
        hsrc (by
          intro src hne
          rw [storeMove_queue, if_neg]
          exact fun hc => hne hc.2.1)
      have hnew : reservedFlits (insertQueue pkt
          (b.queue pkt.vc pkt.networkSrcSmId pkt.networkDstSmId)) =
            reservedFlits (b.queue pkt.vc pkt.networkSrcSmId pkt.networkDstSmId) := by
        rw [reservedFlits, (hperm.map _).sum_eq]
        simp [reservedFlits, hres]
      rw [storeMove_queue, if_pos ⟨rfl, rfl, rfl⟩, hnew] at hsum
      omega
    · have hsame := reservedInVoqs_congr (n := n) b (b.storeMove pkt) vc' dst' (by
          intro src
          rw [storeMove_queue, if_neg]
          exact fun hc => heq ⟨hc.1, hc.2.2⟩)
      rw [hsame]
      exact hbal

theorem init_wf (n : Nat) (cfg : DsmFabricConfig) (hlimit : ∀ vc, 0 < cfg.vcFlits vc)
    (hdepth : 0 < cfg.ejectionVcFlits) : (FabricBuffers.init n cfg).WF n cfg where
  nDst _ _ := rfl
  limit _ _ := rfl
  limit_pos := hlimit
  depth _ := rfl
  depth_pos := hdepth
  voq_wf _ _ := BoundedVoq.init_wf _ _
  outside _ _ _ _ := rfl
  ej_outside _ _ _ := rfl
  addressed _ _ _ _ hp := nomatch hp
  streaming _ _ _ _ hp := nomatch hp
  ej_addressed _ _ _ hp := nomatch hp
  delivered _ _ _ hp := nomatch hp
  balance _ _ _ := by
    simp [FabricBuffers.init, FlitCreditCounters.init, reservedInVoqs, queue, BoundedVoq.init]

end FabricBuffers

namespace DsmFabric

variable {f f' : DsmFabric} {packet : DsmPacket} {vc : DsmVc} {dst now : Nat}

/-! ### `inject` -/

/-- The packet `inject` queues. -/
def queuedPacket (f : DsmFabric) (packet : DsmPacket) : DsmPacket :=
  f.stamped (f.withFlits packet)

/-- `inject` writes flit counts, the packet id, time stamps and the route, and
leaves everything else of the packet as it came. -/
theorem queuedPacket_eq (f : DsmFabric) (packet : DsmPacket) :
    ∃ packetId total remaining created gx lane,
      f.queuedPacket packet = { packet with
        packetId := packetId, totalFlits := total, remainingFlits := remaining,
        createdCycle := created, injectedCycle := f.now, gxPlane := gx, routeLane := lane,
        serial := f.accepted.length } := by
  unfold queuedPacket stamped withFlits
  by_cases htotal : packet.totalFlits = 0
  · simp only [htotal, if_true]
    split
    · exact ⟨_, _, _, _, _, _, rfl⟩
    · exact ⟨_, _, _, _, _, _, rfl⟩
  · simp only [htotal, if_false]
    split
    · exact ⟨_, _, _, _, _, _, rfl⟩
    · exact ⟨_, _, _, _, _, _, rfl⟩

section QueuedPacket

variable (f packet)

@[simp] theorem queuedPacket_vc : (f.queuedPacket packet).vc = packet.vc := by
  obtain ⟨_, _, _, _, _, _, h⟩ := f.queuedPacket_eq packet
  rw [h]

@[simp] theorem queuedPacket_src :
    (f.queuedPacket packet).networkSrcSmId = packet.networkSrcSmId := by
  obtain ⟨_, _, _, _, _, _, h⟩ := f.queuedPacket_eq packet
  rw [h]

@[simp] theorem queuedPacket_dst :
    (f.queuedPacket packet).networkDstSmId = packet.networkDstSmId := by
  obtain ⟨_, _, _, _, _, _, h⟩ := f.queuedPacket_eq packet
  rw [h]

@[simp] theorem queuedPacket_class :
    (f.queuedPacket packet).packetClass = packet.packetClass := by
  obtain ⟨_, _, _, _, _, _, h⟩ := f.queuedPacket_eq packet
  rw [h]

@[simp] theorem queuedPacket_serial :
    (f.queuedPacket packet).serial = f.accepted.length := by
  obtain ⟨_, _, _, _, _, _, h⟩ := f.queuedPacket_eq packet
  rw [h]

end QueuedPacket

theorem queuedPacket_fresh (h : packet.Fresh) :
    (f.queuedPacket packet).ejectionReservedFlits = 0 ∧
      (f.queuedPacket packet).remainingFlits = (f.queuedPacket packet).totalFlits := by
  constructor
  · obtain ⟨_, _, _, _, _, _, heq⟩ := f.queuedPacket_eq packet
    rw [heq]
    exact h.unreserved
  · unfold queuedPacket stamped withFlits
    rcases h.unsent with htotal | hrem | hsame
    · simp only [htotal, if_true]
      split <;> rfl
    · by_cases htotal : packet.totalFlits = 0
      · simp only [htotal, if_true]
        split <;> rfl
      · simp only [htotal, hrem, if_false, if_true]
    · by_cases htotal : packet.totalFlits = 0
      · simp only [htotal, if_true]
        split <;> rfl
      · have hrem : ¬ packet.remainingFlits = 0 := by omega
        simp only [htotal, hrem, if_false]
        exact hsame

/-- Whether `inject` accepts a packet. -/
def accepts (f : DsmFabric) (packet : DsmPacket) : Bool :=
  f.canInject packet.networkSrcSmId packet.vc packet.networkDstSmId
    (f.withFlits packet).remainingFlits

/-- The fabric after an accepted `inject`. -/
def injected (f : DsmFabric) (packet : DsmPacket) : DsmFabric :=
  { f with
    toFabricBuffers := f.toFabricBuffers.storeMove (f.queuedPacket packet)
    nextPktId :=
      if packet.packetId = 0 then (f.nextPktId + 1) % 2 ^ 32 else f.nextPktId }

theorem withFlits_same (f : DsmFabric) (packet : DsmPacket) :
    (f.withFlits packet).vc = packet.vc ∧
      (f.withFlits packet).networkSrcSmId = packet.networkSrcSmId ∧
      (f.withFlits packet).networkDstSmId = packet.networkDstSmId ∧
      (f.withFlits packet).packetId = packet.packetId := by
  unfold withFlits
  by_cases htotal : packet.totalFlits = 0
  · simp only [htotal, if_true]
    split <;> exact ⟨rfl, rfl, rfl, rfl⟩
  · simp only [htotal, if_false]
    split <;> exact ⟨rfl, rfl, rfl, rfl⟩

theorem accepts_spec (h : f.accepts packet = true) :
    packet.networkSrcSmId < f.n ∧ packet.networkDstSmId < f.n ∧
      (f.voq packet.vc packet.networkSrcSmId).canPush packet.networkDstSmId
        (f.withFlits packet).remainingFlits = true := by
  simp only [accepts, canInject, Bool.and_eq_true, decide_eq_true_eq] at h
  exact ⟨h.1.1, h.1.2, h.2⟩

/-- `inject` never fails: it stores an accepted packet and drops any other. -/
theorem inject_eq (hinv : f.Inv) (packet : DsmPacket) :
    f.inject packet = .ok (if f.accepts packet then f.injected packet else f) := by
  obtain ⟨hvc, hsrc, hdst, hid⟩ := f.withFlits_same packet
  have hqueued : f.stamped (f.withFlits packet) = f.queuedPacket packet := rfl
  unfold inject
  simp only [hvc, hsrc, hdst, hid, hqueued, queuedPacket_vc, queuedPacket_class]
  change (if f.accepts packet = true then _ else _) = _
  by_cases hacc : f.accepts packet = true
  · rw [if_pos hacc, if_pos hacc]
    obtain ⟨-, hdstn, hcan⟩ := accepts_spec hacc
    have hd : packet.networkDstSmId < (f.voq packet.vc packet.networkSrcSmId).nDst := by
      rw [hinv.buffers.nDst]
      exact hdstn
    have hcan' : (f.voq packet.vc packet.networkSrcSmId).canPush packet.networkDstSmId
        (FlitPacket.remainingFlits (f.queuedPacket packet)) = true := hcan
    rw [BoundedVoq.pushFront_eq _ hd hcan', BoundedVoq.push_eq _ hd hcan']
    have hcontains : (packet.packetClass == .readCommand &&
        (f.voq packet.vc packet.networkSrcSmId).contains packet.networkDstSmId
          (fun queued => queued.packetClass != .readCommand)) = true ↔
        packet.packetClass = .readCommand ∧
          ∃ q ∈ f.queue packet.vc packet.networkSrcSmId packet.networkDstSmId,
            q.packetClass ≠ .readCommand := by
      simp only [Bool.and_eq_true, beq_iff_eq, BoundedVoq.contains, List.any_eq_true,
        bne_iff_ne]
      rfl
    by_cases hread : packet.packetClass = .readCommand ∧
        ∃ q ∈ f.queue packet.vc packet.networkSrcSmId packet.networkDstSmId,
          q.packetClass ≠ .readCommand
    · rw [if_pos (hcontains.mpr hread)]
      have hins : insertQueue (f.queuedPacket packet)
          (f.queue packet.vc packet.networkSrcSmId packet.networkDstSmId) =
          f.queuedPacket packet ::
            f.queue packet.vc packet.networkSrcSmId packet.networkDstSmId := by
        rw [insertQueue, queuedPacket_class, if_pos hread]
      simp only [injected, FabricBuffers.storeMove, queuedPacket_vc, queuedPacket_src,
        queuedPacket_dst, hins]
      rfl
    · rw [if_neg (fun hc => hread (hcontains.mp hc))]
      have hins : insertQueue (f.queuedPacket packet)
          (f.queue packet.vc packet.networkSrcSmId packet.networkDstSmId) =
          f.queue packet.vc packet.networkSrcSmId packet.networkDstSmId ++
            [f.queuedPacket packet] := by
        rw [insertQueue, queuedPacket_class, if_neg hread]
      simp only [injected, FabricBuffers.storeMove, queuedPacket_vc, queuedPacket_src,
        queuedPacket_dst, hins]
      rfl
  · rw [if_neg hacc, if_neg hacc]
    rfl

theorem injected_inv (hinv : f.Inv) (hfresh : packet.Fresh) (hacc : f.accepts packet = true) :
    (f.injected packet).Inv := by
  obtain ⟨hsrcn, hdstn, hcan⟩ := accepts_spec hacc
  obtain ⟨hres, hrem⟩ := queuedPacket_fresh (f := f) hfresh
  refine ⟨?_, hinv.n_pos, hinv.lanes_pos, hinv.routes_pos, hinv.routeRr_width,
    hinv.cpcRr_width⟩
  apply FabricBuffers.storeMove_wf hinv.buffers
  · rw [queuedPacket_src]
    exact hsrcn
  · rw [queuedPacket_dst]
    exact hdstn
  · rw [queuedPacket_vc, queuedPacket_src, queuedPacket_dst]
    exact hcan
  · exact hres
  · exact hrem

/-! ### `pop` -/

theorem top_spec {p : DsmPacket} (h : f.top dst vc = some p) :
    dst < f.n ∧ f.ejectionVisible p = true ∧ ∃ rest, f.ej vc dst = p :: rest := by
  unfold top at h
  split at h
  · rename_i hdst
    split at h
    · cases h
    · rename_i q rest hej
      split at h
      · rename_i hvis
        obtain rfl := Option.some.inj h
        exact ⟨hdst, hvis, rest, hej⟩
      · cases h
  · cases h

/-- The fabric after a successful `pop`. -/
def poppedHead (f : DsmFabric) (vc : DsmVc) (dst : Nat) (p : DsmPacket) : DsmFabric :=
  { f with toFabricBuffers := f.toFabricBuffers.popMove vc dst p (f.ej vc dst).tail }

/-- `pop` never fails: the credits it gives back were taken from the same pool. -/
theorem pop_eq (hinv : f.Inv) (dst : Nat) (vc : DsmVc) :
    f.pop dst vc = .ok (f.top dst vc,
      match f.top dst vc with
      | some p => f.poppedHead vc dst p
      | none => f) := by
  unfold pop
  cases htop : f.top dst vc with
  | none => rfl
  | some p =>
    obtain ⟨hdst, -, rest, hej⟩ := top_spec htop
    have hbal := hinv.buffers.balance vc dst hdst
    rw [hej, reservedFlits_cons] at hbal
    have hgive : (f.credit vc).free dst + p.ejectionReservedFlits ≤ (f.credit vc).depth := by
      rw [hinv.buffers.depth]
      omega
    simp only [FlitCreditCounters.give_eq hgive]
    rfl

theorem poppedHead_inv {p : DsmPacket} (hinv : f.Inv) (htop : f.top dst vc = some p) :
    (f.poppedHead vc dst p).Inv := by
  obtain ⟨-, -, rest, hej⟩ := top_spec htop
  refine ⟨?_, hinv.n_pos, hinv.lanes_pos, hinv.routes_pos, hinv.routeRr_width,
    hinv.cpcRr_width⟩
  unfold poppedHead
  rw [hej]
  exact FabricBuffers.popMove_wf hinv.buffers hej

/-! ### `cycle` -/

/-- What a cycle does: the shaper step, then moves. -/
structure Cycled (now : Nat) (f f' : DsmFabric) : Prop where
  setup : SameSetup (f.shape now) f'
  inv : f'.Inv
  moves : FabricBuffers.CycleMoves f.n now f.toFabricBuffers f'.toFabricBuffers

theorem Cycled.refl (hinv : f.Inv) (now : Nat) : Cycled now f (f.shape now) :=
  ⟨SameSetup.refl _, shape_inv hinv now, .refl⟩

theorem Cycled.arbiters (h : Cycled now f f') (routeRr cpcRr : Nat → RoundRobinArbiter)
    (hinv : ({ f' with routeRr := routeRr, cpcRr := cpcRr } : DsmFabric).Inv) :
    Cycled now f { f' with routeRr := routeRr, cpcRr := cpcRr } :=
  ⟨h.setup.trans ⟨rfl, rfl, rfl, rfl, rfl, rfl, rfl, rfl, rfl, rfl, rfl⟩, hinv, h.moves⟩

theorem Cycled.served {f'' : DsmFabric} {r : Request} (h : Cycled now f f')
    (hserved : Served now r f' f'') : Cycled now f f'' := by
  have hmoves := hserved.moves.cycleMoves
  rw [h.setup.n] at hmoves
  exact ⟨h.setup.trans hserved.setup, hserved.inv h.inv, h.moves.trans hmoves⟩

theorem CycleMoves.flitFailure {b b' : FabricBuffers} {n : Nat} {e : Assertion}
    (hmoves : FabricBuffers.CycleMoves n now b b') (h : b'.FlitFailure e) :
    b.FlitFailure e := by
  refine ⟨h.1, fun hall => h.2 ?_⟩
  clear h
  induction hmoves with
  | refl => exact hall
  | tail _ hmove ih =>
    obtain ⟨vc, sm, hmove⟩ := hmove
    exact hmove.allFlits ih

/-- A cycle keeps the invariant, and only a packet without flits can stop it. -/
theorem cycle_spec (hinv : f.Inv) (now : Nat) :
    Outcome (f.cycle now) (Cycled now f) f.FlitFailure := by
  have hloop : LoopInvariant now (f.shape now).collectRequests (f.shape now)
      (Cycled now f) f.FlitFailure :=
    { setup := fun g hg => hg.setup
      inv := fun g hg => hg.inv
      arbiters := fun g routeRr cpcRr hg hinv' => hg.arbiters routeRr cpcRr hinv'
      served := fun g g' r hg _ _ hserved => hg.served hserved
      failure := fun g e hg he => CycleMoves.flitFailure hg.moves he }
  exact cycle_rule hinv hloop (Cycled.refl hinv now)

/-! ### Runs -/

/-- The operations of the fabric's environment. -/
inductive Op
  | inject (packet : DsmPacket)
  | cycle (now : Nat)
  | pop (dst : Nat) (vc : DsmVc)

def step (f : DsmFabric) : Op → Checked DsmFabric
  | .inject packet => f.inject packet
  | .cycle now => f.cycle now
  | .pop dst vc => return (← f.pop dst vc).2

/-- Senders inject fresh packets. -/
def FreshOp : Op → Prop
  | .inject packet => packet.Fresh
  | _ => True

/-- Senders inject fresh packets of at least one flit. -/
def FlitOp (f : DsmFabric) : Op → Prop
  | .inject packet => packet.Fresh ∧ 0 < (f.withFlits packet).totalFlits
  | _ => True

theorem FlitOp.fresh {op : Op} (h : f.FlitOp op) : FreshOp op := by
  cases op with
  | inject packet => exact h.1
  | cycle now => trivial
  | pop dst vc => trivial

/-- One operation keeps the invariant, and only a cycle can fail. -/
theorem step_inv (hinv : f.Inv) {op : Op} (hop : FreshOp op) :
    Outcome (f.step op) Inv f.FlitFailure := by
  cases op with
  | inject packet =>
    simp only [step, inject_eq hinv]
    split
    · rename_i hacc
      exact injected_inv hinv hop hacc
    · exact hinv
  | cycle now => exact (cycle_spec hinv now).imp (fun _ h => h.inv)
  | pop dst vc =>
    simp only [step, pop_eq hinv]
    cases htop : f.top dst vc with
    | none => exact hinv
    | some p => exact poppedHead_inv hinv htop

theorem orDefault_pos {x d : Nat} (hd : 0 < d) : 0 < orDefault x d := by
  unfold orDefault
  split
  · exact hd
  · omega

theorem construct_spec {topo : GpuTopology} {gpc : Nat} {cfg : DsmFabricConfig}
    (h : construct topo gpc cfg = .ok f) :
    f.Inv ∧ f.cfg = cfg.resolve topo ∧ f.toFabricBuffers = FabricBuffers.init f.n f.cfg := by
  unfold construct at h
  obtain ⟨_, hn, h⟩ := bind_eq_ok h
  obtain ⟨_, _, h⟩ := bind_eq_ok h
  obtain ⟨_, hroutes, h⟩ := bind_eq_ok h
  obtain ⟨_, _, h⟩ := bind_eq_ok h
  obtain rfl := Except.ok.inj h
  refine ⟨?_, rfl, rfl⟩
  refine ⟨?_, require_ok hn, orDefault_pos (by omega), require_ok hroutes, fun _ => rfl,
    fun _ => rfl⟩
  refine FabricBuffers.init_wf _ _ ?_ (orDefault_pos (by omega))
  intro vc
  cases vc with
  | request => exact orDefault_pos (by omega)
  | response => exact orDefault_pos (by omega)

/-- The invariant holds in every state that fresh packets lead to. -/
theorem reaches_inv {f₀ : DsmFabric} {allowed : DsmFabric → Op → Prop}
    (h : Reaches step allowed f₀ f) (hinit : f₀.Inv)
    (hfresh : ∀ f op, allowed f op → FreshOp op) : f.Inv :=
  h.invariant Inv hinit fun _ _ _ hinv hallowed hok =>
    (step_inv hinv (hfresh _ _ hallowed)).of_ok hok

/-- The states of a constructed fabric under operations allowed by `allowed`. -/
def Reachable (topo : GpuTopology) (gpc : Nat) (cfg : DsmFabricConfig)
    (allowed : DsmFabric → Op → Prop) (f : DsmFabric) : Prop :=
  ∃ f₀, construct topo gpc cfg = .ok f₀ ∧ Reaches step allowed f₀ f

theorem Reachable.inv {topo : GpuTopology} {gpc : Nat} {cfg : DsmFabricConfig}
    {allowed : DsmFabric → Op → Prop} (h : Reachable topo gpc cfg allowed f)
    (hfresh : ∀ f op, allowed f op → FreshOp op) : f.Inv := by
  obtain ⟨f₀, hbuilt, hrun⟩ := h
  exact reaches_inv hrun (construct_spec hbuilt).1 hfresh

/-! ### Concrete runs -/

instance (p : DsmPacket) : Decidable p.Fresh :=
  decidable_of_iff (p.ejectionReservedFlits = 0 ∧
      (p.totalFlits = 0 ∨ p.remainingFlits = 0 ∨ p.remainingFlits = p.totalFlits))
    ⟨fun h => ⟨h.1, h.2⟩, fun h => ⟨h.1, h.2⟩⟩

instance : DecidablePred FreshOp
  | .inject packet => inferInstanceAs (Decidable packet.Fresh)
  | .cycle _ => inferInstanceAs (Decidable True)
  | .pop _ _ => inferInstanceAs (Decidable True)

instance (f : DsmFabric) : DecidablePred f.FlitOp
  | .inject packet =>
    inferInstanceAs (Decidable (packet.Fresh ∧ 0 < (f.withFlits packet).totalFlits))
  | .cycle _ => inferInstanceAs (Decidable True)
  | .pop _ _ => inferInstanceAs (Decidable True)

/-- A constructed fabric after a list of allowed operations. -/
def runFrom (topo : GpuTopology) (gpc : Nat) (cfg : DsmFabricConfig)
    (allowed : DsmFabric → Op → Prop) [∀ f op, Decidable (allowed f op)] (ops : List Op) :
    Option DsmFabric :=
  match construct topo gpc cfg with
  | .ok f => runAllowed step allowed f ops
  | .error _ => none

theorem reachable_of_runFrom {topo : GpuTopology} {gpc : Nat} {cfg : DsmFabricConfig}
    {allowed : DsmFabric → Op → Prop} [∀ f op, Decidable (allowed f op)] {ops : List Op}
    (h : runFrom topo gpc cfg allowed ops = some f) : Reachable topo gpc cfg allowed f := by
  unfold runFrom at h
  split at h
  · rename_i f₀ hbuilt
    exact ⟨f₀, hbuilt, .of_runAllowed .refl h⟩
  · cases h

/-- A run whose last state passes a test reaches a state that passes it. -/
theorem exists_reachable {topo : GpuTopology} {gpc : Nat} {cfg : DsmFabricConfig}
    {allowed : DsmFabric → Op → Prop} [∀ f op, Decidable (allowed f op)] {ops : List Op}
    {test : DsmFabric → Prop} [DecidablePred test]
    (h : (runFrom topo gpc cfg allowed ops).any (fun f => decide (test f)) = true) :
    ∃ f, Reachable topo gpc cfg allowed f ∧ test f := by
  obtain ⟨f, hf, htest⟩ := (Option.any_eq_true _ _).mp h
  exact ⟨f, reachable_of_runFrom hf, of_decide_eq_true htest⟩

end DsmFabric

/-- The packets of the fabric tests, `mk_pkt`. -/
def mkPkt (src dst : Nat) (cls : DsmPacketClass) (bytes : Nat) (addr : Nat) : DsmPacket :=
  { networkSrcSmId := src
    networkDstSmId := dst
    packetClass := cls
    vc := dsmVcOf cls
    payloadBytes := bytes
    payloadAddress := addr }

/-- One GPC of `n` SMs in one CPC. -/
def oneGpc (n : Nat) (hpos : 0 < n) (hfits : n ≤ kSmSlotsPerCpc) : GpuTopology where
  cpcsPerGpc := 1
  smsInGpc := [n]
  gpcNonempty := by simpa using hpos
  fitsSlots := by simpa using hfits

end FlashGpuSim
