import FlashGpuSim.Lib.Lanes
import FlashGpuSim.Dsm.FabricRun

/-!
The fabric seen from its endpoints: one lane of packets for each virtual channel,
source and destination. A cycle is invisible at this level, since it only moves
packets from the queue half of a lane to its ejection half.
-/

namespace FlashGpuSim

open Lib Relation

/-- What a lane is known by. -/
structure LaneKey where
  vc : DsmVc
  src : Nat
  dst : Nat
  deriving DecidableEq, Repr

namespace DsmPacket

def laneKey (p : DsmPacket) : LaneKey := ⟨p.vc, p.networkSrcSmId, p.networkDstSmId⟩

/-- The packet without the fields the fabric writes while it transports it. -/
def header (p : DsmPacket) : DsmPacket :=
  { p with remainingFlits := 0, ejectionReservedFlits := 0, tailArrivalCycle := 0 }

theorem eq_laneKey {k : LaneKey} {p : DsmPacket} (hvc : k.vc = p.vc)
    (hsrc : k.src = p.networkSrcSmId) (hdst : k.dst = p.networkDstSmId) :
    k = p.laneKey := by
  obtain ⟨vc, src, dst⟩ := k
  subst hvc hsrc hdst
  rfl

@[simp] theorem header_laneKey (p : DsmPacket) : p.header.laneKey = p.laneKey := rfl

@[simp] theorem header_serial (p : DsmPacket) : p.header.serial = p.serial := rfl

@[simp] theorem header_class (p : DsmPacket) : p.header.packetClass = p.packetClass := rfl

end DsmPacket

open DsmPacket

namespace FabricBuffers

variable {b b' : FabricBuffers} {n now : Nat} {cfg : DsmFabricConfig} {vc : DsmVc}
  {sm dst : Nat} {p : DsmPacket} {rest : List DsmPacket}

/-- The packets of the ejection queue that came from `k.src`. -/
def ejectionLane (b : FabricBuffers) (k : LaneKey) : List DsmPacket :=
  (b.ej k.vc k.dst).filter (fun p => p.networkSrcSmId = k.src)

def lane (b : FabricBuffers) (k : LaneKey) : List DsmPacket :=
  (b.ejectionLane k ++ b.queue k.vc k.src k.dst).map header

/-- The packets that were popped, in the order of the pops. -/
def poppedPackets (b : FabricBuffers) : List DsmPacket := b.popped.map (fun e => e.2.2)

/-- The packets of a list that belong to the lane `k`. -/
def onLane (k : LaneKey) (packets : List DsmPacket) : List DsmPacket :=
  packets.filter (fun p => p.laneKey = k)

/-- The abstraction of the fabric: its lanes, with their histories. -/
def lanes (b : FabricBuffers) : Lanes LaneKey DsmPacket where
  lane := b.lane
  entered k := (onLane k b.accepted).map header
  left k := (onLane k b.poppedPackets).map header

/-! ### Moves leave the lanes alone -/

theorem reserveMove_lane (hq : b.queue vc sm dst = p :: rest) (k : LaneKey) :
    (b.reserveMove vc sm dst p rest).lane k = b.lane k := by
  unfold lane ejectionLane
  rw [reserveMove_ej, reserveMove_queue]
  split
  · rename_i hk
    obtain ⟨hvc, hsm, hdst⟩ := hk
    rw [hvc, hsm, hdst, hq]
    simp [header]
  · rfl

/-- With its last flit the head of a queue moves behind the delivered packets of
its own lane, and so stays where it is in the lane. -/
theorem flitMove_lane (h : b.WF n cfg) (hq : b.queue vc sm dst = p :: rest) (k : LaneKey) :
    (b.flitMove now vc sm dst p rest).lane k = b.lane k := by
  have hsrc : p.networkSrcSmId = sm :=
    (h.addressed vc sm dst p (by rw [hq]; exact List.mem_cons_self)).2.1
  unfold lane ejectionLane
  rw [flitMove_ej, flitMove_queue]
  by_cases hport : k.vc = vc ∧ k.dst = dst
  · obtain ⟨hvc, hdst⟩ := hport
    rw [hvc, hdst]
    by_cases hsm : k.src = sm
    · rw [hsm, hq]
      by_cases hmore : 1 < p.remainingFlits
      · simp [hmore, header]
      · simp [hmore, header, arrived, hsrc]
    · by_cases hmore : 1 < p.remainingFlits
      · simp [hmore, hsm]
      · have hne : ¬ sm = k.src := fun hc => hsm hc.symm
        simp [hmore, hsm, hne, arrived, hsrc]
  · rw [if_neg (fun hc => hport ⟨hc.1, hc.2.1⟩), if_neg (fun hc => hport ⟨hc.1, hc.2.2⟩)]

theorem FlitMove.lanes_eq (hmove : FlitMove n now vc sm b b') (h : b.WF n cfg) :
    b'.lanes = b.lanes := by
  cases hmove with
  | @reserve dst p rest _ _ hq _ _ =>
    unfold lanes poppedPackets
    rw [reserveMove_accepted, reserveMove_popped, funext (reserveMove_lane hq)]
  | @flit dst p rest _ _ hq _ _ =>
    unfold lanes poppedPackets
    rw [flitMove_accepted, flitMove_popped, funext (flitMove_lane h hq)]

theorem CycleMoves.lanes_eq (hmoves : CycleMoves n now b b') (h : b.WF n cfg) :
    b'.lanes = b.lanes := by
  induction hmoves with
  | refl => rfl
  | tail hpre hmove ih =>
    obtain ⟨vc, sm, hmove⟩ := hmove
    rw [hmove.lanes_eq (CycleMoves.wf hpre h), ih]

/-! ### Pops and injections -/

theorem onLane_append (k : LaneKey) (l l' : List DsmPacket) :
    onLane k (l ++ l') = onLane k l ++ onLane k l' := List.filter_append _ _

theorem onLane_self (p : DsmPacket) : onLane p.laneKey [p] = [p] := by
  simp [onLane]

theorem onLane_other {k : LaneKey} (h : k ≠ p.laneKey) : onLane k [p] = [] := by
  have hne : ¬ p.laneKey = k := fun hc => h hc.symm
  simp [onLane, hne]

/-- A pop takes the first packet of its lane. -/
theorem popMove_step (fits : DsmPacket → List DsmPacket → Prop) (h : b.WF n cfg)
    (hej : b.ej vc dst = p :: rest) :
    Lanes.Step fits b.lanes (b.popMove vc dst p rest).lanes := by
  obtain ⟨hvc, -, hdst⟩ := h.ej_addressed vc dst p (by rw [hej]; exact List.mem_cons_self)
  subst hvc hdst
  have hlane : b.lanes.lane p.laneKey = p.header ::
      (rest.filter (fun q => q.networkSrcSmId = p.networkSrcSmId) ++
        b.queue p.vc p.networkSrcSmId p.networkDstSmId).map header := by
    simp [lanes, lane, ejectionLane, laneKey, hej]
  have hstep : Lanes.Step fits b.lanes _ := Lanes.Step.leave p.laneKey hlane
  have hlanes : (b.popMove p.vc p.networkDstSmId p rest).lanes =
      { lane := Function.update b.lanes.lane p.laneKey
          ((rest.filter (fun q => q.networkSrcSmId = p.networkSrcSmId) ++
            b.queue p.vc p.networkSrcSmId p.networkDstSmId).map header)
        entered := b.lanes.entered
        left := Function.update b.lanes.left p.laneKey
          (b.lanes.left p.laneKey ++ [p.header]) } := by
    unfold lanes
    simp only [Lanes.mk.injEq]
    refine ⟨?_, rfl, ?_⟩
    · funext k
      by_cases hk : k = p.laneKey
      · subst hk
        rw [Function.update_self]
        unfold lane ejectionLane
        rw [popMove_queue, popMove_ej, if_pos ⟨rfl, rfl⟩]
        rfl
      · rw [Function.update_of_ne hk]
        unfold lane ejectionLane
        rw [popMove_queue, popMove_ej]
        split
        · rename_i hport
          have hsrc : ¬ p.networkSrcSmId = k.src := fun hc =>
            hk (eq_laneKey hport.1 hc.symm hport.2)
          rw [hport.1, hport.2, hej]
          simp [hsrc]
        · rfl
    · funext k
      have hpop : (b.popMove p.vc p.networkDstSmId p rest).poppedPackets =
          b.poppedPackets ++ [p] := by
        simp [poppedPackets, popMove]
      rw [hpop, onLane_append]
      by_cases hk : k = p.laneKey
      · subst hk
        rw [onLane_self, Function.update_self, List.map_append]
        rfl
      · rw [onLane_other hk, List.append_nil, Function.update_of_ne hk]
  rw [hlanes]
  exact hstep

/-- What stays behind a packet that is inserted into a queue. -/
def behindOf (pkt : DsmPacket) (queue : List DsmPacket) : List DsmPacket :=
  if pkt.packetClass = .readCommand ∧ ∃ q ∈ queue, q.packetClass ≠ .readCommand then queue
  else []

theorem insertQueue_split (pkt : DsmPacket) (queue : List DsmPacket) :
    ∃ ahead, queue = ahead ++ behindOf pkt queue ∧
      insertQueue pkt queue = ahead ++ pkt :: behindOf pkt queue := by
  unfold insertQueue behindOf
  split
  · exact ⟨[], rfl, rfl⟩
  · exact ⟨queue, by simp, rfl⟩

/-- An accepted packet enters its lane behind everything delivered, and behind
everything queued as well unless it is a read command that passes data. -/
theorem storeMove_step {fits : DsmPacket → List DsmPacket → Prop} {pkt : DsmPacket}
    (hfits : fits pkt.header
      ((behindOf pkt (b.queue pkt.vc pkt.networkSrcSmId pkt.networkDstSmId)).map header)) :
    Lanes.Step fits b.lanes (b.storeMove pkt).lanes := by
  obtain ⟨ahead, hsplit, hinsert⟩ :=
    insertQueue_split pkt (b.queue pkt.vc pkt.networkSrcSmId pkt.networkDstSmId)
  have hlane : b.lanes.lane pkt.laneKey =
      (b.ejectionLane pkt.laneKey ++ ahead).map header ++
        (behindOf pkt (b.queue pkt.vc pkt.networkSrcSmId pkt.networkDstSmId)).map header := by
    rw [← List.map_append, List.append_assoc, ← hsplit]
    rfl
  have hstep := Lanes.Step.enter pkt.laneKey pkt.header hlane hfits
  have hlanes : (b.storeMove pkt).lanes =
      { lane := Function.update b.lanes.lane pkt.laneKey
          ((b.ejectionLane pkt.laneKey ++ ahead).map header ++ pkt.header ::
            (behindOf pkt (b.queue pkt.vc pkt.networkSrcSmId pkt.networkDstSmId)).map header)
        entered := Function.update b.lanes.entered pkt.laneKey
          (b.lanes.entered pkt.laneKey ++ [pkt.header])
        left := b.lanes.left } := by
    unfold lanes
    simp only [Lanes.mk.injEq]
    refine ⟨?_, ?_, rfl⟩
    · funext k
      by_cases hk : k = pkt.laneKey
      · subst hk
        unfold lane ejectionLane
        rw [storeMove_ej, storeMove_queue, if_pos ⟨rfl, rfl, rfl⟩, hinsert]
        simp [laneKey]
      · rw [Function.update_of_ne hk]
        unfold lane ejectionLane
        rw [storeMove_ej, storeMove_queue, if_neg]
        rintro ⟨hvc, hsrc, hdst⟩
        exact hk (eq_laneKey hvc hsrc hdst)
    · funext k
      change (onLane k (b.accepted ++ [pkt])).map header = _
      rw [onLane_append]
      by_cases hk : k = pkt.laneKey
      · subst hk
        rw [onLane_self, Function.update_self, List.map_append]
        rfl
      · rw [onLane_other hk, List.append_nil, Function.update_of_ne hk]
  rw [hlanes]
  exact hstep

end FabricBuffers

namespace DsmFabric

open FabricBuffers

variable {f f' : DsmFabric}

/-- The lane step of an injection, when the packet is accepted, is allowed. -/
def InsertFits (fits : DsmPacket → List DsmPacket → Prop) (f : DsmFabric) : Op → Prop
  | .inject packet => f.accepts packet = true →
      fits (f.queuedPacket packet).header
        ((behindOf (f.queuedPacket packet)
          (f.queue packet.vc packet.networkSrcSmId packet.networkDstSmId)).map header)
  | _ => True

/-- The fabric refines the lanes: an operation is one lane step or none. -/
theorem step_lanes {fits : DsmPacket → List DsmPacket → Prop} (hinv : f.Inv) {op : Op}
    (hfits : InsertFits fits f op) (hok : f.step op = .ok f') :
    Lanes.Steps fits f.lanes f'.lanes := by
  cases op with
  | inject packet =>
    simp only [step, inject_eq hinv] at hok
    obtain rfl := Except.ok.inj hok
    split
    · rename_i hacc
      refine .single (storeMove_step ?_)
      rw [queuedPacket_vc, queuedPacket_src, queuedPacket_dst]
      exact hfits hacc
    · exact .refl
  | cycle now =>
    have hcycled := (cycle_spec hinv now).of_ok hok
    rw [CycleMoves.lanes_eq hcycled.moves hinv.buffers]
  | pop dst vc =>
    simp only [step, pop_eq hinv] at hok
    obtain rfl := Except.ok.inj hok
    cases htop : f.top dst vc with
    | none => exact .refl
    | some p =>
      obtain ⟨-, -, rest, hej⟩ := top_spec htop
      refine .single ?_
      simp only [poppedHead, hej]
      exact popMove_step fits hinv.buffers hej

end DsmFabric

end FlashGpuSim
