import FlashGpuSim.Dsm.FabricLanes

/-!
The fabric as an endpoint uses it: what an accepted packet, a popped packet and a
cycle do to the lanes, and what an idle fabric says about them.
-/

namespace FlashGpuSim

open Lib Relation DsmPacket FabricBuffers

namespace DsmFabric

variable {f f' : DsmFabric} {packet p : DsmPacket} {vc : DsmVc} {dst now : Nat} {k : LaneKey}

/-- What `inject` leaves of a packet that comes without flit counts. -/
theorem queuedPacket_header (f : DsmFabric) (packet : DsmPacket) (htotal : packet.totalFlits = 0) :
    ∃ packetId created gx lane,
      (f.queuedPacket packet).header = { packet with
        packetId := packetId, createdCycle := created, injectedCycle := f.now,
        gxPlane := gx, routeLane := lane, serial := f.accepted.length,
        totalFlits := dsmPayloadFlits packet.packetClass packet.payloadBytes
          f.cfg.flitPayloadBytes,
        remainingFlits := 0, ejectionReservedFlits := 0, tailArrivalCycle := 0 } := by
  unfold queuedPacket stamped withFlits header
  simp only [htotal, if_true]
  split
  · exact ⟨_, _, _, _, rfl⟩
  · exact ⟨_, _, _, _, rfl⟩

/-- An accepted packet enters its lane, at the end unless it is a read command. -/
theorem injected_lane (f : DsmFabric) (packet : DsmPacket) :
    ∃ ahead behind, f.lane packet.laneKey = ahead ++ behind ∧
      (packet.packetClass ≠ .readCommand → behind = []) ∧
      ∀ k, (f.injected packet).lane k =
        if k = packet.laneKey then ahead ++ (f.queuedPacket packet).header :: behind
        else f.lane k := by
  obtain ⟨ahead, hsplit, hinsert⟩ := insertQueue_split (f.queuedPacket packet)
    (f.queue packet.vc packet.networkSrcSmId packet.networkDstSmId)
  refine ⟨(f.ejectionLane packet.laneKey ++ ahead).map header,
    (behindOf (f.queuedPacket packet)
      (f.queue packet.vc packet.networkSrcSmId packet.networkDstSmId)).map header, ?_, ?_, ?_⟩
  · rw [← List.map_append, List.append_assoc, ← hsplit]
    rfl
  · intro hdata
    rw [behindOf, if_neg]
    · rfl
    · rw [queuedPacket_class]
      exact fun hc => hdata hc.1
  · intro k
    change ((f.toFabricBuffers.storeMove (f.queuedPacket packet)).lane k) = _
    unfold lane ejectionLane
    rw [storeMove_ej, storeMove_queue, queuedPacket_vc, queuedPacket_src, queuedPacket_dst]
    split
    · rename_i hk
      obtain ⟨hvc, hsrc, hdst⟩ := hk
      rw [if_pos (eq_laneKey hvc hsrc hdst), hinsert, hvc, hsrc, hdst]
      simp only [List.map_append, List.map_cons, List.append_assoc]
      rfl
    · rename_i hk
      rw [if_neg]
      rintro rfl
      exact hk ⟨rfl, rfl, rfl⟩

/-- A popped packet was the first of its lane. -/
theorem poppedHead_lane (hinv : f.Inv) (htop : f.top dst vc = some p) :
    p.vc = vc ∧ p.networkDstSmId = dst ∧ 0 < p.totalFlits ∧
      ∃ rest, f.lane p.laneKey = p.header :: rest ∧
        ∀ k, (f.poppedHead vc dst p).lane k =
          if k = p.laneKey then rest else f.lane k := by
  obtain ⟨-, -, behind, hej⟩ := top_spec htop
  have hmem : p ∈ f.ej vc dst := by
    rw [hej]
    exact List.mem_cons_self
  obtain ⟨hvc, -, hdst⟩ := hinv.buffers.ej_addressed vc dst p hmem
  obtain ⟨hflits, -, -⟩ := hinv.buffers.delivered vc dst p hmem
  subst hvc hdst
  refine ⟨rfl, rfl, hflits, (behind.filter (fun q => q.networkSrcSmId = p.networkSrcSmId) ++
    f.queue p.vc p.networkSrcSmId p.networkDstSmId).map header, ?_, ?_⟩
  · unfold lane ejectionLane
    simp only [laneKey, hej, decide_true, List.filter_cons_of_pos, List.cons_append,
      List.map_cons]
    rfl
  · intro k
    change ((f.toFabricBuffers.popMove p.vc p.networkDstSmId p
      (f.ej p.vc p.networkDstSmId).tail).lane k) = _
    rw [hej, List.tail_cons]
    unfold lane ejectionLane
    rw [popMove_queue, popMove_ej]
    by_cases hk : k = p.laneKey
    · rw [if_pos hk, hk, if_pos ⟨rfl, rfl⟩]
      rfl
    · rw [if_neg hk]
      split
      · rename_i hport
        have hsrc : ¬ p.networkSrcSmId = k.src := fun hc =>
          hk (eq_laneKey hport.1 hc.symm hport.2)
        rw [hport.1, hport.2, hej]
        simp [hsrc]
      · rfl

theorem Cycled.lane (h : Cycled now f f') (hinv : f.Inv) (k : LaneKey) :
    f'.lane k = f.lane k := by
  have hlanes := CycleMoves.lanes_eq h.moves hinv.buffers
  exact congrFun (congrArg Lanes.lane hlanes) k

/-- Nothing travels to or from an SM the fabric does not have. -/
theorem lane_outside (hinv : f.Inv) (h : ¬ (k.src < f.n ∧ k.dst < f.n)) : f.lane k = [] := by
  unfold FabricBuffers.lane ejectionLane
  rw [hinv.buffers.outside k.vc k.src k.dst h, List.append_nil, List.map_eq_nil_iff,
    List.filter_eq_nil_iff]
  intro p hp
  rw [decide_eq_true_eq]
  intro hsrc
  obtain ⟨-, hin, hdst⟩ := hinv.buffers.ej_addressed k.vc k.dst p hp
  refine h ⟨by omega, ?_⟩
  by_contra hout
  rw [hinv.buffers.ej_outside k.vc k.dst hout] at hp
  cases hp

/-- A packet with flits keeps the fabric busy. -/
theorem busy_of_lane (hinv : f.Inv) (hp : p ∈ f.lane k) (hflits : 0 < p.totalFlits) :
    f.busy = true := by
  have hin : k.src < f.n ∧ k.dst < f.n := by
    by_contra hout
    rw [lane_outside hinv hout] at hp
    cases hp
  have hvc : k.vc ∈ [DsmVc.request, DsmVc.response] := by
    cases k.vc
    · exact List.mem_cons_self
    · exact List.mem_cons_of_mem _ List.mem_cons_self
  unfold busy
  rw [List.any_eq_true]
  refine ⟨k.vc, hvc, ?_⟩
  rw [List.any_eq_true]
  obtain ⟨q, hq, hheader⟩ := List.mem_map.mp hp
  rcases List.mem_append.mp hq with hq | hq
  · -- it waits in the ejection queue of its destination
    refine ⟨k.dst, List.mem_range.mpr hin.2, ?_⟩
    have hej := List.mem_of_mem_filter hq
    rw [Bool.or_eq_true, Bool.not_eq_true', List.isEmpty_eq_false_iff]
    exact .inr (List.ne_nil_of_mem hej)
  · -- it has flits left, so its queue is occupied
    refine ⟨k.src, List.mem_range.mpr hin.1, ?_⟩
    have htotal : 0 < q.totalFlits := by
      rw [← hheader] at hflits
      exact hflits
    have hrem := (hinv.buffers.streaming k.vc k.src k.dst q hq).remaining_pos htotal
    have hlimit : 0 < (f.voq k.vc k.src).limit := by
      rw [hinv.buffers.limit]
      exact hinv.buffers.limit_pos k.vc
    have hocc := BoundedVoq.occ_pos (hinv.buffers.voq_wf k.vc k.src) hlimit hq hrem
    have hle : (f.voq k.vc k.src).occ k.dst ≤ (f.voq k.vc k.src).occupancyFlits := by
      refine List.le_sum_of_mem (List.mem_map_of_mem (List.mem_range.mpr ?_))
      rw [hinv.buffers.nDst]
      exact hin.2
    rw [Bool.or_eq_true, bne_iff_ne]
    left
    omega

end DsmFabric

end FlashGpuSim
